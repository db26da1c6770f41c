import Bytecode.Text.Utf8

/-!
# Paths

A path is a text of segments separated by slashes; one that starts with a slash is absolute. Empty
segments and the segment `.` lead nowhere, and `..` leads to the folder above.
-/

namespace Bytecode.Files

/-- Whether a segment stays in the folder where it is. -/
def isIdle (segment : String) : Bool := segment == "" || segment == "."

/-- The segments of a path, idle ones included. -/
def segments (path : String) : List String := path.splitOn "/"

/-- Whether a path starts at the root. -/
def isAbsolute (path : String) : Bool := path.startsWith "/"

/-- Drops idle segments at the end. -/
def dropIdleEnd (segments : List String) : List String :=
  (segments.reverse.dropWhile isIdle).reverse

/-- A path without its last segment and the slashes before it. The root and the empty path have no
parent. -/
def parent? (path : String) : Option String :=
  match segments path with
  | [] => none
  | first :: rest =>
    match dropIdleEnd rest with
    -- There is one segment at most, so what is left is the folder where the path starts.
    | [] => if first == "" then none else some ""
    | rest =>
      match dropIdleEnd rest.dropLast with
      | [] => some (if isAbsolute path then "/" else first)
      | rest => some ("/".intercalate (first :: rest))

/-- The longest name of a file or folder, in bytes. -/
def nameLimit : Nat := 255

/-- The longest path, in bytes. -/
def pathLimit : Nat := 4095

/-- Whether a segment can be the name of a file or folder. -/
def isUsableName (segment : String) : Bool := segment.utf8ByteSize ≤ nameLimit

/-- Whether a text can be used as a path at all. -/
def isUsablePath (path : String) : Bool :=
  path ≠ "" && path.utf8ByteSize ≤ pathLimit && !path.contains '\x00'

end Bytecode.Files
