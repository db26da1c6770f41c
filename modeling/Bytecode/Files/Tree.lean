import Bytecode.Files.Path

/-!
# File trees

Files and folders as a value, with a current folder at which relative paths start. Operations fail
the way those of a file system do: a path leads through existing folders only, a folder is not
written, and a file has no entries.
-/

namespace Bytecode.Files

/-- A file or a folder. -/
inductive Node where
  /-- A file with its bytes. -/
  | file (content : List UInt8)
  /-- A folder with its entries. -/
  | folder (entries : List (String × Node))
deriving Inhabited

namespace Node

/-- The entry of a folder. -/
def child? (name : String) : Node → Option Node
  | file _ => none
  | folder entries => entries.lookup name

/-- What lies at the end of a row of names. -/
def find? : Node → (names : List String) → Option Node
  | node, [] => some node
  | node, name :: names => (node.child? name).bind (find? · names)

/-- Puts a node at the end of a row of names, whose folders exist. -/
def put : Node → (names : List String) → (new : Node) → Node
  | _, [], new => new
  | file content, _ :: _, _ => file content
  | folder entries, name :: names, new =>
    let old := (entries.lookup name).getD (folder [])
    folder ((name, put old names new) :: entries.filter (·.1 != name))

end Node

/-- A file system with a current folder. -/
structure Tree where
  root : Node
  /-- The names that lead to the current folder. -/
  current : List String

namespace Tree

/-- A tree with an empty current folder of a given name. -/
def empty (name : String) : Tree := ⟨.folder [(name, .folder [])], [name]⟩

/-- Follows one segment from a folder to another. -/
def enter (t : Tree) (position : List String) (segment : String) : Option (List String) :=
  if isIdle segment then some position
  else if segment == ".." then some position.dropLast
  else
    match t.root.find? (position ++ [segment]) with
    | some (.folder _) => some (position ++ [segment])
    | _ => none

/-- The folder where a path starts. -/
def origin (t : Tree) (path : String) : List String := if isAbsolute path then [] else t.current

/-- The place that a path names: the folder before the last segment, and that segment, which must
be able to name a file. -/
def locate? (t : Tree) (path : String) : Option (List String) := do
  if !isUsablePath path then none
  let name ← (segments path).getLast?
  -- A path that ends in a slash, a `.` or a `..` names a folder.
  if isIdle name || name == ".." || !isUsableName name then none
  let folder ← (segments path).dropLast.foldlM t.enter (t.origin path)
  return folder ++ [name]

/-- The content of the file at a path. -/
def read? (t : Tree) (path : String) : Option (List UInt8) := do
  match ← t.root.find? (← t.locate? path) with
  | .file content => some content
  | .folder _ => none

/-- The content of the file at a path as a text. -/
def readText? (t : Tree) (path : String) : Option String := (t.read? path).bind Text.ofUtf8?

/-- Creates or replaces the file at a path. -/
def write? (t : Tree) (path : String) (content : List UInt8) : Option Tree := do
  let place ← t.locate? path
  match t.root.find? place with
  | some (.folder _) => none
  | _ => some { t with root := t.root.put place (.file content) }

/-- Follows one segment from a folder to another, creating the folder if there is nothing. -/
def enterOrCreate (state : Tree × List String) (segment : String) : Option (Tree × List String) :=
  let (t, position) := state
  match t.enter position segment with
  | some position => some (t, position)
  | none =>
    let place := position ++ [segment]
    if (t.root.find? place).isSome || !isUsableName segment then none
    else some ({ t with root := t.root.put place (.folder []) }, place)

/-- Creates the folder at a path and all missing folders on the way; the empty path names a folder
that exists. -/
def createFolders? (t : Tree) (path : String) : Option Tree :=
  if path == "" then some t
  else if !isUsablePath path then none
  else ((segments path).foldlM enterOrCreate (t, t.origin path)).map (·.1)

end Tree

end Bytecode.Files
