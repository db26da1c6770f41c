/-!
# Wire kinds

The closed set of types that a value can have on the wire: four numeric kinds of fixed width, and
byte strings and texts, whose bytes follow their length.
-/

namespace Bytecode

/-- A wire type. -/
inductive Kind where
  /-- A signed 32-bit integer. -/
  | i32
  /-- An unsigned 32-bit integer. -/
  | u32
  /-- A 64-bit floating-point number. -/
  | f64
  /-- An unsigned byte. -/
  | u8
  /-- A byte string. -/
  | bytes
  /-- A text. -/
  | string
deriving DecidableEq, Repr, Inhabited

namespace Kind

/-- All kinds. -/
def all : List Kind := [i32, u32, f64, u8, bytes, string]

/-- The spelling of a kind in documents and messages. -/
def name : Kind → String
  | i32 => "i32"
  | u32 => "u32"
  | f64 => "f64"
  | u8 => "u8"
  | bytes => "bytes"
  | string => "string"

/-- The kind with a given spelling. -/
def ofName? (s : String) : Option Kind := all.find? (·.name == s)

/-- The number of bytes of every value of a kind, for kinds that fix it. -/
def width? : Kind → Option Nat
  | i32 | u32 => some 4
  | f64 => some 8
  | u8 => some 1
  | bytes | string => none

/-- Whether values of the kind are numbers. -/
def isNumeric (k : Kind) : Bool := k.width?.isSome

/-- The largest value of an unsigned integer kind. -/
def unsignedMax? : Kind → Option Nat
  | u8 => some 0xFF
  | u32 => some 0xFFFFFFFF
  | _ => none

end Kind

end Bytecode
