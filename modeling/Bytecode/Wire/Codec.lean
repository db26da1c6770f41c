import Bytecode.Wire.Tape
import Bytecode.Wire.Value

/-!
# Values on a tape

`Kind.encode` writes a value at the head of a tape in the form its kind prescribes, converting it
first; `Kind.decode` reads a value of a kind back. A value that does not convert, or whose length
does not fit the 32-bit length word, is refused before anything is written.
-/

namespace Bytecode

/-- Why a value cannot be written as a kind. -/
inductive ValueError where
  /-- The value does not convert to the kind. -/
  | mismatch (expected : Kind)
  /-- The payload has more bytes than a length word can say. -/
  | tooLong (length : Nat)
deriving DecidableEq, Repr

/-- The wording of a refusal. -/
def ValueError.message : ValueError → String
  | mismatch expected => s!"expected a value of type {expected.name}"
  | tooLong length => s!"payload of {length} bytes exceeds the u32 length prefix"

/-- The first length that a length word cannot say. -/
def lengthLimit : Nat := 2 ^ 32

namespace Kind

/-- Writes a value at the head of a tape as a kind. -/
def encode (k : Kind) (v : Value) (t : Tape) : Except ValueError Tape :=
  match k.coerce v with
  | none => .error (.mismatch k)
  | some w =>
    if w.payload.length < lengthLimit then .ok (t.write w.wire)
    else .error (.tooLong w.payload.length)

/-- Reads a value of a kind at the head of a tape. -/
def decode (k : Kind) : Tape.Reading Value :=
  match k with
  | i32 => .i32 <$> Tape.readInt
  | u32 => .u32 <$> Tape.readWord
  | f64 => .f64 <$> Tape.readDouble
  | u8 => .u8 <$> Tape.readByte
  | bytes => do
    let length ← Tape.readWord
    .bytes <$> Tape.take length.toNat
  | string => do
    let length ← Tape.readWord
    .string <$> Tape.readText length.toNat

end Kind

end Bytecode
