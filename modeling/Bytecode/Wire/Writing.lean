import Bytecode.Wire.Codec

/-!
# Writing values in place

`Kind.put` writes a value as `Kind.encode` does, but in place: it changes the tape piece by piece,
and when it refuses the value, the tape is left as it is at that moment. Nothing is put back.
-/

namespace Bytecode

namespace Tape

/-- Sequential writing: a computation that moves the head over what it writes, and that leaves the
tape where it got to when it refuses a value. -/
abbrev Writing := EStateM ValueError Tape

/-- Puts bytes at the head. -/
def put (bs : List UInt8) : Writing Unit := modify (·.write bs)

/-- Puts a natural number of `width` bytes. -/
def putNat (width n : Nat) : Writing Unit := put (LittleEndian.toBytes width n)

/-- Puts the length of a payload and then the payload, if a length word can say that length. -/
def putPrefixed (payload : List UInt8) : Writing Unit := do
  if payload.length < lengthLimit then
    putNat 4 payload.length
    put payload
  else
    throw (.tooLong payload.length)

end Tape

/-- Puts a value at the head as the kind that it has by itself. -/
def Value.put : Value → Tape.Writing Unit
  | i32 v => Tape.putNat 4 v.toUInt32.toNat
  | u32 v => Tape.putNat 4 v.toNat
  | f64 v => Tape.putNat 8 v.bits.toNat
  | u8 v => Tape.put [v]
  | bytes v => Tape.putPrefixed v
  | string v => Tape.putPrefixed (Text.utf8 v)

/-- Puts a value at the head as a kind, converting it first. -/
def Kind.put (k : Kind) (v : Value) : Tape.Writing Unit :=
  match k.coerce v with
  | none => throw (.mismatch k)
  | some w => w.put

end Bytecode
