import Bytecode.Number.Double
import Bytecode.Number.LittleEndian
import Bytecode.Text.Utf8

/-!
# Tapes

A tape is a byte string with one head between two of its bytes, at which it is read and written. It
is held as the bytes before the head and the bytes after it, so that the head is never outside, and
reading or writing only moves bytes from one side to the other.

Sequential reads (`take` and everything built on it) run in the monad `Tape.Reading`, in which a
failure keeps the tape as it was left. Writing replaces the bytes after the head and appends what
does not fit. Absolute access (`peek`, `patch`) leaves the head where it is.

A tape also records whether it was made to be extended; only such a tape can receive a new
cartridge.
-/

namespace Bytecode

/-- A byte string with a head. -/
structure Tape where
  before : List UInt8
  after : List UInt8
  /-- Whether the tape was made to be extended. -/
  growable : Bool
deriving DecidableEq, Repr, Inhabited

namespace Tape

/-! ### Construction and views -/

/-- The empty tape that may be extended. -/
def blank : Tape := ⟨[], [], true⟩

/-- A tape that holds given bytes and is not to be extended, its head at the start. -/
def fixed (bs : List UInt8) : Tape := ⟨[], bs, false⟩

/-- All bytes of the tape. -/
def bytes (t : Tape) : List UInt8 := t.before ++ t.after

/-- The offset of the head. -/
def pos (t : Tape) : Nat := t.before.length

/-- The number of bytes between the head and the end. -/
def remaining (t : Tape) : Nat := t.after.length

/-- The number of bytes. -/
def size (t : Tape) : Nat := t.pos + t.remaining

/-! ### Faults -/

/-- Why access to a tape fails. -/
inductive Fault where
  /-- The tape ends before `needed` bytes from `offset`. -/
  | truncated (offset needed : Nat)
  /-- The bytes from `offset` are not a text. -/
  | malformedText (offset : Nat)
  /-- An offset lies beyond the end of the tape. -/
  | outOfBounds
deriving DecidableEq, Repr, Inhabited

/-- The wording of a fault. -/
def Fault.message : Fault → String
  | truncated offset needed => s!"truncated input: needed {needed} bytes at offset {offset}"
  | malformedText offset => s!"invalid UTF-8 at offset {offset}"
  | outOfBounds => "out of bounds"

/-! ### Moving and reading -/

/-- Moves the head to an absolute offset, at most to the end. -/
def seek (offset : Nat) (t : Tape) : Except Fault Tape :=
  if offset ≤ t.size then
    .ok { t with before := t.bytes.take offset, after := t.bytes.drop offset }
  else
    .error .outOfBounds

/-- Sequential reading: a computation that moves the head, and that leaves the tape where it got to
when it fails. -/
abbrev Reading := EStateM Fault Tape

/-- Takes the next `count` bytes; takes none if there are fewer. -/
def take (count : Nat) : Reading (List UInt8) := fun t =>
  if count ≤ t.remaining then
    .ok (t.after.take count)
      { t with before := t.before ++ t.after.take count, after := t.after.drop count }
  else
    .error (.truncated t.pos count) t

/-- Reads a natural number of `width` bytes. -/
def readNat (width : Nat) : Reading Nat := LittleEndian.ofBytes <$> take width

/-- Reads a byte. -/
def readByte : Reading UInt8 := UInt8.ofNat <$> readNat 1

/-- Reads an unsigned 32-bit word. -/
def readWord : Reading UInt32 := UInt32.ofNat <$> readNat 4

/-- Reads a signed 32-bit word. -/
def readInt : Reading Int32 := UInt32.toInt32 <$> readWord

/-- Reads a double. -/
def readDouble : Reading Double := (fun n => ⟨UInt64.ofNat n⟩) <$> readNat 8

/-- Reads `count` bytes as a text. Bytes that are present but not well formed are consumed. -/
def readText (count : Nat) : Reading String := fun t =>
  match take count t with
  | .ok bs t' =>
    match Text.ofUtf8? bs with
    | some s => .ok s t'
    | none => .error (.malformedText t.pos) t'
  | .error fault t' => .error fault t'

/-! ### Absolute access -/

/-- Offsets are 64-bit words; this is the first number that is none. -/
def offsetLimit : Nat := 2 ^ 64

/-- The `count` bytes from an absolute offset. -/
def peek (offset count : Nat) (t : Tape) : Except Fault (List UInt8) :=
  if offset + count ≤ t.size then .ok ((t.bytes.drop offset).take count)
  else if offsetLimit ≤ offset + count then .error .outOfBounds
  else .error (.truncated offset count)

/-- The natural number of `width` bytes at an absolute offset. -/
def peekNat (offset width : Nat) (t : Tape) : Except Fault Nat :=
  LittleEndian.ofBytes <$> t.peek offset width

/-- Replaces bytes that are already on the tape, from an absolute offset, without moving the
head. -/
def patch (offset : Nat) (bs : List UInt8) (t : Tape) : Except Fault Tape :=
  if offset + bs.length ≤ t.size then
    let patched := t.bytes.take offset ++ bs ++ t.bytes.drop (offset + bs.length)
    .ok { t with before := patched.take t.pos, after := patched.drop t.pos }
  else
    .error .outOfBounds

/-! ### Writing -/

/-- Writes bytes at the head: they replace the bytes after it as far as there are any, and extend
the tape by the others. -/
def write (bs : List UInt8) (t : Tape) : Tape :=
  { t with before := t.before ++ bs, after := t.after.drop bs.length }

end Tape

end Bytecode
