import Bytecode.Wire.Field
import Bytecode.Wire.Value

/-!
# Formats

A format is a checked schema in the shape that writing and reading cartridges need: constants are
values, counters and chunk lengths are slots of one or four bytes, and every instruction knows its
mnemonic, its opcode and all its arguments.

A cartridge of a format starts with the wire forms of the constants, then come one slot for each
counter and one for each chunk, and then instructions up to the end: an opcode byte and the wire
forms of the arguments.
-/

namespace Bytecode

/-! ### Slots -/

/-- The kind of a slot: one of the unsigned integer kinds. -/
inductive SlotKind where
  | u8
  | u32
deriving DecidableEq, Repr, Inhabited

namespace SlotKind

/-- The wire kind of a slot. -/
def kind : SlotKind → Kind
  | u8 => .u8
  | u32 => .u32

/-- The slot kind of an unsigned integer kind. -/
def ofKind? : Kind → Option SlotKind
  | .u8 => some u8
  | .u32 => some u32
  | _ => none

/-- The number of bytes of a slot. -/
def width : SlotKind → Nat
  | u8 => 1
  | u32 => 4

/-- The largest number that a slot holds. -/
def max (k : SlotKind) : Nat := 256 ^ k.width - 1

end SlotKind

/-- A counter or a chunk length: a named number in the header. -/
structure Slot where
  name : String
  kind : SlotKind
deriving DecidableEq, Repr, Inhabited

/-- The number of bytes of a slot. -/
def Slot.width (s : Slot) : Nat := s.kind.width

/-- The number of bytes of a row of slots. -/
def slotsWidth (slots : List Slot) : Nat := (slots.map Slot.width).sum

/-! ### Instructions -/

/-- A header constant. -/
structure Constant where
  name : String
  /-- The value that every cartridge holds. -/
  value : Value
deriving DecidableEq, Repr, Inhabited

/-- An instruction of a format. -/
structure Instruction where
  name : String
  /-- The name in listings. -/
  mnemonic : String
  opcode : UInt8
  /-- All arguments in wire order, the common ones last. -/
  args : List Field
  /-- What the instruction does, for readers. -/
  doc : Option String
deriving DecidableEq, Repr, Inhabited

/-! ### Formats -/

/-- A cartridge format. -/
structure Format where
  /-- The constants, in wire order. -/
  header : List Constant
  counters : List Slot
  /-- The chunks, in wire order of their lengths. -/
  chunks : List Slot
  /-- The instructions, in the order of declaration. -/
  instructions : List Instruction
deriving DecidableEq, Repr, Inhabited

namespace Format

/-- One more than the largest opcode; zero without instructions. -/
def opcodeCount (f : Format) : Nat :=
  f.instructions.foldl (fun count i => max count (i.opcode.toNat + 1)) 0

/-- The instruction with a given name or mnemonic. -/
def instruction? (f : Format) (name : String) : Option Instruction :=
  f.instructions.find? fun i => i.name == name || i.mnemonic == name

/-- The instruction with a given opcode. -/
def byOpcode? (f : Format) (opcode : UInt8) : Option Instruction :=
  f.instructions.find? (·.opcode == opcode)

/-- The counter with a given name, and its index. -/
def counter? (f : Format) (name : String) : Option (Slot × Nat) :=
  f.counters.zipIdx.find? (·.1.name == name)

/-- The first text among the constants, or a default. -/
def title (f : Format) : String := (f.header.findSome? (·.value.toText?)).getD "cartridge"

/-! ### Layout -/

/-- The bytes of the constants. -/
def headerBytes (f : Format) : List UInt8 := f.header.flatMap (·.value.wire)

/-- Where the counters start, counted from the start of a cartridge. -/
def countersOffset (f : Format) : Nat := f.headerBytes.length

/-- Where a counter lies, counted from the start of a cartridge. -/
def counterOffset (f : Format) (index : Nat) : Nat :=
  f.countersOffset + slotsWidth (f.counters.take index)

/-- Where the chunk lengths start, counted from the start of a cartridge. -/
def chunksOffset (f : Format) : Nat := f.countersOffset + slotsWidth f.counters

/-- Where the instructions start, counted from the start of a cartridge. -/
def bodyOffset (f : Format) : Nat := f.chunksOffset + slotsWidth f.chunks

end Format

end Bytecode
