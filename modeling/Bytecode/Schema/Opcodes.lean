import Bytecode.Schema
import Bytecode.Schema.Error

/-!
# Assignment of opcodes

Every instruction has a one-byte opcode. Declared opcodes are claimed first, over the whole list;
the other instructions then take, in order, the smallest opcodes that nobody claimed.
-/

namespace Bytecode

/-- The number of opcodes. -/
def opcodeLimit : Nat := 256

/-- A declared opcode and the name of the instruction that declares it. -/
abbrev Claim := Nat × String

/-- Adds the declared opcodes of a list of instructions to the claims made before. An opcode must
fit a byte and must not have been claimed. -/
def collectClaims : (made : List Claim) → List InstructionDecl → Except SchemaError (List Claim)
  | made, [] => .ok made
  | made, i :: is =>
    match i.code with
    | none => collectClaims made is
    | some code =>
      if opcodeLimit ≤ code.toNat then .error (.opcodeOutOfRange i.name code.toNat)
      else
        match made.lookup code.toNat with
        | some first => .error (.duplicateOpcode code.toNat first i.name)
        | none => collectClaims (made ++ [(code.toNat, i.name)]) is

/-- The opcodes that nobody claims, in increasing order. -/
def unclaimed (made : List Claim) : List Nat :=
  (List.range opcodeLimit).filter fun opcode => (made.lookup opcode).isNone

/-- Gives each instruction its declared opcode, or else the next of the free ones. -/
def takeOpcodes : (free : List Nat) → List InstructionDecl → Except SchemaError (List UInt8)
  | _, [] => .ok []
  | free, i :: is =>
    match i.code, free with
    | some code, free => (code.toUInt8 :: ·) <$> takeOpcodes free is
    | none, opcode :: free => (UInt8.ofNat opcode :: ·) <$> takeOpcodes free is
    | none, [] => .error (.opcodeOutOfRange i.name opcodeLimit)

/-- The opcodes of a list of instructions, in the order of the list. -/
def assignOpcodes (is : List InstructionDecl) : Except SchemaError (List UInt8) := do
  takeOpcodes (unclaimed (← collectClaims [] is)) is

end Bytecode
