import Bytecode.Text.Hex
import Bytecode.Wire.Kind

/-!
# Faults of a schema

The reasons why a schema describes no format.
-/

namespace Bytecode

/-- Why a schema describes no format. -/
inductive SchemaError where
  /-- Two instructions claim one opcode. -/
  | duplicateOpcode (opcode : Nat) (first second : String)
  /-- Two instructions have one mnemonic, or two counters or chunks one name. -/
  | duplicateName (name : String)
  /-- An instruction has two arguments of one name. -/
  | duplicateArg (instruction arg : String)
  /-- A name is not an identifier. -/
  | invalidIdentifier (name : String)
  /-- A header constant cannot be held by its declared kind. -/
  | invalidHeaderValue (field : String) (kind : Kind)
  /-- A counter or a chunk has a kind that is not an unsigned integer. -/
  | invalidFieldType (field : String) (kind : Kind)
  /-- An opcode, declared or assigned, does not fit a byte. -/
  | opcodeOutOfRange (instruction : String) (opcode : Nat)
deriving DecidableEq, Repr

/-- The wording of a fault. -/
def SchemaError.message : SchemaError → String
  | duplicateOpcode opcode first second =>
    s!"duplicate opcode {Text.hexLiteral opcode}: '{first}' and '{second}'"
  | duplicateName name => s!"duplicate name '{name}'"
  | duplicateArg instruction arg => s!"duplicate argument '{arg}' in instruction '{instruction}'"
  | invalidIdentifier name => s!"invalid identifier '{name}'"
  | invalidHeaderValue field kind =>
    s!"header field '{field}' has a value that is not a valid {kind.name}"
  | invalidFieldType field kind =>
    s!"field '{field}' must be an unsigned integer type, got {kind.name}"
  | opcodeOutOfRange instruction opcode =>
    s!"opcode {opcode} of instruction '{instruction}' does not fit in a byte"

end Bytecode
