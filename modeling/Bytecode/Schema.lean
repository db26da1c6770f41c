import Bytecode.Wire.Field
import Bytecode.Wire.Literal

/-!
# Schemas

A schema declares a cartridge format as its author wrote it: the constants that open every
cartridge, the counters and chunk lengths that follow them, and the instruction set. Nothing in a
schema has been checked; `Schema.load` does that and yields a `Format`.
-/

namespace Bytecode

/-- A header constant as declared. -/
structure ConstantDecl where
  name : String
  kind : Kind
  /-- The constant as it is spelled. -/
  literal : Literal
deriving DecidableEq, Repr, Inhabited

/-- An instruction as declared. -/
structure InstructionDecl where
  name : String
  /-- The opcode, where the author fixes one. -/
  code : Option UInt32
  /-- What the instruction does, for readers. -/
  doc : Option String
  /-- The arguments of the instruction alone, in wire order. -/
  args : List Field
deriving DecidableEq, Repr, Inhabited

/-- A format as declared. -/
structure Schema where
  /-- The constants that open a cartridge, in wire order. -/
  header : List ConstantDecl
  counters : List Field
  /-- The chunks, in wire order of their lengths. -/
  chunks : List Field
  /-- The arguments that every instruction has after its own. -/
  commonArgs : List Field
  instructions : List InstructionDecl
deriving DecidableEq, Repr, Inhabited

end Bytecode
