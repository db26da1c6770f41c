import Bytecode.Format
import Bytecode.Table
import Mathlib.Init

/-!
# Indexes of formats

With an index, instructions are looked up without going through all of them. It holds the positions
of the instructions in two tables: by opcode, and by name. An instruction stands under its name and
under its mnemonic, and both are in the same table. Instructions are entered in the order of
declaration, and what is entered under a key replaces what has been entered under it before.
-/

namespace Bytecode

/-- The positions of the instructions of a format. -/
structure Index where
  byOpcode : Table Nat
  /-- By name and by mnemonic. -/
  byName : Std.HashMap String Nat

namespace Index

/-- An index without entries. -/
def blank (size : Nat) : Index := ⟨.blank size, ∅⟩

/-- Enters an instruction with its position. -/
def enter (x : Index) (entry : Instruction × Nat) : Index where
  byOpcode := x.byOpcode.put entry.1.opcode entry.2
  byName := (x.byName.insert entry.1.name entry.2).insert entry.1.mnemonic entry.2

end Index

namespace Format

/-- The index of a format. -/
def index (f : Format) : Index := f.instructions.zipIdx.foldl .enter (.blank f.opcodeCount)

/-- The instruction that the index has under a name or a mnemonic. -/
def indexedInstruction? (f : Format) (name : String) : Option Instruction :=
  f.index.byName[name]?.bind (f.instructions[·]?)

/-- The instruction that the index has under an opcode. -/
def indexedByOpcode? (f : Format) (opcode : UInt8) : Option Instruction :=
  (f.index.byOpcode.get? opcode).bind (f.instructions[·]?)

end Format

end Bytecode
