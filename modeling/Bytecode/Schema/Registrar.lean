import Bytecode.Schema.Opcodes

/-!
# Assigning opcodes in place

A registrar assigns the opcodes that `assignOpcodes` assigns, but in place: a table says for every
opcode which instruction owns it, a list says for every instruction which opcode it has been given,
and both are filled in while going through the instructions twice. The first time the declared
opcodes are entered, the second time the others, for which a mark moves up over the opcodes that are
taken.

Every place of the table and of the lists is reached by its number, and a number that is no place is
an error of its own.
-/

namespace Bytecode

/-- The books of a registrar. -/
structure Registrar where
  /-- The position of the owner of each opcode. -/
  owners : List (Option Nat)
  /-- The opcode of each instruction. -/
  given : List (Option UInt8)
  /-- All opcodes below the mark are taken. -/
  mark : Nat
deriving DecidableEq, Repr

namespace Registrar

/-- Why a registrar stops. -/
inductive Failure where
  /-- The instructions are refused. -/
  | refused (reason : SchemaError)
  /-- There is no place with this number. -/
  | outOfRange (place : Nat)
deriving DecidableEq, Repr

/-- What stands at a place. -/
def lookUp {α : Type} (entries : List α) (place : Nat) : Except Failure α :=
  match entries[place]? with
  | some entry => .ok entry
  | none => .error (.outOfRange place)

/-- Replaces what stands at a place. -/
def enter {α : Type} (entries : List α) (place : Nat) (entry : α) : Except Failure (List α) :=
  if place < entries.length then .ok (entries.set place entry) else .error (.outOfRange place)

/-- The books before anything is entered. -/
def blank (count : Nat) : Registrar :=
  ⟨List.replicate opcodeLimit none, List.replicate count none, 0⟩

/-- Gives an opcode to the instruction at a position. -/
def give (r : Registrar) (opcode position : Nat) : Except Failure Registrar := do
  let owners ← enter r.owners opcode (some position)
  let given ← enter r.given position (some (UInt8.ofNat opcode))
  return { r with owners := owners, given := given }

/-- Enters the declared opcode of the instruction at a position, if it declares one. -/
def enterDeclared (is : List InstructionDecl) (r : Registrar) (entry : InstructionDecl × Nat) :
    Except Failure Registrar :=
  match entry.1.code with
  | none => .ok r
  | some code =>
    if opcodeLimit ≤ code.toNat then
      .error (.refused (.opcodeOutOfRange entry.1.name code.toNat))
    else do
      match ← lookUp r.owners code.toNat with
      | none => r.give code.toNat entry.2
      | some position =>
        let owner ← lookUp is position
        .error (.refused (.duplicateOpcode code.toNat owner.name entry.1.name))

/-- The first opcode from the mark on that nobody owns, or else the end of the table. -/
def firstFree (owners : List (Option Nat)) (mark : Nat) : Nat :=
  if h : mark < owners.length then
    if owners[mark].isSome then firstFree owners (mark + 1) else mark
  else
    mark
termination_by owners.length - mark

/-- Gives the instruction at a position the first free opcode, unless it has one. -/
def enterFree (r : Registrar) (entry : InstructionDecl × Nat) : Except Failure Registrar := do
  match ← lookUp r.given entry.2 with
  | some _ => return r
  | none =>
    let opcode := firstFree r.owners r.mark
    if opcodeLimit ≤ opcode then throw (.refused (.opcodeOutOfRange entry.1.name opcode))
    else ({ r with mark := opcode } : Registrar).give opcode entry.2

/-- The opcodes of a list of instructions, in the order of the list. -/
def assign (is : List InstructionDecl) : Except Failure (List UInt8) := do
  let declared ← is.zipIdx.foldlM (enterDeclared is) (blank is.length)
  let complete ← is.zipIdx.foldlM enterFree declared
  return complete.given.filterMap id

end Registrar

end Bytecode
