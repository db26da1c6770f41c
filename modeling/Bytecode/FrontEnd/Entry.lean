import Bytecode.Format
import Bytecode.FrontEnd.Casing

/-!
# Entries of a front end

An entry is an instruction with all its names as generated code spells them. Two entries must not
share a variant, and two parameters of an entry must not share a name; `clash?` finds out.
-/

namespace Bytecode.FrontEnd

/-- An instruction as it appears in generated code. -/
structure Entry where
  /-- The declared name of the instruction. -/
  name : String
  /-- The enum variant. -/
  variant : String
  opcode : UInt8
  mnemonic : String
  /-- The method that emits the instruction. -/
  method : String
  /-- The parameters of the method, with the kinds of the arguments. -/
  parameters : List (String × Kind)
  /-- What the instruction does, for readers. -/
  doc : Option String
deriving DecidableEq, Repr, Inhabited

/-- The entry of an instruction. -/
def Entry.ofInstruction (i : Instruction) : Entry :=
  { name := i.name
    variant := variantName i.name
    opcode := i.opcode
    mnemonic := i.mnemonic
    method := methodName i.name
    parameters := i.args.map fun arg => (parameterName arg.name, arg.kind)
    doc := i.doc }

/-! ### Clashes -/

/-- Two things of one name in generated code. -/
inductive Clash where
  /-- Two instructions have one variant. -/
  | variant (first second name : String)
  /-- Two arguments of an instruction have one parameter name. -/
  | parameter (instruction name : String)
deriving DecidableEq, Repr

/-- The wording of a clash. -/
def Clash.message : Clash → String
  | variant first second name =>
    s!"instructions '{first}' and '{second}' both render as `{name}`"
  | parameter instruction name => s!"arguments of instruction '{instruction}' collide as `{name}`"

/-- The first two neighbours in a list that agree. -/
def neighbours? {α : Type} (agree : α → α → Bool) : List α → Option (α × α)
  | a :: b :: rest => if agree a b then some (a, b) else neighbours? agree (b :: rest)
  | _ => none

/-- The order of variants, and of names among equal variants. -/
def variantLE (a b : Entry) : Bool :=
  a.variant < b.variant || (a.variant == b.variant && a.name ≤ b.name)

/-- The first two entries, in the order of variants, that share one. -/
def variantClash? (entries : List Entry) : Option Clash :=
  (neighbours? (fun a b => a.variant == b.variant) (entries.mergeSort variantLE)).map
    fun (a, b) => .variant a.name b.name a.variant

/-- The least parameter name that an entry has twice. -/
def Entry.parameterClash? (e : Entry) : Option Clash :=
  (neighbours? (· == ·) ((e.parameters.map (·.1)).mergeSort fun a b => a ≤ b)).map
    fun (parameter, _) => .parameter e.name parameter

/-- The first clash among entries: of variants, or else of the parameters of one entry. -/
def clash? (entries : List Entry) : Option Clash :=
  match variantClash? entries with
  | some clash => some clash
  | none => entries.findSome? Entry.parameterClash?

end Bytecode.FrontEnd
