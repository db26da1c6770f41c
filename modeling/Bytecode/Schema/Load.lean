import Bytecode.Format
import Bytecode.Name
import Bytecode.Schema.Opcodes

/-!
# From schemas to formats

`Schema.check` looks at names, slot kinds and opcodes, in the order in which faults are reported;
`Schema.load` builds the format that a schema describes, and `Schema.validate` only says whether
there is one.
-/

namespace Bytecode

/-! ### Checks -/

/-- Refuses a name that is not an identifier. -/
def checkName (name : String) : Except SchemaError Unit :=
  if isIdentifier name then .ok () else .error (.invalidIdentifier name)

/-- The slots that a row of fields declares, given the names declared before. -/
def resolveSlots : (seen : List String) → List Field → Except SchemaError (List Slot)
  | _, [] => .ok []
  | seen, field :: fields => do
    checkName field.name
    match SlotKind.ofKind? field.kind with
    | none => .error (.invalidFieldType field.name field.kind)
    | some kind =>
      if field.name ∈ seen then .error (.duplicateName field.name)
      else (⟨field.name, kind⟩ :: ·) <$> resolveSlots (field.name :: seen) fields

/-- Refuses arguments that are badly named or share a name, given the names seen before. -/
def checkArgs (instruction : String) : (seen : List String) → List Field → Except SchemaError Unit
  | _, [] => .ok ()
  | seen, field :: fields => do
    checkName field.name
    if field.name ∈ seen then .error (.duplicateArg instruction field.name)
    else checkArgs instruction (field.name :: seen) fields

/-- Refuses instructions that are badly named or share a mnemonic, given the mnemonics seen before,
and those whose arguments are refused. -/
def checkInstructions (commonArgs : List Field) :
    (seen : List String) → List InstructionDecl → Except SchemaError Unit
  | _, [] => .ok ()
  | seen, i :: is => do
    checkName i.name
    if mnemonic i.name ∈ seen then .error (.duplicateName i.name)
    else
      checkArgs i.name [] (i.args ++ commonArgs)
      checkInstructions commonArgs (mnemonic i.name :: seen) is

/-- What the check of a schema finds out. -/
structure Checked where
  counters : List Slot
  chunks : List Slot
  /-- The opcodes of the instructions, in the order of declaration. -/
  opcodes : List UInt8

namespace Schema

/-- Checks everything but the values of the header constants. -/
def check (s : Schema) : Except SchemaError Checked := do
  s.header.forM fun c => checkName c.name
  let counters ← resolveSlots [] s.counters
  let chunks ← resolveSlots (s.counters.map (·.name)) s.chunks
  checkInstructions s.commonArgs [] s.instructions
  return ⟨counters, chunks, ← assignOpcodes s.instructions⟩

/-- Says whether the schema describes a format, and if not, why. -/
def validate (s : Schema) : Except SchemaError Unit := do
  let _ ← s.check
  match s.header.find? fun c => (c.literal.toValue? c.kind).isNone with
  | some c => .error (.invalidHeaderValue c.name c.kind)
  | none => .ok ()

/-! ### Building -/

/-- The constant that a declaration stands for. -/
def resolveConstant (c : ConstantDecl) : Except SchemaError Constant :=
  match c.literal.toValue? c.kind with
  | some value => .ok ⟨c.name, value⟩
  | none => .error (.invalidHeaderValue c.name c.kind)

/-- The instruction that a declaration with its opcode stands for. -/
def resolveInstruction (commonArgs : List Field) (i : InstructionDecl) (opcode : UInt8) :
    Instruction :=
  { name := i.name
    mnemonic := mnemonic i.name
    opcode := opcode
    args := i.args ++ commonArgs
    doc := i.doc }

/-- The format that the schema describes. -/
def load (s : Schema) : Except SchemaError Format := do
  let checked ← s.check
  let header ← s.header.mapM resolveConstant
  return {
    header := header
    counters := checked.counters
    chunks := checked.chunks
    instructions := s.instructions.zipWith (resolveInstruction s.commonArgs) checked.opcodes }

end Schema

end Bytecode
