import Bytecode.Cartridge.Body

/-!
# Reading cartridges

A reader goes through the instructions of a cartridge one by one. Binding a tape reads the header;
after that `step` reads an instruction and dispatches it, and `next` reads it and returns it.

A handler is a label: whoever installs one is told, by an `Event`, which label was called with what.
Labels are of one type for the header and of another for instructions, and may carry whatever their
owner needs to act on the event. An instruction whose opcode has no handler is read and skipped.

A step that fails yields an error and nothing else: the reader that made it is unchanged.
-/

namespace Bytecode

/-- Where a reader reads from. -/
inductive Source where
  | absent
  /-- The bound tape has no valid header; its head is where it was when the tape was bound. -/
  | rejected (tape : Tape)
  /-- The bound tape has a valid header; its head is at an instruction or at the end. -/
  | opened (header : Header) (tape : Tape)
deriving DecidableEq, Repr, Inhabited

namespace Source

/-- The bound tape. -/
def tape? : Source → Option Tape
  | absent => none
  | rejected tape => some tape
  | opened _ tape => some tape

/-- The header of the bound tape. -/
def header? : Source → Option Header
  | opened header _ => some header
  | _ => none

/-- Whether no instruction is left to read. -/
def isFinished : Source → Bool
  | opened _ tape => tape.remaining == 0
  | _ => true

end Source

/-- A call of a handler. -/
inductive Event (η ι : Type) where
  /-- The header handler was called. -/
  | header (label : η) (header : Header)
  /-- The handler of an instruction was called with its arguments. -/
  | instruction (label : ι) (args : List Value)
deriving Repr

/-- A reader of cartridges of one format, with header labels `η` and instruction labels `ι`. -/
structure Reader (η ι : Type) where
  format : Format
  headerHandler : Option η
  /-- The instruction handlers by opcode, at most one for each. -/
  handlers : List (UInt8 × ι)
  /-- Where instructions are read from. -/
  source : Source
deriving Repr, Inhabited

namespace Reader

variable {η ι : Type}

/-- A reader without handlers and without a tape. -/
def new (f : Format) : Reader η ι := ⟨f, none, [], .absent⟩

/-! ### Views -/

/-- The offset of the head of the bound tape. -/
def pos? (r : Reader η ι) : Option Nat := r.source.tape?.map Tape.pos

/-- The header of the bound tape. -/
def header? (r : Reader η ι) : Option Header := r.source.header?

/-- Whether no instruction is left to read. -/
def isFinished (r : Reader η ι) : Bool := r.source.isFinished

/-- The handler of an opcode. -/
def handler? (r : Reader η ι) (opcode : UInt8) : Option ι := r.handlers.lookup opcode

/-- A reader as text, with the names of its parts. -/
def inspect (r : Reader η ι) : String :=
  let option (text : Option String) :=
    match text with
    | some s => s!"Some({s})"
    | none => "None"
  "Decoder \x7b opcode_count: " ++ toString r.format.opcodeCount ++
    ", handlers: " ++ toString r.handlers.length ++
    ", position: " ++ option (r.pos?.map toString) ++
    ", header: " ++ option (r.header?.map Header.inspect) ++ ", .. \x7d"

/-! ### Handlers -/

/-- Removes the handler of an opcode. -/
def removeHandler (r : Reader η ι) (opcode : UInt8) : Reader η ι :=
  { r with handlers := r.handlers.filter (·.1 != opcode) }

/-- Installs the handler of an opcode in place of any other. -/
def setHandler (r : Reader η ι) (opcode : UInt8) (label : ι) : Reader η ι :=
  { r with handlers := (opcode, label) :: (r.removeHandler opcode).handlers }

/-- Installs the header handler. -/
def setHeaderHandler (r : Reader η ι) (label : η) : Reader η ι :=
  { r with headerHandler := some label }

/-- Installs the handler of the instruction with a given name or mnemonic. -/
def setHandlerByName (r : Reader η ι) (name : String) (label : ι) :
    Except ReadError (Reader η ι) :=
  match r.format.instruction? name with
  | some i => .ok (r.setHandler i.opcode label)
  | none => .error (.unknownInstruction name)

/-- Installs the handler of the instruction with a given opcode. -/
def setHandlerByOpcode (r : Reader η ι) (opcode : UInt8) (label : ι) :
    Except ReadError (Reader η ι) :=
  match r.format.byOpcode? opcode with
  | some _ => .ok (r.setHandler opcode label)
  | none => .error (.unknownOpcode opcode)

/-! ### Binding a tape -/

/-- Binds a tape, in place of any other, and reads its header; the header handler is called if the
header is valid. The tape stays bound either way. -/
def bind (r : Reader η ι) (t : Tape) :
    Except ReadError (Option (Event η ι)) × Reader η ι :=
  match r.format.readHeader t with
  | .error e => (.error e, { r with source := .rejected t })
  | .ok (header, t') =>
    (.ok (r.headerHandler.map fun label => .header label header),
      { r with source := .opened header t' })

/-- Unbinds the tape. -/
def unbind (r : Reader η ι) : Option Tape × Reader η ι :=
  (r.source.tape?, { r with source := .absent })

/-! ### Reading instructions -/

/-- Reads one instruction and returns it. -/
def next (r : Reader η ι) : Except ReadError (Decoded × Reader η ι) :=
  match r.source with
  | .opened header tape => do
    let (decoded, tape) ← r.format.readInstruction tape
    return (decoded, { r with source := .opened header tape })
  | _ => .error .notBound

/-- The call that an instruction gives rise to. -/
def dispatch (r : Reader η ι) (d : Decoded) : Option (Event η ι) :=
  (r.handler? d.instruction.opcode).map fun label => .instruction label d.args

/-- Reads one instruction and dispatches it. -/
def step (r : Reader η ι) : Except ReadError (Option (Event η ι) × Reader η ι) := do
  let (decoded, r) ← r.next
  return (r.dispatch decoded, r)

/-- What comes of stepping up to the end of the tape or the first error. -/
structure Run (η ι : Type) where
  /-- The calls of handlers, in order. -/
  events : List (Event η ι)
  /-- The number of instructions read. -/
  steps : Nat
  reader : Reader η ι
  /-- The error that ended the run, unless it ended with the tape. -/
  failure : Option ReadError

/-- Steps up to the end of the tape or the first error. -/
def run (r : Reader η ι) : Run η ι :=
  match r.source with
  | .opened header tape =>
    let body := r.format.readAll tape
    { events := body.instructions.filterMap r.dispatch
      steps := body.instructions.length
      reader := { r with source := .opened header body.rest }
      failure := body.failure }
  | _ => ⟨[], 0, r, none⟩

end Reader

end Bytecode
