import Bytecode.Format
import Bytecode.Wire.Codec

/-!
# Writing cartridges

A writer turns calls into a cartridge. Binding a tape writes the constants and zeroes the counters
and chunk lengths; `emit` appends an instruction; `nextNumber` hands out the next number of a
counter and counts it in the header; `finish` fills in the chunk lengths and gives the tape back,
its head where the cartridge starts. The body of every chunk is the whole of the instructions.

A call that is refused yields an error and nothing else: the writer that made it is unchanged.
-/

namespace Bytecode

/-! ### Errors -/

/-- Why a writer refuses a call. -/
inductive WriteError where
  /-- The tape was not made to be extended. -/
  | noBuffer
  | notBound
  /-- No instruction has this name or mnemonic. -/
  | unknownInstruction (name : String)
  /-- No instruction has this opcode. -/
  | unknownOpcode (opcode : UInt8)
  /-- No counter has this name. -/
  | unknownCounter (name : String)
  /-- An instruction was given too few or too many arguments. -/
  | arityMismatch (instruction : String) (expected actual : Nat)
  /-- An argument does not convert to its declared kind. -/
  | invalidArgument (instruction name : String) (expected : Kind)
  /-- A byte string or text is too long for its length word. -/
  | lengthOverflow (name : String) (length : Nat)
  /-- The instructions are too long for the length slot of a chunk. -/
  | chunkOverflow (chunk : String) (length : Nat)
  /-- A counter holds the largest number of its kind. -/
  | counterOverflow (name : String)
  /-- A slot could not be read or replaced. -/
  | fault (reason : Tape.Fault)
deriving DecidableEq, Repr

/-- The wording of a refusal. -/
def WriteError.message : WriteError → String
  | noBuffer => "cartridge encoding requires a growable buffer"
  | notBound => "no cartridge buffer is bound"
  | unknownInstruction name => s!"unknown instruction '{name}'"
  | unknownOpcode opcode => s!"unknown opcode {Text.hexLiteral opcode.toNat}"
  | unknownCounter name => s!"unknown counter '{name}'"
  | arityMismatch instruction expected actual =>
    s!"arity mismatch for {instruction}: expected {expected}, got {actual}"
  | invalidArgument instruction name expected =>
    s!"argument '{name}' of {instruction}: expected type of {expected.name}"
  | lengthOverflow name length =>
    s!"argument '{name}' is {length} bytes, longer than a u32 prefix allows"
  | chunkOverflow chunk length =>
    s!"chunk '{chunk}' is {length} bytes, too long for its length field"
  | counterOverflow name => s!"counter '{name}' overflowed"
  | fault reason => s!"encode error: {reason.message}"

/-- A tape operation whose fault a writer reports as its own. -/
def WriteError.ofFault {α : Type} (result : Except Tape.Fault α) : Except WriteError α :=
  result.mapError .fault

/-! ### Drafts -/

/-- An unfinished cartridge: its tape, and where on the tape it starts. -/
structure Draft where
  tape : Tape
  /-- The offset at which the cartridge starts. -/
  start : Nat
deriving DecidableEq, Repr, Inhabited

/-- The arguments of an instruction, converted to their declared kinds. -/
def Instruction.convert (i : Instruction) : List Field → List Value → Except WriteError (List Value)
  | field :: fields, arg :: args =>
    match field.kind.coerce arg with
    | none => .error (.invalidArgument i.mnemonic field.name field.kind)
    | some value =>
      if value.payload.length < lengthLimit then (value :: ·) <$> i.convert fields args
      else .error (.lengthOverflow field.name value.payload.length)
  | _, _ => .ok []

/-- The bytes of an instruction with converted arguments. -/
def Instruction.wire (i : Instruction) (args : List Value) : List UInt8 :=
  i.opcode :: args.flatMap Value.wire

namespace Draft

/-- Starts a cartridge at the head of a tape. -/
def onTape (f : Format) (t : Tape) : Except WriteError Draft :=
  if !t.growable then .error .noBuffer
  else
    match f.header.find? fun c => lengthLimit ≤ c.value.payload.length with
    | some c => .error (.lengthOverflow c.name c.value.payload.length)
    | none =>
      -- Counters start at zero, and chunk lengths are not known yet.
      let zeros := List.replicate (slotsWidth f.counters + slotsWidth f.chunks) 0
      .ok ⟨(t.write f.headerBytes).write zeros, t.pos⟩

/-- Appends an instruction. Its arguments are all checked before anything is written. -/
def append (i : Instruction) (args : List Value) (d : Draft) : Except WriteError Draft := do
  if args.length ≠ i.args.length then
    throw (.arityMismatch i.mnemonic i.args.length args.length)
  let values ← i.convert i.args args
  return { d with tape := d.tape.write (i.wire values) }

/-- The next number of a counter, which is also counted. -/
def nextNumber (f : Format) (index : Nat) (counter : Slot) (d : Draft) :
    Except WriteError (Nat × Draft) := do
  let offset := d.start + f.counterOffset index
  let current ← WriteError.ofFault (d.tape.peekNat offset counter.width)
  if counter.kind.max < current + 1 then
    throw (.counterOverflow counter.name)
  let bytes := LittleEndian.toBytes counter.width (current + 1)
  let tape ← WriteError.ofFault (d.tape.patch offset bytes)
  return (current, { d with tape := tape })

/-- Fills in the chunk lengths and moves the head to the start of the cartridge. -/
def finish (f : Format) (d : Draft) : Except WriteError Tape := do
  -- Every chunk has all the instructions as its body.
  let length := d.tape.pos - (d.start + f.bodyOffset)
  match f.chunks.find? fun chunk => chunk.kind.max < length with
  | some chunk => throw (.chunkOverflow chunk.name length)
  | none =>
    let lengths := f.chunks.flatMap fun chunk => LittleEndian.toBytes chunk.width length
    let tape ← WriteError.ofFault (d.tape.patch (d.start + f.chunksOffset) lengths)
    WriteError.ofFault (tape.seek d.start)

end Draft

/-! ### Writers -/

/-- A writer of cartridges of one format. -/
structure Writer where
  format : Format
  /-- The cartridge being written, if a tape is bound. -/
  draft : Option Draft
deriving DecidableEq, Repr, Inhabited

namespace Writer

/-- A writer without a tape. -/
def new (f : Format) : Writer := ⟨f, none⟩

/-- Whether a tape is bound. -/
def isBound (w : Writer) : Bool := w.draft.isSome

/-- The offset of the head of the bound tape. -/
def pos? (w : Writer) : Option Nat := w.draft.map (·.tape.pos)

/-- Binds a tape and starts a cartridge on it; the tape bound before, if any, is given back as it
is. -/
def bind (w : Writer) (t : Tape) : Except WriteError (Option Tape × Writer) := do
  let draft ← Draft.onTape w.format t
  return (w.draft.map (·.tape), { w with draft := some draft })

/-- The draft of a bound writer. -/
def bound (w : Writer) : Except WriteError Draft :=
  match w.draft with
  | some d => .ok d
  | none => .error .notBound

/-- Appends the instruction with a given name or mnemonic. -/
def emit (w : Writer) (name : String) (args : List Value) : Except WriteError Writer := do
  let d ← w.bound
  match w.format.instruction? name with
  | none => throw (.unknownInstruction name)
  | some i => return { w with draft := some (← d.append i args) }

/-- Appends the instruction with a given opcode. -/
def emitByOpcode (w : Writer) (opcode : UInt8) (args : List Value) : Except WriteError Writer := do
  let d ← w.bound
  match w.format.byOpcode? opcode with
  | none => throw (.unknownOpcode opcode)
  | some i => return { w with draft := some (← d.append i args) }

/-- The next number of the counter with a given name, which is also counted. -/
def nextNumber (w : Writer) (name : String) : Except WriteError (Nat × Writer) := do
  let d ← w.bound
  match w.format.counter? name with
  | none => throw (.unknownCounter name)
  | some (counter, index) =>
    let (number, d) ← d.nextNumber w.format index counter
    return (number, { w with draft := some d })

/-- Finishes the cartridge and gives the tape back; the writer is then without a tape. -/
def finish (w : Writer) : Except WriteError (Tape × Writer) := do
  let d ← w.bound
  return (← d.finish w.format, { w with draft := none })

end Writer

end Bytecode
