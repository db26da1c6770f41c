import Bytecode.Writer

/-!
# Writing in place

A scribe writes what a `Writer` writes, but in place: a call changes the bound tape and the notes
beside it step by step, and one that fails leaves them as they are at that moment. Nothing is put
back. The notes say what later calls go by: where the slots of the counters and of the chunk lengths
lie, where the cartridge and its instructions start, and the arguments of the instruction at hand.
-/

namespace Bytecode

/-- The refusal of a value that an instruction, or the header, does not take. -/
def WriteError.ofValueError (instruction name : String) : ValueError → WriteError
  | .mismatch expected => .invalidArgument instruction name expected
  | .tooLong length => .lengthOverflow name length

/-- A slot that waits for the length of a chunk. -/
structure Placeholder where
  /-- The index of the chunk. -/
  chunk : Nat
  /-- Where the slot lies on the tape. -/
  offset : Nat
deriving DecidableEq, Repr, Inhabited

/-- A writer that works in place, with its notes. -/
structure Scribe where
  format : Format
  /-- The bound tape. -/
  target : Option Tape
  /-- The offset at which the cartridge starts. -/
  start : Nat
  /-- The offset at which its instructions start. -/
  bodyStart : Nat
  /-- Where the counters lie on the tape. -/
  counterOffsets : List Nat
  placeholders : List Placeholder
  /-- The converted arguments of the instruction at hand. -/
  scratch : List Value
deriving DecidableEq, Repr, Inhabited

namespace Scribe

/-- A scribe without a tape. -/
def new (f : Format) : Scribe := ⟨f, none, 0, 0, [], [], []⟩

/-! ### Steps -/

/-- Why a scribe stops. -/
inductive Failure where
  /-- The call is refused. -/
  | refused (reason : WriteError)
  /-- A note was looked up beyond the end of its list. -/
  | outOfRange (index : Nat)
deriving DecidableEq, Repr

/-- The work of a scribe, which leaves the scribe where it got to when it fails. -/
abbrev Work := EStateM Failure Scribe

/-- Refuses the call. -/
def refuse {α : Type} (reason : WriteError) : Work α := throw (.refused reason)

/-- Refuses the call unless a condition holds. -/
def require (p : Prop) [Decidable p] (reason : WriteError) : Work Unit :=
  if p then pure () else refuse reason

/-- The result of an operation, by whose refusal the call is refused. -/
def grant {α : Type} (result : Except WriteError α) : Work α :=
  match result with
  | .ok a => pure a
  | .error reason => refuse reason

/-- The entry at an index of a list. -/
def lookUp {α : Type} (entries : List α) (index : Nat) : Work α :=
  match entries[index]? with
  | some entry => pure entry
  | none => throw (.outOfRange index)

/-- The bound tape. -/
def bound : Work Tape := do
  match (← get).target with
  | some t => return t
  | none => refuse .notBound

/-- Replaces the number in a slot on a tape. -/
def fillIn (kind : SlotKind) (offset number : Nat) (t : Tape) : Except Tape.Fault Tape :=
  if number ≤ kind.max then t.patch offset (LittleEndian.toBytes kind.width number)
  else .error .outOfBounds

/-! ### Binding -/

/-- Writes a constant. -/
def writeConstant (t : Tape) (c : Constant) : Work Tape :=
  grant ((c.value.kind.encode c.value t).mapError (.ofValueError "header" c.name))

/-- Writes the slot of a counter and notes where it lies. -/
def writeCounter (t : Tape) (c : Slot) : Work Tape := do
  modify fun s => { s with counterOffsets := s.counterOffsets ++ [t.pos] }
  return t.write (LittleEndian.toBytes c.width 0)

/-- Writes the slot of a chunk, which has an index, and notes where it lies. -/
def writeChunk (t : Tape) (chunk : Slot × Nat) : Work Tape := do
  modify fun s => { s with placeholders := s.placeholders ++ [⟨chunk.2, t.pos⟩] }
  return t.write (LittleEndian.toBytes chunk.1.width 0)

/-- Binds a tape and starts a cartridge on it; the tape bound before, if any, is given back as it
is. -/
def bind (t : Tape) : Work (Option Tape) := do
  require (t.growable = true) .noBuffer
  let f := (← get).format
  let behindHeader ← f.header.foldlM writeConstant t
  modify fun s => { s with counterOffsets := [] }
  let behindCounters ← f.counters.foldlM writeCounter behindHeader
  modify fun s => { s with placeholders := [] }
  let behindChunks ← f.chunks.zipIdx.foldlM writeChunk behindCounters
  let previous := (← get).target
  modify fun s =>
    { s with start := t.pos, bodyStart := behindChunks.pos, target := some behindChunks }
  return previous

/-! ### Appending -/

/-- Converts an argument to the kind of its field, for the instruction at hand. -/
def convertArgument (i : Instruction) (entry : Field × Value) : Work Unit :=
  match entry.1.kind.coerce entry.2 with
  | none => refuse (.invalidArgument i.mnemonic entry.1.name entry.1.kind)
  | some value => do
    require (value.payload.length < lengthLimit)
      (.lengthOverflow entry.1.name value.payload.length)
    modify fun s => { s with scratch := s.scratch ++ [value] }

/-- Writes an argument of the instruction at hand, converting it once more. -/
def writeArgument (i : Instruction) (entry : Field × Value) : Work Unit := do
  let t ← bound
  let t' ← grant
    ((entry.1.kind.encode entry.2 t).mapError (.ofValueError i.mnemonic entry.1.name))
  modify fun s => { s with target := some t' }

/-- Appends an instruction. -/
def append (i : Instruction) (args : List Value) : Work Unit := do
  let t ← bound
  require (args.length = i.args.length) (.arityMismatch i.mnemonic i.args.length args.length)
  modify fun s => { s with scratch := [] }
  forM (i.args.zip args) (convertArgument i)
  modify fun s => { s with target := some (t.write [i.opcode]) }
  let values := (← get).scratch
  forM (i.args.zip values) (writeArgument i)

/-- Appends the instruction that is looked up in the format, if there is one. -/
def emitFound (find : Format → Option Instruction) (unknown : WriteError) (args : List Value) :
    Work Unit := do
  let _ ← bound
  match find (← get).format with
  | none => refuse unknown
  | some i => append i args

/-- Appends the instruction with a given name or mnemonic. -/
def emit (name : String) : List Value → Work Unit :=
  emitFound (·.instruction? name) (.unknownInstruction name)

/-- Appends the instruction with a given opcode. -/
def emitByOpcode (opcode : UInt8) : List Value → Work Unit :=
  emitFound (·.byOpcode? opcode) (.unknownOpcode opcode)

/-! ### Counting -/

/-- The next number of the counter with a given name, which is also counted. -/
def nextNumber (name : String) : Work Nat := do
  let t ← bound
  match (← get).format.counter? name with
  | none => refuse (.unknownCounter name)
  | some (counter, index) =>
    let offset ← lookUp (← get).counterOffsets index
    let current ← grant (WriteError.ofFault (t.peekNat offset counter.width))
    require (current + 1 ≤ counter.kind.max) (.counterOverflow name)
    let t' ← grant (WriteError.ofFault (fillIn counter.kind offset (current + 1) t))
    modify fun s => { s with target := some t' }
    return current

/-! ### Finishing -/

/-- A number that is to be filled into a slot. -/
structure Entry where
  offset : Nat
  kind : SlotKind
  number : Nat

/-- What is to be filled in at a placeholder, when the instructions end at a given offset. -/
def chunkEntry (bodyEnd : Nat) (p : Placeholder) : Work Entry := do
  let s ← get
  let chunk ← lookUp s.format.chunks p.chunk
  let length := bodyEnd - s.bodyStart
  require (length ≤ chunk.kind.max) (.chunkOverflow chunk.name length)
  return ⟨p.offset, chunk.kind, length⟩

/-- Fills in a number. -/
def fillInEntry (t : Tape) (entry : Entry) : Work Tape :=
  grant (WriteError.ofFault (fillIn entry.kind entry.offset entry.number t))

/-- Finishes the cartridge and gives the tape back, its head where the cartridge starts. The scribe
is without a tape as soon as all lengths are known to fit. -/
def finish : Work Tape := do
  let t ← bound
  let entries ← (← get).placeholders.mapM (chunkEntry t.pos)
  modify fun s => { s with target := none }
  let filled ← entries.foldlM fillInEntry t
  let rewound ← grant (WriteError.ofFault (filled.seek (← get).start))
  modify fun s => { s with placeholders := [], counterOffsets := [] }
  return rewound

end Scribe

end Bytecode
