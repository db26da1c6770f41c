import Bytecode.Reader
import Bytecode.Table

/-!
# Reading in place

A lector reads what a `Reader` reads, but in place. The head of its tape moves while it reads, and
the arguments of an instruction are collected in a list that is kept from one instruction to the
next. Where something cannot be read, the tape and the list are left as they are at that moment;
after that only the head is put back. The tape and its header are kept apart, and so are the
instructions and their handlers, each in a table by opcode.

A handler is what a call of it does to the world, which is whatever the handlers have access to. It
is the lector that calls them.
-/

namespace Bytecode

/-- What calling the handler of an instruction with arguments does to the world. -/
abbrev Handler (σ : Type) := List Value → σ → σ

/-- What calling the header handler with a header does to the world. -/
abbrev HeaderHandler (σ : Type) := Header → σ → σ

/-! ### Scanning headers -/

/-- Reading a cartridge, where a failure leaves the tape where it got to. -/
abbrev Scan := EStateM ReadError Tape

/-- Sequential reading as part of reading a cartridge, its faults reported in the given way. -/
def Tape.Reading.scan {α : Type} (read : Tape.Reading α) (report : Tape.Fault → ReadError) :
    Scan α := EStateM.adaptExcept report read

/-- Scans a constant, which must be the one of the format. -/
def Constant.scan (c : Constant) : Scan (String × Value) := do
  let value ← c.value.kind.decode.scan fun _ => .corruptHeader c.name
  if value = c.value then return (c.name, value) else throw (.corruptHeader c.name)

/-- Scans the number in a slot. -/
def Slot.scan (s : Slot) : Scan (String × Nat) := do
  let number ← (Tape.readNat s.width).scan fun _ => .corruptHeader s.name
  return (s.name, number)

/-- Scans the header of a cartridge that starts at a given offset. -/
def Format.scanHeader (f : Format) (start : Nat) : Scan Header := do
  let fields ← f.header.mapM Constant.scan
  let counters ← f.counters.mapM Slot.scan
  let chunks ← f.chunks.mapM Slot.scan
  return ⟨start, (← get).pos, fields, counters, chunks⟩

/-- Moves the head back to an offset; if there is none, the head stays. -/
def Tape.rewind (offset : Nat) (t : Tape) : Tape :=
  match t.seek offset with
  | .ok t' => t'
  | .error _ => t

/-! ### Lectors -/

/-- A reader that works in place, with handlers that act on a world of type `σ`. -/
structure Lector (σ : Type) where
  format : Format
  /-- The instructions by opcode. -/
  instructions : Table Instruction
  handlers : Table (Handler σ)
  headerHandler : Option (HeaderHandler σ)
  /-- The bound tape. -/
  target : Option Tape
  /-- The header of the bound tape, if it is valid. -/
  header : Option Header
  /-- The arguments of the instruction at hand, as far as they have been read. -/
  args : List Value
  world : σ

namespace Lector

variable {σ α : Type}

/-- A lector without handlers and without a tape. -/
def new (f : Format) (world : σ) : Lector σ where
  format := f
  instructions := (Table.blank f.opcodeCount).fill (·.opcode) id f.instructions
  handlers := .blank f.opcodeCount
  headerHandler := none
  target := none
  header := none
  args := []
  world := world

/-- Whether no instruction is left to read. -/
def isFinished (s : Lector σ) : Bool :=
  match s.target, s.header with
  | some t, some _ => t.remaining == 0
  | _, _ => true

/-- The number of bytes ahead of the head. -/
def remaining (s : Lector σ) : Nat := (s.target.map Tape.remaining).getD 0

/-- Installs the handler of an opcode in place of any other. -/
def install (s : Lector σ) (opcode : UInt8) (handler : Handler σ) : Lector σ :=
  { s with handlers := s.handlers.put opcode handler }

/-- The work of a lector, which leaves the lector where it got to when it fails. -/
abbrev Work (σ : Type) := EStateM ReadError (Lector σ)

/-! ### Handlers -/

/-- Installs the header handler. -/
def setHeaderHandler (handler : HeaderHandler σ) : Work σ Unit :=
  modify fun s => { s with headerHandler := some handler }

/-- Installs the handler of the instruction with a given name or mnemonic. -/
def setHandlerByName (name : String) (handler : Handler σ) : Work σ Unit := do
  match (← get).format.instruction? name with
  | none => throw (.unknownInstruction name)
  | some i => modify (·.install i.opcode handler)

/-- The instruction with a given opcode. -/
def assigned (opcode : UInt8) : Work σ Instruction := fun s =>
  match s.instructions.get? opcode with
  | some i => .ok i s
  | none => .error (.unknownOpcode opcode) s

/-- Installs the handler of the instruction with a given opcode. -/
def setHandlerByOpcode (opcode : UInt8) (handler : Handler σ) : Work σ Unit := do
  let _ ← assigned opcode
  modify (·.install opcode handler)

/-- Removes the handler of an opcode. -/
def removeHandler (opcode : UInt8) : Work σ Unit :=
  modify fun s => { s with handlers := s.handlers.clear opcode }

/-! ### Binding a tape -/

/-- Calls the header handler, if there is one. -/
def announce (header : Header) : Work σ Unit :=
  modify fun s =>
    match s.headerHandler with
    | some handler => { s with world := handler header s.world }
    | none => s

/-- Binds a tape, in place of any other, and reads its header; the header handler is called if the
header is valid. The tape stays bound either way. -/
def bind (t : Tape) : Work σ Unit := do
  modify fun s => { s with header := none }
  match (← get).format.scanHeader t.pos t with
  | .error e t' =>
    modify fun s => { s with target := some (t'.rewind t.pos) }
    throw e
  | .ok header t' =>
    modify fun s => { s with target := some t' }
    announce header
    modify fun s => { s with header := some header }

/-- Unbinds the tape. -/
def unbind : Work σ (Option Tape) := do
  modify fun s => { s with header := none }
  let target := (← get).target
  modify fun s => { s with target := none }
  return target

/-! ### Reading instructions -/

/-- Reads from the bound tape. -/
def readTarget (read : Tape.Reading α) : Work σ α := fun s =>
  match s.target with
  | none => .error .notBound s
  | some t =>
    match read.scan .fault t with
    | .ok a t' => .ok a { s with target := some t' }
    | .error e t' => .error e { s with target := some t' }

/-- Reads an argument of the instruction at hand. -/
def readArgument (field : Field) : Work σ Unit := do
  let value ← readTarget field.kind.decode
  modify fun s => { s with args := s.args ++ [value] }

/-- Reads the arguments of an instruction, in place of those at hand. -/
def readArguments (i : Instruction) : Work σ Unit := do
  modify fun s => { s with args := [] }
  i.args.forM readArgument

/-- Reads an instruction; its arguments are then those at hand. -/
def readWhole : Work σ Instruction := do
  let opcode ← readTarget Tape.readByte
  let i ← assigned opcode
  readArguments i
  return i

/-- Reads an instruction, or puts the head back. -/
def readInstruction : Work σ Instruction := fun s =>
  match s.header, s.target with
  | some _, some t =>
    match readWhole s with
    | .ok i s' => .ok i s'
    | .error e s' => .error e { s' with target := s'.target.map (Tape.rewind t.pos) }
  | _, _ => .error .notBound s

/-- Calls the handler of an opcode, if there is one, with the arguments at hand. -/
def call (opcode : UInt8) : Work σ Unit :=
  modify fun s =>
    match s.handlers.get? opcode with
    | some handler => { s with world := handler s.args s.world }
    | none => s

/-- Reads one instruction and calls its handler. -/
def step : Work σ Unit := do
  let i ← readInstruction
  call i.opcode

/-- Reads one instruction and returns it; its arguments are not at hand any more. -/
def next : Work σ Decoded := do
  match (← get).target with
  | none => throw .notBound
  | some t =>
    let i ← readInstruction
    let args := (← get).args
    modify fun s => { s with args := [] }
    return ⟨t.pos, i, args⟩

/-! ### Progress -/

variable {β : Type} {s s' : Lector σ}

theorem bind_eq_ok_iff {work : Work σ α} {next : α → Work σ β} {b : β} :
    (work >>= next) s = .ok b s' ↔ ∃ a s₁, work s = .ok a s₁ ∧ next a s₁ = .ok b s' := by
  simp only [Bind.bind, EStateM.bind]
  constructor
  · intro h
    split at h
    · exact ⟨_, _, ‹_›, h⟩
    · cases h
  · rintro ⟨a, s₁, ha, h⟩
    rw [ha]
    exact h

/-- Work that does not let the head move back if it succeeds. -/
def Advances (work : Work σ α) : Prop :=
  ∀ s a s', work s = .ok a s' → s'.remaining ≤ s.remaining

theorem Advances.bind {work : Work σ α} {next : α → Work σ β} (h : Advances work)
    (hnext : ∀ a, Advances (next a)) : Advances (work >>= next) := by
  intro s b s' hb
  obtain ⟨a, s₁, ha, hb⟩ := bind_eq_ok_iff.mp hb
  exact Nat.le_trans (hnext a s₁ b s' hb) (h s a s₁ ha)

/-- A read from the bound tape that succeeds. -/
theorem exists_of_readTarget {read : Tape.Reading α} {a : α}
    (h : readTarget read s = .ok a s') :
    ∃ t t', s.target = some t ∧ read t = .ok a t' ∧ s' = { s with target := some t' } := by
  unfold readTarget Tape.Reading.scan EStateM.adaptExcept at h
  cases ht : s.target with
  | none =>
    rw [ht] at h
    cases h
  | some t =>
    rw [ht] at h
    cases hread : read t with
    | error fault t' =>
      simp only [hread] at h
      cases h
    | ok a' t' =>
      simp only [hread] at h
      cases h
      exact ⟨t, t', rfl, hread, rfl⟩

theorem advances_readTarget {read : Tape.Reading α} (hread : read.Advances) :
    Advances (readTarget read : Work σ α) := by
  intro s a s' h
  obtain ⟨t, t', ht, hok, rfl⟩ := exists_of_readTarget h
  rw [remaining, remaining, ht]
  exact hread _ _ _ hok

theorem advances_modify {change : Lector σ → Lector σ}
    (h : ∀ s, (change s).remaining = s.remaining) : Advances (modify change : Work σ Unit) := by
  intro s a s' hs
  cases hs
  exact Nat.le_of_eq (h s)

theorem advances_readArgument (field : Field) : Advances (readArgument field : Work σ Unit) := by
  apply Advances.bind (advances_readTarget field.kind.advances_decode)
  exact fun value => advances_modify fun _ => rfl

theorem advances_readArguments (i : Instruction) : Advances (readArguments i : Work σ Unit) := by
  have hfields (fields : List Field) : Advances (fields.forM readArgument : Work σ Unit) := by
    induction fields with
    | nil =>
      intro s a s' h
      cases h
      exact Nat.le_refl _
    | cons field fields ih => exact (advances_readArgument field).bind fun _ => ih
  apply Advances.bind _ fun _ => hfields i.args
  exact advances_modify fun _ => rfl

theorem advances_assigned (opcode : UInt8) : Advances (assigned opcode : Work σ Instruction) := by
  intro s i s' h
  unfold assigned at h
  split at h
  · cases h
    exact Nat.le_refl _
  · cases h

theorem remaining_lt_of_readWhole {i : Instruction} (h : readWhole s = .ok i s') :
    s'.remaining < s.remaining := by
  obtain ⟨opcode, s₁, hopcode, h⟩ := bind_eq_ok_iff.mp h
  obtain ⟨j, s₂, hassigned, h⟩ := bind_eq_ok_iff.mp h
  obtain ⟨_, s₃, hargs, h⟩ := bind_eq_ok_iff.mp h
  obtain ⟨rfl, rfl⟩ : j = i ∧ s₃ = s' := by
    cases h
    exact ⟨rfl, rfl⟩
  -- the opcode takes a byte, and what follows it does not give that back
  have hlt : s₁.remaining < s.remaining := by
    obtain ⟨t, t', ht, hbyte, rfl⟩ := exists_of_readTarget hopcode
    have hremaining := Tape.remaining_of_readByte hbyte
    simp only [remaining, ht, Option.map_some, Option.getD_some]
    omega
  have hle := advances_assigned opcode s₁ j s₂ hassigned
  have hle' := advances_readArguments j s₂ () s₃ hargs
  omega

theorem remaining_lt_of_readInstruction {i : Instruction} (h : readInstruction s = .ok i s') :
    s'.remaining < s.remaining := by
  unfold readInstruction at h
  split at h
  · split at h
    · cases h
      exact remaining_lt_of_readWhole ‹_›
    · cases h
  · cases h

theorem remaining_lt_of_step (h : step s = .ok () s') : s'.remaining < s.remaining := by
  obtain ⟨i, s₁, hread, h⟩ := bind_eq_ok_iff.mp h
  have hcall : Advances (call i.opcode : Work σ Unit) := by
    apply advances_modify
    intro s
    split <;> rfl
  exact Nat.lt_of_le_of_lt (hcall s₁ () s' h) (remaining_lt_of_readInstruction hread)

theorem remaining_lt_of_next {d : Decoded} (h : next s = .ok d s') :
    s'.remaining < s.remaining := by
  obtain ⟨_, s₁, hget, h⟩ := bind_eq_ok_iff.mp h
  cases hget
  cases ht : s.target with
  | none =>
    simp only [ht] at h
    cases h
  | some t =>
    simp only [ht] at h
    obtain ⟨i, s₂, hread, h⟩ := bind_eq_ok_iff.mp h
    cases h
    have hlt := remaining_lt_of_readInstruction hread
    exact hlt

/-! ### Draining -/

/-- What comes of steps up to the end of the tape or the first error. -/
structure Drained (σ : Type) where
  /-- The number of steps, one that failed included. -/
  steps : Nat
  /-- The error of the last step, unless there was nothing left to read. -/
  failure : Option ReadError
  lector : Lector σ

/-- Steps up to the end of the tape or the first error. -/
def drain (s : Lector σ) : Drained σ :=
  if s.isFinished then ⟨0, none, s⟩
  else
    match h : step s with
    | .error e s' => ⟨1, some e, s'⟩
    | .ok () s' =>
      have := remaining_lt_of_step h
      let rest := s'.drain
      { rest with steps := rest.steps + 1 }
termination_by s.remaining

/-- What comes of reading up to the end of the tape or the first error. -/
structure Collected where
  /-- The instructions read, in order. -/
  instructions : List Decoded
  /-- Why reading stopped before the end of the tape. -/
  failure : Option ReadError
deriving DecidableEq, Repr

/-- Reads instructions up to the end of the tape or the first error. -/
def collect (s : Lector σ) : Collected :=
  if s.isFinished then ⟨[], none⟩
  else
    match h : next s with
    | .error e _ => ⟨[], some e⟩
    | .ok d s' =>
      have := remaining_lt_of_next h
      let rest := s'.collect
      { rest with instructions := d :: rest.instructions }
termination_by s.remaining

theorem drain_of_isFinished (h : s.isFinished = true) : s.drain = ⟨0, none, s⟩ := by
  rw [drain, if_pos h]

theorem drain_of_error {e : ReadError} (h : s.isFinished = false) (hstep : step s = .error e s') :
    s.drain = ⟨1, some e, s'⟩ := by
  rw [drain, if_neg (by simp [h])]
  split
  · rename_i hstep'
    cases hstep.symm.trans hstep'
    rfl
  · rename_i hstep'
    cases hstep.symm.trans hstep'

theorem drain_of_ok (h : s.isFinished = false) (hstep : step s = .ok () s') :
    s.drain = { s'.drain with steps := s'.drain.steps + 1 } := by
  rw [drain, if_neg (by simp [h])]
  split
  · rename_i hstep'
    cases hstep.symm.trans hstep'
  · rename_i hstep'
    cases hstep.symm.trans hstep'
    rfl

theorem collect_of_isFinished (h : s.isFinished = true) : s.collect = ⟨[], none⟩ := by
  rw [collect, if_pos h]

theorem collect_of_error {e : ReadError} (h : s.isFinished = false) (hnext : next s = .error e s') :
    s.collect = ⟨[], some e⟩ := by
  rw [collect, if_neg (by simp [h])]
  split
  · rename_i hnext'
    cases hnext.symm.trans hnext'
    rfl
  · rename_i hnext'
    cases hnext.symm.trans hnext'

theorem collect_of_ok {d : Decoded} (h : s.isFinished = false) (hnext : next s = .ok d s') :
    s.collect = { s'.collect with instructions := d :: s'.collect.instructions } := by
  rw [collect, if_neg (by simp [h])]
  split
  · rename_i hnext'
    cases hnext.symm.trans hnext'
  · rename_i hnext'
    cases hnext.symm.trans hnext'
    rfl

end Lector

end Bytecode
