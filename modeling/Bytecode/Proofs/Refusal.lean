import Bytecode.Proofs.Session
import Bytecode.Scribe

/-!
# Refused calls leave no trace

A `Writer` that refuses a call is the writer it was, since it hands out a new writer only with a
success. A `Scribe` has no such protection: a refused call may have changed notes, and an
instruction could have been written in part. `refusals_leave_no_trace` says that this is never seen:
what a scribe answers, and what stands on its tape, is at all times what a writer answers and holds.

The proof is a simulation. `Scribe.Represents` relates a scribe to the writer that it stands for; it
speaks of the notes only while a tape is bound, and of the converted arguments not at all, so that
what a refused call leaves behind does not matter to it. Each kind of request is followed once
(`Scribe.follows_bind`, `follows_append`, `follows_nextNumber`, `follows_finish`), and
`Scribe.Represents.run` is the induction over the requests.
-/

namespace Bytecode

/-! ### Requests -/

/-- A request to a writer. -/
inductive Request where
  | bind (t : Tape)
  | emit (name : String) (args : List Value)
  | emitByOpcode (opcode : UInt8) (args : List Value)
  | nextNumber (name : String)
  | finish
deriving DecidableEq, Repr

/-- What a request yields unless it is refused. -/
inductive Reply where
  /-- A tape is bound; the tape bound before is given back. -/
  | bound (previous : Option Tape)
  | emitted
  | number (n : Nat)
  | finished (tape : Tape)
deriving DecidableEq, Repr

namespace Writer

/-- Serves a request. -/
def serve (w : Writer) : Request → Except WriteError (Reply × Writer)
  | .bind t => Prod.map .bound id <$> w.bind t
  | .emit name args => (Reply.emitted, ·) <$> w.emit name args
  | .emitByOpcode opcode args => (Reply.emitted, ·) <$> w.emitByOpcode opcode args
  | .nextNumber name => Prod.map .number id <$> w.nextNumber name
  | .finish => Prod.map .finished id <$> w.finish

/-- Serves requests one after another, whatever comes of them. -/
def run (w : Writer) : List Request → List (Except WriteError Reply) × Writer
  | [] => ([], w)
  | request :: requests =>
    match w.serve request with
    | .ok (reply, w') => Prod.map (.ok reply :: ·) id (w'.run requests)
    | .error reason => Prod.map (.error reason :: ·) id (w.run requests)

end Writer

namespace Scribe

/-- Serves a request. -/
def serve : Request → Work Reply
  | .bind t => .bound <$> bind t
  | .emit name args => (fun _ => .emitted) <$> emit name args
  | .emitByOpcode opcode args => (fun _ => .emitted) <$> emitByOpcode opcode args
  | .nextNumber name => .number <$> nextNumber name
  | .finish => .finished <$> finish

/-- Serves requests one after another, whatever comes of them. -/
def run (s : Scribe) : List Request → List (Except Failure Reply) × Scribe
  | [] => ([], s)
  | request :: requests =>
    match serve request s with
    | .ok reply s' => Prod.map (.ok reply :: ·) id (s'.run requests)
    | .error failure s' => Prod.map (.error failure :: ·) id (s'.run requests)

end Scribe

/-! ### Rows of slots -/

namespace Slot

/-- Where the slots of a row lie, when the row starts at a given offset. -/
def offsets : (offset : Nat) → List Slot → List Nat
  | _, [] => []
  | offset, s :: slots => offset :: offsets (offset + s.width) slots

theorem getElem?_offsets (offset : Nat) {before after : List Slot} {s : Slot} :
    (offsets offset (before ++ s :: after))[before.length]? =
      some (offset + slotsWidth before) := by
  induction before generalizing offset with
  | nil => rfl
  | cons s' before ih =>
    rw [List.cons_append, offsets, List.length_cons, List.getElem?_cons_succ, ih]
    simp [slotsWidth, Nat.add_assoc]

end Slot

namespace Scribe

variable {α β : Type} {s s' : Scribe}

/-! ### Steps -/

theorem get_bind (next : Scribe → Work β) : (get >>= next) s = next s s := rfl

theorem modify_bind (change : Scribe → Scribe) (next : Unit → Work β) :
    (modify change >>= next) s = next () (change s) := rfl

theorem require_bind {p : Prop} [Decidable p] (hp : p) (reason : WriteError)
    (next : Unit → Work β) : (require p reason >>= next) s = next () s := by
  rw [require, if_pos hp]
  rfl

theorem require_bind_of_not {p : Prop} [Decidable p] (hp : ¬ p) (reason : WriteError)
    (next : Unit → Work β) :
    (require p reason >>= next) s = .error (.refused reason) s := by
  rw [require, if_neg hp]
  rfl

theorem bound_bind {t : Tape} (h : s.target = some t) (next : Tape → Work β) :
    (bound >>= next) s = next t s := by
  refine bind_of_ok ?_ next
  rw [bound, get_bind, h]
  rfl

theorem bound_bind_of_none (h : s.target = none) (next : Tape → Work β) :
    (bound >>= next) s = .error (.refused .notBound) s := by
  refine bind_of_error ?_ next
  rw [bound, get_bind, h]
  rfl

theorem grant_bind (a : α) (next : α → Work β) :
    (grant (WriteError.ofFault (.ok a)) >>= next) s = next a s := rfl

theorem lookUp_bind {entries : List α} {index : Nat} {entry : α}
    (h : entries[index]? = some entry) (next : α → Work β) :
    (lookUp entries index >>= next) s = next entry s := by
  rw [lookUp, h]
  rfl

/-! ### Notes -/

/-- The placeholders of chunks whose slots lie in a row that starts at a given offset, the first of
them at the given index. -/
def placeholdersFrom (index offset : Nat) (chunks : List Slot) : List Placeholder :=
  ((Slot.offsets offset chunks).zipIdx index).map fun entry => ⟨entry.2, entry.1⟩

/-- A scribe has noted where on the tape of a draft things lie. -/
structure Notes (s : Scribe) (d : Draft) : Prop where
  target_eq : s.target = some d.tape
  start_eq : s.start = d.start
  bodyStart_eq : s.bodyStart = d.start + s.format.bodyOffset
  counterOffsets_eq :
    s.counterOffsets = Slot.offsets (d.start + s.format.countersOffset) s.format.counters
  placeholders_eq :
    s.placeholders = placeholdersFrom 0 (d.start + s.format.chunksOffset) s.format.chunks
  /-- The draft holds what it was begun on and what has been written since. -/
  holds : ∃ t counts body, d.Holds s.format t counts body

/-- A scribe stands for a writer. Of a scribe without a tape, no notes are asked. -/
structure Represents (s : Scribe) (w : Writer) : Prop where
  format_eq : s.format = w.format
  wellFormed : s.format.WellFormed
  unbound : w.draft = none → s.target = none
  notes : ∀ d, w.draft = some d → s.Notes d

/-- What a scribe does is what a writer does: both succeed, with one result, or both refuse for one
reason, and the scribe still stands for the writer it stood for. A reason is never that a slot could
not be read or replaced. -/
inductive Follows {α : Type} (w : Writer) :
    EStateM.Result Failure Scribe α → Except WriteError (α × Writer) → Prop where
  | granted {a : α} {s : Scribe} {w' : Writer} (hformat : w'.format = w.format)
    (h : s.Represents w') : Follows w (.ok a s) (.ok (a, w'))
  | refused {reason : WriteError} {s : Scribe} (hreason : ∀ fault, reason ≠ .fault fault)
    (h : s.Represents w) : Follows w (.error (.refused reason) s) (.error reason)

variable {w : Writer} {t : Tape} {d : Draft}

theorem Represents.target_eq (h : s.Represents w) : s.target = w.draft.map (·.tape) := by
  cases hd : w.draft with
  | none => exact h.unbound hd
  | some d => exact (h.notes d hd).target_eq

/-- The converted arguments of an instruction tell nothing about the draft. -/
theorem Represents.of_scratch (h : s.Represents w) (scratch : List Value) :
    Represents { s with scratch := scratch } w :=
  ⟨h.format_eq, h.wellFormed, h.unbound, fun d hd =>
    let notes := h.notes d hd
    ⟨notes.target_eq, notes.start_eq, notes.bodyStart_eq, notes.counterOffsets_eq,
      notes.placeholders_eq, notes.holds⟩⟩

theorem represents_new {f : Format} (hf : f.WellFormed) : (new f).Represents (Writer.new f) :=
  ⟨rfl, hf, fun _ => rfl, fun _ hd => by cases hd⟩

/-- The scribe and the writer, where the tape of the draft is another and the notes are kept. -/
theorem Represents.of_draft (h : s.Represents w) (hd : w.draft = some d) {d' : Draft}
    (hstart : d'.start = d.start) (hholds : ∃ t counts body, d'.Holds w.format t counts body)
    (scratch : List Value) :
    Represents { s with target := some d'.tape, scratch := scratch }
      { w with draft := some d' } := by
  have notes := h.notes d hd
  refine ⟨h.format_eq, h.wellFormed, fun hnone => (Option.some_ne_none _ hnone).elim, ?_⟩
  intro d'' hd''
  obtain rfl : d' = d'' := Option.some.inj hd''
  refine ⟨rfl, notes.start_eq.trans hstart.symm, ?_, ?_, ?_, ?_⟩
  · rw [hstart]
    exact notes.bodyStart_eq
  · rw [hstart]
    exact notes.counterOffsets_eq
  · rw [hstart]
    exact notes.placeholders_eq
  · rw [← h.format_eq] at hholds
    exact hholds

/-! ### Binding -/

/-- A constant is written unless it is too long. -/
theorem writeConstant_eq (t : Tape) (c : Constant) (s : Scribe) :
    writeConstant t c s =
      if lengthLimit ≤ c.value.payload.length then
        .error (.refused (.lengthOverflow c.name c.value.payload.length)) s
      else .ok (t.write c.value.wire) s := by
  rw [writeConstant, Kind.encode, Kind.coerce_self]
  by_cases hlong : lengthLimit ≤ c.value.payload.length
  · have hnot : ¬ c.value.payload.length < lengthLimit := by omega
    rw [if_pos hlong]
    simp only [hnot, if_false]
    rfl
  · have hlt : c.value.payload.length < lengthLimit := by omega
    rw [if_neg hlong]
    simp only [hlt, if_true]
    rfl

/-- Constants are written one after another, up to the first that is too long. -/
theorem foldlM_writeConstant (cs : List Constant) (t : Tape) (s : Scribe) :
    cs.foldlM writeConstant t s =
      match cs.find? fun c => lengthLimit ≤ c.value.payload.length with
      | some c => .error (.refused (.lengthOverflow c.name c.value.payload.length)) s
      | none => .ok (t.write (cs.flatMap (·.value.wire))) s := by
  induction cs generalizing t with
  | nil =>
    rw [List.flatMap_nil, Tape.write_nil]
    rfl
  | cons c cs ih =>
    rw [List.foldlM_cons, List.find?_cons, List.flatMap_cons]
    have hwrite := writeConstant_eq t c s
    by_cases hlong : lengthLimit ≤ c.value.payload.length
    · rw [if_pos hlong] at hwrite
      rw [bind_of_error hwrite]
      simp only [hlong, decide_true]
    · rw [if_neg hlong] at hwrite
      rw [bind_of_ok hwrite, ih, ← Tape.write_write]
      simp only [hlong, decide_false]

theorem foldlM_writeCounter (slots : List Slot) (t : Tape) (s : Scribe) :
    slots.foldlM writeCounter t s =
      .ok (t.write (Slot.fill (fun _ => 0) slots))
        { s with counterOffsets := s.counterOffsets ++ Slot.offsets t.pos slots } := by
  induction slots generalizing t s with
  | nil =>
    show EStateM.Result.ok t s = _
    simp [Slot.fill, Slot.offsets]
  | cons c slots ih =>
    have hwrite : writeCounter t c s = .ok (t.write (LittleEndian.toBytes c.width 0))
        { s with counterOffsets := s.counterOffsets ++ [t.pos] } := rfl
    rw [List.foldlM_cons, bind_of_ok hwrite, ih, Tape.write_write, ← Slot.fill_cons (fun _ => 0),
      Tape.pos_write, LittleEndian.length_toBytes, List.append_assoc]
    rfl

theorem foldlM_writeChunk (slots : List Slot) (index : ℕ) (t : Tape) (s : Scribe) :
    (slots.zipIdx index).foldlM writeChunk t s =
      .ok (t.write (Slot.fill (fun _ => 0) slots))
        { s with placeholders := s.placeholders ++ placeholdersFrom index t.pos slots } := by
  induction slots generalizing index t s with
  | nil =>
    show EStateM.Result.ok t s = _
    simp [Slot.fill, placeholdersFrom, Slot.offsets]
  | cons c slots ih =>
    have hwrite : writeChunk t (c, index) s = .ok (t.write (LittleEndian.toBytes c.width 0))
        { s with placeholders := s.placeholders ++ [⟨index, t.pos⟩] } := rfl
    rw [List.zipIdx_cons, List.foldlM_cons, bind_of_ok hwrite, ih, Tape.write_write,
      ← Slot.fill_cons (fun _ => 0), Tape.pos_write, LittleEndian.length_toBytes, List.append_assoc]
    rfl

/-- The scribe that has begun a cartridge on a tape. -/
def begun (s : Scribe) (t : Tape) : Scribe :=
  let f := s.format
  { s with
    target := some (t.write (f.preamble (fun _ => 0) 0))
    start := t.pos
    bodyStart := t.pos + f.bodyOffset
    counterOffsets := Slot.offsets (t.pos + f.countersOffset) f.counters
    placeholders := placeholdersFrom 0 (t.pos + f.chunksOffset) f.chunks }

theorem bind_eq_ok (hgrowable : t.growable = true) (hfits : ∀ c ∈ s.format.header, c.value.Fits) :
    bind t s = .ok s.target (s.begun t) := by
  have hfind : s.format.header.find? (fun c => lengthLimit ≤ c.value.payload.length) = none := by
    rw [List.find?_eq_none]
    intro c hc
    have hlt : c.value.payload.length < lengthLimit := hfits c hc
    simpa using hlt
  have hheader := foldlM_writeConstant s.format.header t s
  rw [hfind] at hheader
  have hlength : (s.format.header.flatMap (·.value.wire)).length = s.format.countersOffset := rfl
  have hwrite : ((t.write (s.format.header.flatMap (·.value.wire))).write
      (Slot.fill (fun _ => 0) s.format.counters)).write (Slot.fill (fun _ => 0) s.format.chunks) =
      t.write (s.format.preamble (fun _ => 0) 0) := by
    rw [Tape.write_write, Tape.write_write, ← List.append_assoc]
    rfl
  have hchunks : ((t.write (s.format.header.flatMap (·.value.wire))).write
      (Slot.fill (fun _ => 0) s.format.counters)).pos = t.pos + s.format.chunksOffset := by
    rw [Tape.pos_write, Tape.pos_write, Slot.length_fill, hlength, Nat.add_assoc]
    rfl
  rw [Scribe.bind, require_bind hgrowable, get_bind, bind_of_ok hheader, modify_bind,
    bind_of_ok (foldlM_writeCounter ..), modify_bind, bind_of_ok (foldlM_writeChunk ..), get_bind,
    modify_bind]
  dsimp only
  rw [hwrite, hchunks, Tape.pos_write, Tape.pos_write, Format.length_preamble, hlength,
    List.nil_append, List.nil_append]
  rfl

theorem represents_begun (h : s.Represents w) (hgrowable : t.growable = true)
    (hfits : ∀ c ∈ s.format.header, c.value.Fits) :
    (s.begun t).Represents
      { w with draft := some ⟨t.write (w.format.preamble (fun _ => 0) 0), t.pos⟩ } := by
  refine ⟨h.format_eq, h.wellFormed, fun hnone => (Option.some_ne_none _ hnone).elim, ?_⟩
  intro d hd
  rw [← h.format_eq] at hd
  have hdraft := Draft.onTape_eq_ok_iff.mpr ⟨hgrowable, hfits, Option.some.inj hd⟩
  obtain rfl := Option.some.inj hd
  exact ⟨rfl, rfl, rfl, rfl, rfl, _, _, _, Draft.holds_of_onTape hdraft⟩

/-- Where a constant is too long, what has been written by then is on a tape that is dropped. -/
theorem follows_bind (h : s.Represents w) (t : Tape) : Follows w (bind t s) (w.bind t) := by
  have hheader := foldlM_writeConstant s.format.header t s
  unfold Writer.bind
  cases hgrowable : t.growable with
  | false =>
    rw [Draft.onTape, hgrowable, Scribe.bind, require_bind_of_not (by simp [hgrowable])]
    exact .refused (by simp) h
  | true =>
    cases hfind : s.format.header.find? fun c => lengthLimit ≤ c.value.payload.length with
    | some c =>
      have hdraft : Draft.onTape w.format t =
          .error (.lengthOverflow c.name c.value.payload.length) := by
        rw [← h.format_eq, Draft.onTape, hgrowable, hfind]
        rfl
      rw [hfind] at hheader
      rw [hdraft, Scribe.bind, require_bind hgrowable, get_bind, bind_of_error hheader]
      exact .refused (by simp) h
    | none =>
      have hfits : ∀ c ∈ s.format.header, c.value.Fits := fun c hc => by
        simpa [Value.Fits] using List.find?_eq_none.mp hfind c hc
      have hdraft := Draft.onTape_eq_ok_iff.mpr ⟨hgrowable, hfits, rfl⟩
      rw [h.format_eq] at hdraft
      rw [hdraft, bind_eq_ok hgrowable hfits, h.target_eq]
      exact .granted rfl (represents_begun h hgrowable hfits)

/-! ### Appending -/

/-- An argument is converted as for a draft. -/
theorem convertArgument_eq (i : Instruction) (field : Field) (arg : Value) (s : Scribe) :
    convertArgument i (field, arg) s =
      match field.kind.coerce arg with
      | none => .error (.refused (.invalidArgument i.mnemonic field.name field.kind)) s
      | some value =>
        if value.payload.length < lengthLimit then .ok () { s with scratch := s.scratch ++ [value] }
        else .error (.refused (.lengthOverflow field.name value.payload.length)) s := by
  unfold convertArgument
  cases field.kind.coerce arg with
  | none => rfl
  | some value =>
    dsimp only
    split
    · rw [require_bind ‹_›]
      rfl
    · rw [require_bind_of_not ‹_›]

/-- Arguments pile up as far as they convert. -/
theorem forM_convertArgument (i : Instruction) (fields : List Field) (args : List Value)
    (s : Scribe) :
    ∃ scratch, forM (fields.zip args) (convertArgument i) s =
      match i.convert fields args with
      | .ok values => .ok () { s with scratch := s.scratch ++ values }
      | .error reason => .error (.refused reason) { s with scratch := scratch } := by
  induction fields generalizing args s with
  | nil => exact ⟨[], by simp [Instruction.convert]; rfl⟩
  | cons field fields ih =>
    cases args with
    | nil => exact ⟨[], by simp [Instruction.convert]; rfl⟩
    | cons arg args =>
      have hhead := convertArgument_eq i field arg s
      rw [List.zip_cons_cons, List.forM_cons, Instruction.convert]
      cases hcoerce : field.kind.coerce arg with
      | none =>
        rw [hcoerce] at hhead
        exact ⟨s.scratch, bind_of_error hhead _⟩
      | some value =>
        rw [hcoerce] at hhead
        dsimp only at hhead ⊢
        by_cases hlt : value.payload.length < lengthLimit
        · rw [if_pos hlt] at hhead ⊢
          obtain ⟨scratch, hrest⟩ := ih args { s with scratch := s.scratch ++ [value] }
          refine ⟨scratch, ?_⟩
          rw [bind_of_ok hhead, hrest]
          cases i.convert fields args with
          | error reason => rfl
          | ok values => simp
        · rw [if_neg hlt] at hhead ⊢
          exact ⟨s.scratch, bind_of_error hhead _⟩

/-- Converted arguments are always written: converting them once more changes nothing. -/
theorem forM_writeArgument (i : Instruction) {fields : List Field} {values : List Value}
    (h : List.Forall₂ Field.Admits fields values) (ht : s.target = some t) :
    forM (fields.zip values) (writeArgument i) s =
      .ok () { s with target := some (t.write (values.flatMap Value.wire)) } := by
  induction h generalizing s t with
  | nil =>
    rw [List.flatMap_nil, Tape.write_nil, ← ht]
    rfl
  | @cons field value fields values hadmits _ ih =>
    have hcoerce : field.kind.coerce value = some value := hadmits.1 ▸ Kind.coerce_self value
    have hencode : field.kind.encode value t = .ok (t.write value.wire) :=
      Kind.encode_eq_ok_iff.mpr ⟨value, hcoerce, hadmits.2, rfl⟩
    have hwrite : writeArgument i (field, value) s =
        .ok () { s with target := some (t.write value.wire) } := by
      rw [writeArgument, bound_bind ht, hencode]
      rfl
    rw [List.zip_cons_cons, List.forM_cons, bind_of_ok hwrite, ih rfl, Tape.write_write,
      List.flatMap_cons]

/-- Arguments are never refused for the tape. -/
theorem ne_fault_of_convert {i : Instruction} {fields : List Field} {args : List Value}
    {reason : WriteError} (h : i.convert fields args = .error reason) (fault : Tape.Fault) :
    reason ≠ .fault fault := by
  induction fields generalizing args with
  | nil => cases h
  | cons field fields ih =>
    cases args with
    | nil => cases h
    | cons arg args =>
      rw [Instruction.convert] at h
      split at h
      · cases h
        exact WriteError.noConfusion
      · split at h
        · cases hrest : i.convert fields args with
          | ok values =>
            rw [hrest] at h
            cases h
          | error reason' =>
            rw [hrest] at h
            cases h
            exact ih hrest
        · cases h
          exact WriteError.noConfusion

/-- An instruction is written as a whole or not at all: what can be refused about its arguments has
been looked at before its opcode is written. -/
theorem follows_append (h : s.Represents w) (hd : w.draft = some d) (i : Instruction)
    (args : List Value) :
    Follows w (append i args s)
      ((fun d' => ((), { w with draft := some d' })) <$> d.append i args) := by
  have notes := h.notes d hd
  rw [append, bound_bind notes.target_eq, Draft.append]
  by_cases hlength : args.length = i.args.length
  · obtain ⟨scratch, hconvert⟩ := forM_convertArgument i i.args args { s with scratch := [] }
    rw [if_neg (not_not.mpr hlength), require_bind hlength, modify_bind]
    cases hvalues : i.convert i.args args with
    | error reason =>
      rw [hvalues] at hconvert
      -- the arguments that did convert stay behind, on a pile that nobody looks at
      rw [bind_of_error hconvert]
      exact .refused (ne_fault_of_convert hvalues) (h.of_scratch scratch)
    | ok values =>
      rw [hvalues] at hconvert
      have htakes : List.Forall₂ Field.Admits i.args values :=
        Instruction.forall₂_admits_of_mapM hlength (Instruction.convert_eq_ok_iff.mp hvalues)
      -- the opcode, and behind it what has been converted
      rw [bind_of_ok hconvert, modify_bind, get_bind, List.nil_append,
        forM_writeArgument i htakes rfl, Tape.write_write]
      obtain ⟨t, counts, body, hholds⟩ := notes.holds
      rw [h.format_eq] at hholds
      have hwritten := hholds.write (i.wire values)
      refine .granted rfl (h.of_draft hd ?_ ⟨t, counts, _, hwritten⟩ values)
      rfl
  · rw [if_pos hlength, require_bind_of_not hlength]
    exact .refused (by simp) h

theorem follows_emitFound (h : s.Represents w) (find : Format → Option Instruction)
    {unknown : WriteError} (hunknown : ∀ fault, unknown ≠ .fault fault) (args : List Value) :
    Follows w (emitFound find unknown args s)
      (((), ·) <$> (w.bound >>= fun d =>
        match find w.format with
        | none => throw unknown
        | some i => return { w with draft := some (← d.append i args) })) := by
  unfold emitFound Writer.bound
  cases hd : w.draft with
  | none =>
    rw [bound_bind_of_none (h.unbound hd)]
    exact .refused (by simp) h
  | some d =>
    rw [bound_bind (h.notes d hd).target_eq, get_bind, h.format_eq]
    show Follows w _ (((), ·) <$> match find w.format with
      | none => throw unknown
      | some i => return { w with draft := some (← d.append i args) })
    cases find w.format with
    | none => exact .refused hunknown h
    | some i =>
      simpa only [bind_pure_comp, Functor.map_map] using follows_append h hd i args

/-! ### Counting -/

/-- Every counter of the format has its offset among the notes. -/
theorem Notes.getElem?_counterOffsets (notes : s.Notes d) {name : String} {c : Slot} {index : ℕ}
    (hc : s.format.counter? name = some (c, index)) :
    s.counterOffsets[index]? = some (d.start + s.format.counterOffset index) := by
  obtain ⟨-, before, after, hcounters, rfl⟩ := Format.counters_of_counter? hc
  rw [notes.counterOffsets_eq, Format.counterOffset, hcounters, Slot.getElem?_offsets,
    List.take_left, Nat.add_assoc]

theorem ofFault_eq_ok_iff {result : Except Tape.Fault α} {a : α} :
    WriteError.ofFault result = .ok a ↔ result = .ok a := by
  cases result with
  | error fault => simp [WriteError.ofFault, Except.mapError]
  | ok a' => simp [WriteError.ofFault, Except.mapError]

/-- A draft gives out a number by replacing the one in its slot. -/
theorem patch_of_nextNumber_eq_ok {f : Format} {index number : ℕ} {c : Slot} {d' : Draft}
    (h : d.nextNumber f index c = .ok (number, d')) :
    d.tape.patch (d.start + f.counterOffset index) (LittleEndian.toBytes c.width (number + 1)) =
      .ok d'.tape ∧ d'.start = d.start := by
  unfold Draft.nextNumber at h
  obtain ⟨current, -, h⟩ := except_bind_eq_ok_iff.mp h
  split at h
  · cases h
  · obtain ⟨-, -, h⟩ := except_bind_eq_ok_iff.mp h
    obtain ⟨tape, htape, h⟩ := except_bind_eq_ok_iff.mp h
    cases h
    exact ⟨ofFault_eq_ok_iff.mp htape, rfl⟩

/-- A number is given out as by a draft: the count is there to be read, and the next one fits where
it is not refused. -/
theorem follows_nextNumber (h : s.Represents w) (name : String) :
    Follows w (nextNumber name s) (w.nextNumber name) := by
  cases hd : w.draft with
  | none =>
    rw [nextNumber, bound_bind_of_none (h.unbound hd), Writer.nextNumber, Writer.bound, hd]
    exact .refused (by simp) h
  | some d =>
    have notes := h.notes d hd
    obtain ⟨t, counts, body, hholds⟩ := notes.holds
    rw [nextNumber, bound_bind notes.target_eq, get_bind]
    cases hc : s.format.counter? name with
    | none =>
      rw [Writer.nextNumber, Writer.bound, hd, ← h.format_eq, hc]
      exact .refused (by simp) h
    | some found =>
      obtain ⟨c, index⟩ := found
      -- the notes lead to the slot that holds the count
      have hpeek := hholds.peekNat_eq h.wellFormed hc
      dsimp only
      rw [Writer.nextNumber_eq hd (h.format_eq ▸ hc), get_bind,
        lookUp_bind (notes.getElem?_counterOffsets hc), hpeek, grant_bind]
      by_cases hlt : counts name + 1 ≤ c.kind.max
      · obtain ⟨d', hnext, hholds'⟩ := hholds.nextNumber_eq_ok h.wellFormed hc hlt
        obtain ⟨hpatch, hstart⟩ := patch_of_nextNumber_eq_ok hnext
        have hfill :
            fillIn c.kind (d.start + s.format.counterOffset index) (counts name + 1) d.tape =
              .ok d'.tape := by
          rw [fillIn, if_pos hlt]
          exact hpatch
        rw [h.format_eq] at hnext
        rw [require_bind hlt, hnext, hfill, grant_bind, modify_bind]
        have hrep := h.of_draft hd hstart ⟨t, _, body, h.format_eq ▸ hholds'⟩ s.scratch
        exact .granted rfl hrep
      · have herror := hholds.nextNumber_eq_error h.wellFormed hc (by omega)
        rw [h.format_eq] at herror
        rw [require_bind_of_not hlt, herror]
        exact .refused (by simp) h

/-! ### Finishing -/

/-- One number for each slot of a row of chunks. -/
def entriesFrom (number offset : Nat) (chunks : List Slot) : List Entry :=
  (Slot.offsets offset chunks).zipWith (fun offset c => ⟨offset, c.kind, number⟩) chunks

/-- The placeholders of the last chunks lead to these chunks, and ask for the length of the
instructions in each of their slots. -/
theorem mapM_chunkEntry (bodyEnd offset : ℕ) (before : List Slot) {chunks : List Slot}
    (hchunks : s.format.chunks = before ++ chunks) :
    (placeholdersFrom before.length offset chunks).mapM (chunkEntry bodyEnd) s =
      match chunks.find? fun c => c.kind.max < bodyEnd - s.bodyStart with
      | some c => .error (.refused (.chunkOverflow c.name (bodyEnd - s.bodyStart))) s
      | none => .ok (entriesFrom (bodyEnd - s.bodyStart) offset chunks) s := by
  induction chunks generalizing before offset with
  | nil => rfl
  | cons c chunks ih =>
    have hcons : placeholdersFrom before.length offset (c :: chunks) =
        ⟨before.length, offset⟩ :: placeholdersFrom (before.length + 1) (offset + c.width) chunks :=
      rfl
    have hget : s.format.chunks[before.length]? = some c := by simp [hchunks]
    rw [hcons, List.mapM_cons, List.find?_cons]
    by_cases hle : bodyEnd - s.bodyStart ≤ c.kind.max
    · have hhead : chunkEntry bodyEnd ⟨before.length, offset⟩ s =
          .ok ⟨offset, c.kind, bodyEnd - s.bodyStart⟩ s := by
        rw [chunkEntry, get_bind, lookUp_bind hget, require_bind hle]
        rfl
      have htail := ih (offset + c.width) (before ++ [c]) (by simp [hchunks])
      rw [List.length_append, List.length_singleton] at htail
      have hnot : ¬ c.kind.max < bodyEnd - s.bodyStart := by omega
      rw [bind_of_ok hhead]
      simp only [hnot, decide_false]
      cases hfind : chunks.find? fun c => c.kind.max < bodyEnd - s.bodyStart with
      | some c' =>
        rw [hfind] at htail
        exact bind_of_error htail _
      | none =>
        rw [hfind] at htail
        exact bind_of_ok htail _
    · have hhead : chunkEntry bodyEnd ⟨before.length, offset⟩ s =
          .error (.refused (.chunkOverflow c.name (bodyEnd - s.bodyStart))) s := by
        rw [chunkEntry, get_bind, lookUp_bind hget, require_bind_of_not hle]
      have hlt : c.kind.max < bodyEnd - s.bodyStart := by omega
      rw [bind_of_error hhead]
      simp only [hlt, decide_true]

/-- A number is filled into the slots of a row one after another. -/
theorem foldlM_fillInEntry {number : ℕ} {chunks : List Slot} {as bs cs : List UInt8}
    (hbefore : t.before = as ++ bs ++ cs) (hlength : bs.length = slotsWidth chunks)
    (hmax : ∀ c ∈ chunks, number ≤ c.kind.max) (s : Scribe) :
    (entriesFrom number as.length chunks).foldlM fillInEntry t s =
      .ok ⟨as ++ Slot.fill (fun _ => number) chunks ++ cs, t.after, t.growable⟩ s := by
  induction chunks generalizing t as bs with
  | nil =>
    obtain rfl : bs = [] := List.length_eq_zero_iff.mp hlength
    have hsame : as ++ Slot.fill (fun _ => number) [] ++ cs = t.before := hbefore.symm
    rw [hsame]
    rfl
  | cons c chunks ih =>
    obtain ⟨hle, hmax⟩ := List.forall_mem_cons.mp hmax
    -- the slot of `c`, and the slots behind it
    obtain ⟨slot, bs, rfl, hslot⟩ : ∃ slot bs', bs = slot ++ bs' ∧ slot.length = c.width := by
      refine ⟨bs.take c.width, bs.drop c.width, (List.take_append_drop ..).symm, ?_⟩
      rw [List.length_take, hlength]
      simp [slotsWidth]
    have hrest : bs.length = slotsWidth chunks := by
      have hcons : slotsWidth (c :: chunks) = c.width + slotsWidth chunks := by simp [slotsWidth]
      rw [List.length_append] at hlength
      omega
    have hsplit : t.before = as ++ slot ++ (bs ++ cs) := by
      rw [hbefore]
      simp only [List.append_assoc]
    have hpatch := Tape.patch_of_before_eq hsplit
      ((LittleEndian.length_toBytes c.width number).trans hslot.symm)
    have hhead : fillInEntry t ⟨as.length, c.kind, number⟩ s =
        .ok ⟨as ++ LittleEndian.toBytes c.width number ++ (bs ++ cs), t.after, t.growable⟩ s := by
      rw [fillInEntry, fillIn, if_pos hle]
      exact congrArg (fun result => grant (WriteError.ofFault result) s) hpatch
    have hcons : entriesFrom number as.length (c :: chunks) = ⟨as.length, c.kind, number⟩ ::
        entriesFrom number (as ++ LittleEndian.toBytes c.width number).length chunks := by
      rw [List.length_append, LittleEndian.length_toBytes]
      rfl
    rw [hcons, List.foldlM_cons, bind_of_ok hhead, ih (List.append_assoc ..).symm hrest hmax,
      Slot.fill_cons (fun _ => number), List.append_assoc as]

/-- To fill in the lengths of the chunks one after another is to patch them all at once. -/
theorem foldlM_fillInEntry_of_holds {f : Format} {counts : String → ℕ} {body : List UInt8}
    (h : d.Holds f t counts body) (hfits : ∀ c ∈ f.chunks, body.length ≤ c.kind.max) (s : Scribe) :
    (entriesFrom body.length (d.start + f.chunksOffset) f.chunks).foldlM fillInEntry d.tape s =
      .ok { d.tape with before := t.before ++ (f.preamble counts body.length ++ body) } s := by
  have hbefore : t.before ++ f.headerBytes ++ Slot.fill counts f.counters ++
      Slot.fill (fun _ => body.length) f.chunks ++ body =
      t.before ++ (f.preamble counts body.length ++ body) := by
    simp only [Format.preamble, List.append_assoc]
  rw [h.start_add_chunksOffset,
    foldlM_fillInEntry h.before_eq_chunks (Slot.length_fill ..) hfits, hbefore]

/-- With the lengths filled in, the head can be moved to the start, and the draft is finished so. -/
theorem exists_seek_of_holds {f : Format} {counts : String → ℕ} {body : List UInt8}
    (h : d.Holds f t counts body) (hfits : ∀ c ∈ f.chunks, body.length ≤ c.kind.max) :
    ∃ rewound, Tape.seek d.start
        { d.tape with before := t.before ++ (f.preamble counts body.length ++ body) } =
          .ok rewound ∧ d.finish f = .ok rewound := by
  refine ⟨_, ?_, h.finish_eq_ok hfits⟩
  rw [h.start_eq, Tape.pos, Tape.seek_of_before_eq rfl, h.after_eq, h.growable_eq]

theorem Represents.unbind (h : s.Represents w) :
    Represents { s with target := none, placeholders := [], counterOffsets := [] }
      { w with draft := none } :=
  ⟨h.format_eq, h.wellFormed, fun _ => rfl, fun _ hd => (Option.some_ne_none _ hd.symm).elim⟩

/-- A cartridge is finished as a draft is: the lengths are filled in one after another instead of
all at once, and they fit, since those that do not were refused before the tape was let go. -/
theorem follows_finish (h : s.Represents w) : Follows w (finish s) w.finish := by
  cases hd : w.draft with
  | none =>
    rw [finish, bound_bind_of_none (h.unbound hd), Writer.finish, Writer.bound, hd]
    exact .refused (by simp) h
  | some d =>
    have notes := h.notes d hd
    obtain ⟨t, counts, body, hholds⟩ := notes.holds
    have hlength : d.tape.pos - s.bodyStart = body.length := by
      rw [notes.bodyStart_eq]
      exact hholds.length_eq
    have hentries := mapM_chunkEntry (s := s) d.tape.pos (d.start + s.format.chunksOffset) []
      (List.nil_append _).symm
    rw [hlength, List.length_nil] at hentries
    rw [finish, bound_bind notes.target_eq, get_bind, notes.placeholders_eq, Writer.finish_eq hd]
    cases hfind : s.format.chunks.find? fun c => c.kind.max < body.length with
    | some c =>
      have hfinish : d.finish w.format = .error (.chunkOverflow c.name body.length) := by
        rw [← h.format_eq]
        simp only [Draft.finish, hholds.length_eq, hfind]
        rfl
      rw [hfind] at hentries
      rw [bind_of_error hentries, hfinish]
      exact .refused (by simp) h
    | none =>
      have hfits : ∀ c ∈ s.format.chunks, body.length ≤ c.kind.max := fun c hc => by
        simpa using List.find?_eq_none.mp hfind c hc
      -- from here on the scribe has no tape, so nothing may be refused any more
      have hfill := foldlM_fillInEntry_of_holds hholds hfits { s with target := none }
      obtain ⟨rewound, hseek, hfinish⟩ := exists_seek_of_holds hholds hfits
      rw [h.format_eq] at hfinish
      rw [← notes.start_eq] at hseek
      rw [hfind] at hentries
      rw [bind_of_ok hentries, modify_bind, bind_of_ok hfill, get_bind]
      dsimp only
      rw [hseek, grant_bind, modify_bind, hfinish]
      exact .granted rfl h.unbind

/-! ### All requests -/

theorem Follows.map {x : Work α} {expected : Except WriteError (α × Writer)}
    (h : Follows w (x s) expected) (f : α → β) :
    Follows w ((f <$> x) s) (Prod.map f id <$> expected) := by
  show Follows w (EStateM.map f x s) _
  unfold EStateM.map
  generalize x s = result at h
  cases h with
  | granted hformat hrep => exact .granted hformat hrep
  | refused hreason hrep => exact .refused hreason hrep

theorem follows_serve_emitFound (h : s.Represents w) (find : Format → Option Instruction)
    {unknown : WriteError} (hunknown : ∀ fault, unknown ≠ .fault fault) (args : List Value) :
    Follows w (((fun _ => Reply.emitted) <$> emitFound find unknown args) s)
      ((Reply.emitted, ·) <$> (w.bound >>= fun d =>
        match find w.format with
        | none => throw unknown
        | some i => return { w with draft := some (← d.append i args) })) := by
  have hfollows := (follows_emitFound h find hunknown args).map fun _ => Reply.emitted
  rwa [Functor.map_map] at hfollows

/-- A request is served by a scribe as by the writer it stands for. -/
theorem Represents.serve (h : s.Represents w) (request : Request) :
    Follows w (serve request s) (w.serve request) := by
  cases request with
  | bind t => exact (follows_bind h t).map _
  | emit name args => exact follows_serve_emitFound h (·.instruction? name) (by simp) args
  | emitByOpcode opcode args => exact follows_serve_emitFound h (·.byOpcode? opcode) (by simp) args
  | nextNumber name => exact (follows_nextNumber h name).map _
  | finish => exact (follows_finish h).map _

/-- Requests are served by a scribe as by the writer it stands for. -/
theorem Represents.run (h : s.Represents w) (requests : List Request) :
    (s.run requests).1 = (w.run requests).1.map (.mapError .refused) ∧
      (s.run requests).2.Represents (w.run requests).2 ∧ (w.run requests).2.format = w.format := by
  induction requests generalizing s w with
  | nil => exact ⟨rfl, h, rfl⟩
  | cons request requests ih =>
    have hserve := h.serve request
    rw [Scribe.run, Writer.run]
    generalize Scribe.serve request s = result at hserve
    generalize w.serve request = expected at hserve
    cases hserve with
    | granted hformat hrep =>
      obtain ⟨hreplies, hrun, hkept⟩ := ih hrep
      exact ⟨congrArg _ hreplies, hrun, hkept.trans hformat⟩
    | refused _ hrep =>
      obtain ⟨hreplies, hrun⟩ := ih hrep
      exact ⟨congrArg _ hreplies, hrun⟩

/-- Scribes that stand for one writer cannot be told apart by requests. -/
theorem Represents.run_eq (h : s.Represents w) (h' : s'.Represents w) (requests : List Request) :
    (s'.run requests).1 = (s.run requests).1 ∧
      (s'.run requests).2.target = (s.run requests).2.target := by
  obtain ⟨hreplies, hrun, -⟩ := h.run requests
  obtain ⟨hreplies', hrun', -⟩ := h'.run requests
  exact ⟨hreplies'.trans hreplies.symm, hrun'.target_eq.trans hrun.target_eq.symm⟩

/-- **Refused calls leave no trace.** Whatever has been requested of a scribe, a request that it
does not grant is refused for a reason that concerns the request: no slot was out of reach and no
note missing. The bound tape is then what it was, with its head, and no later requests can tell that
there was another: they are answered as without it and leave the same tape. A tape that may be
extended is always bound, if the constants have lengths at all. Throughout, scribe and writer answer
alike and have the same tape. -/
theorem refusals_leave_no_trace {schema : Schema} {f : Format} (hload : schema.load = .ok f)
    (requests : List Request) :
    let scribe := ((new f).run requests).2
    let writer := ((Writer.new f).run requests).2
    ((new f).run requests).1 = ((Writer.new f).run requests).1.map (.mapError .refused) ∧
      scribe.target = writer.draft.map (·.tape) ∧
      (∀ request failure scribe', Scribe.serve request scribe = .error failure scribe' →
        (∃ reason, failure = .refused reason ∧ ∀ fault, reason ≠ .fault fault) ∧
          scribe'.target = scribe.target ∧
          ∀ later, (scribe'.run later).1 = (scribe.run later).1 ∧
            (scribe'.run later).2.target = (scribe.run later).2.target) ∧
      ((∀ c ∈ f.header, c.value.Fits) → ∀ t, t.growable = true →
        ∃ scribe', Scribe.serve (.bind t) scribe = .ok (.bound scribe.target) scribe') := by
  intro scribe writer
  obtain ⟨hreplies, h, hformat⟩ :=
    (represents_new (Schema.wellFormed_of_load hload)).run requests
  refine ⟨hreplies, h.target_eq, ?_, ?_⟩
  · intro request failure scribe' hserve
    have hfollows := h.serve request
    rw [hserve] at hfollows
    generalize writer.serve request = expected at hfollows
    cases hfollows with
    | refused hreason h' =>
      exact ⟨⟨_, rfl, hreason⟩, h'.target_eq.trans h.target_eq.symm, h.run_eq h'⟩
  · intro hfits t hgrowable
    have hconstants : ∀ c ∈ scribe.format.header, c.value.Fits := by
      rw [show scribe.format = f from h.format_eq.trans hformat]
      exact hfits
    refine ⟨scribe.begun t, ?_⟩
    show EStateM.map Reply.bound (bind t) scribe = _
    rw [EStateM.map, bind_eq_ok hgrowable hconstants]

/-- A refused call of a scribe that has changed its notes: the arguments of the last instruction are
gone. -/
theorem refusals_leave_no_trace_of_sample :
    let scribe := ((new sampleFormat).run [.bind sampleTape, .emit "push" [.u8 5]]).2
    ∃ scribe', Scribe.serve (.emit "push" [.bytes []]) scribe =
        .error (.refused (.invalidArgument "PUSH" "value" .i32)) scribe' ∧
      scribe'.scratch ≠ scribe.scratch ∧ scribe'.target = scribe.target ∧
      ∀ later, (scribe'.run later).1 = (scribe.run later).1 := by
  intro scribe
  obtain ⟨-, -, hrefused, -⟩ :=
    refusals_leave_no_trace (show sampleSchema.load = .ok sampleFormat by decide +kernel)
      [.bind sampleTape, .emit "push" [.u8 5]]
  have hserve : Scribe.serve (.emit "push" [.bytes []]) scribe =
      .error (.refused (.invalidArgument "PUSH" "value" .i32)) { scribe with scratch := [] } := by
    rfl
  obtain ⟨-, htarget, hlater⟩ := hrefused _ _ _ hserve
  refine ⟨_, hserve, ?_, htarget, fun later => (hlater later).1⟩
  decide

end Scribe

end Bytecode
