import Bytecode.Proofs.Dispatch

/-!
# What a lector does to its tape

From when a tape is bound until it is given back or replaced, a lector moves its head and changes
nothing else. The head is where the instructions read so far end (`Source.HasRead`, kept by every
order in `Source.HasRead.serve`), so that the tape is given back with the bytes it came with, and
with its head at an instruction or at the end.

An instruction takes at least its opcode byte. This is why stepping up to the end comes to an end
(`Lector.drains`): it takes no more steps than there are bytes ahead.
-/

namespace Bytecode

variable {σ : Type}

/-! ### Reading on -/

/-- Whether an order leaves the bound tape bound. -/
def Order.keepsTape : Order σ → Bool
  | bind _ | unbind => false
  | _ => true

/-- The bytes of an instruction as it stands in a cartridge. -/
def Decoded.wire (d : Decoded) : List UInt8 := d.instruction.wire d.args

/-- The instruction that comes of an order. -/
def Outcome.decoded? : Except ReadError Outcome → Option Decoded
  | .ok (.decoded d) => some d
  | _ => none

/-- The instructions that come of orders. -/
def decodedIn (outcomes : List (Except ReadError Outcome)) : List Decoded :=
  outcomes.filterMap Outcome.decoded?

theorem decodedIn_cons (outcome : Except ReadError Outcome)
    (outcomes : List (Except ReadError Outcome)) :
    decodedIn (outcome :: outcomes) =
      (Outcome.decoded? outcome).toList ++ decodedIn outcomes := by
  rw [decodedIn, List.filterMap_cons]
  cases Outcome.decoded? outcome <;> rfl

/-- What has become of a tape since it was bound, by reading instructions from it. -/
inductive Source.HasRead (f : Format) (t : Tape) : List Decoded → Source → Prop where
  /-- If the header is not valid, nothing is read. -/
  | rejected {e : ReadError} (hheader : f.readHeader t = .error e) : HasRead f t [] (.rejected t)
  /-- The head has passed over the header and the instructions read. -/
  | opened {header : Header} {t₀ t' : Tape} {read : List Decoded}
    (hheader : f.readHeader t = .ok (header, t₀))
    (hpasses : t₀.Passes (read.flatMap Decoded.wire) t') : HasRead f t read (.opened header t')

namespace Reader

variable {f : Format} {t : Tape} {read : List Decoded} {r r' : Reader (HeaderHandler σ) (Handler σ)}
  {d : Decoded}

theorem hasRead_bind (hr : r.format = f) (t : Tape) :
    (r.serve (.bind t)).reader.source.HasRead f t [] := by
  rw [serve, bind, hr]
  cases hread : f.readHeader t with
  | error e => exact .rejected hread
  | ok opened => exact .opened hread (Tape.Passes.refl _)

/-- Reading an instruction is a passage over its bytes. -/
theorem passes_of_next (h : r.next = .ok (d, r')) :
    ∃ header t t', r.source = .opened header t ∧ r'.source = .opened header t' ∧
      t.Passes d.wire t' := by
  obtain ⟨header, t, t', hsource, hread, rfl⟩ := exists_of_next h
  exact ⟨header, t, t', hsource, rfl, (Format.readInstruction_eq_ok_iff.mp hread).2.2.2⟩

theorem hasRead_of_next (h : r.source.HasRead f t read) (hnext : r.next = .ok (d, r')) :
    r'.source.HasRead f t (read ++ [d]) := by
  obtain ⟨header, t₁, t₂, hsource, hsource', hpasses'⟩ := passes_of_next hnext
  rw [hsource] at h
  cases h with
  | opened hheader hpasses =>
    rw [hsource']
    refine .opened hheader ?_
    rw [List.flatMap_append, List.flatMap_singleton]
    exact hpasses.trans hpasses'

/-- Orders about handlers do not change where a reader reads from, and nothing is read. -/
theorem source_serve_of_not_isReading (r : Reader (HeaderHandler σ) (Handler σ)) {order : Order σ}
    (h : order.isReading = false) :
    (r.serve order).reader.source = r.source ∧
      Outcome.decoded? (r.serve order.quiet).outcome = none := by
  cases order with
  | bind | unbind | step | next => cases h
  | setHeaderHandler handler => exact ⟨rfl, rfl⟩
  | setHandlerByName name handler =>
    simp only [Order.quiet, serve, setHandlerByName]
    cases r.format.instruction? name <;> exact ⟨rfl, rfl⟩
  | setHandlerByOpcode opcode handler =>
    simp only [Order.quiet, serve, setHandlerByOpcode]
    cases r.format.byOpcode? opcode <;> exact ⟨rfl, rfl⟩
  | removeHandler opcode => exact ⟨rfl, rfl⟩

theorem hasRead_serve_next (h : r.source.HasRead f t read) :
    (r.serve .next).reader.source.HasRead f t
      (read ++ (Outcome.decoded? (r.serve .next).outcome).toList) := by
  cases hnext : r.next with
  | error e =>
    rw [serve_next_of_error hnext]
    exact (List.append_nil read).symm ▸ h
  | ok next =>
    rw [serve_next_of_next hnext]
    exact hasRead_of_next h hnext

/-- An order that leaves the tape bound reads on or leaves it as it is. -/
theorem hasRead_serve (h : r.source.HasRead f t read) {order : Order σ}
    (hkeeps : order.keepsTape = true) :
    (r.serve order).reader.source.HasRead f t
      (read ++ (Outcome.decoded? (r.serve order.quiet).outcome).toList) := by
  cases hreading : order.isReading with
  | false =>
    obtain ⟨hsource, hnone⟩ := r.source_serve_of_not_isReading hreading
    rw [hsource, hnone]
    exact (List.append_nil read).symm ▸ h
  | true =>
    cases order with
    | bind | unbind => cases hkeeps
    | step =>
      rw [← reader_serve_quiet]
      exact hasRead_serve_next h
    | next => exact hasRead_serve_next h
    | setHeaderHandler | setHandlerByName | setHandlerByOpcode | removeHandler => cases hreading

/-- Orders that leave the tape bound read on. -/
theorem hasRead_serveAll (h : r.source.HasRead f t read) {orders : List (Order σ)}
    (hkeeps : ∀ order ∈ orders, order.keepsTape = true) :
    (r.serveAll orders).reader.source.HasRead f t
      (read ++ decodedIn (r.serveAll (orders.map Order.quiet)).outcome) := by
  induction orders generalizing r read with
  | nil => exact (List.append_nil read).symm ▸ h
  | cons order orders ih =>
    obtain ⟨horder, horders⟩ := List.forall_mem_cons.mp hkeeps
    show ((r.serve order).reader.serveAll orders).reader.source.HasRead f t
      (read ++ decodedIn ((r.serve order.quiet).outcome ::
        ((r.serve order.quiet).reader.serveAll (orders.map Order.quiet)).outcome))
    -- what the order reads is put behind what has been read before
    rw [decodedIn_cons, reader_serve_quiet, ← List.append_assoc]
    exact ih (hasRead_serve h horder) horders

/-! ### Without a valid header -/

theorem source_serve_bind_of_error {e : ReadError} (h : (r.serve (.bind t)).outcome = .error e) :
    (r.serve (.bind t)).reader.source = .rejected t := by
  rw [serve, bind] at h ⊢
  cases hread : r.format.readHeader t with
  | error e' => rfl
  | ok opened =>
    rw [hread] at h
    cases h

theorem next_of_header?_eq_none (h : r.source.header? = none) : r.next = .error .notBound := by
  unfold next
  cases hsource : r.source with
  | opened header t =>
    rw [hsource] at h
    cases h
  | absent => rfl
  | rejected t => rfl

/-- There is no valid header as long as no tape with a valid header is bound. -/
theorem header?_serve_eq_none (h : r.source.header? = none) {order : Order σ}
    (hbind : ∀ t, order = .bind t → ∃ e, (r.serve order).outcome = .error e) :
    (r.serve order).reader.source.header? = none := by
  cases hreading : order.isReading with
  | false => rwa [(r.source_serve_of_not_isReading hreading).1]
  | true =>
    cases order with
    | bind t =>
      obtain ⟨e, he⟩ := hbind t rfl
      rw [serve, bind] at he ⊢
      cases hread : r.format.readHeader t with
      | error e' => rfl
      | ok opened =>
        rw [hread] at he
        cases he
    | unbind => rfl
    | step => rwa [serve_step_of_error (next_of_header?_eq_none h)]
    | next => rwa [serve_next_of_error (next_of_header?_eq_none h)]
    | setHeaderHandler | setHandlerByName | setHandlerByOpcode | removeHandler => cases hreading

theorem header?_serveAll_eq_none (h : r.source.header? = none) {orders : List (Order σ)}
    (hbind : ∀ t outcome, (Order.bind t, outcome) ∈ orders.zip (r.serveAll orders).outcome →
      ∃ e, outcome = .error e) :
    (r.serveAll orders).reader.source.header? = none := by
  induction orders generalizing r with
  | nil => exact h
  | cons order orders ih =>
    apply ih (r := (r.serve order).reader)
    · apply header?_serve_eq_none h
      rintro t rfl
      exact hbind t _ List.mem_cons_self
    · intro t outcome hmem
      exact hbind t outcome (List.mem_cons_of_mem _ hmem)

end Reader

/-! ### Tapes of lectors -/

namespace Source

variable {f : Format} {t : Tape} {read read' : List Decoded} {source source' : Source}

/-- Whether a tape has a valid header, and which, is settled when it is bound. -/
theorem HasRead.header?_eq (h : source.HasRead f t read) :
    source.header? = (f.readHeader t).toOption.map (·.1) := by
  cases h with
  | rejected hheader => rw [hheader]; rfl
  | opened hheader hpasses => rw [hheader]; rfl

end Source

namespace Lector

variable {f : Format} {t t' : Tape} {read : List Decoded} {s s' : Lector σ}
  {r : Reader (HeaderHandler σ) (Handler σ)}

/-- A lector holds a tape, with its head at `t'`: it is the tape `t` it was given, and its head is
where the instructions read end. -/
structure Holds (t : Tape) (header? : Option Header) (read : List Decoded) (t' : Tape)
    (s : Lector σ) : Prop where
  target_eq : s.target = some t'
  header_eq : s.header = header?
  bytes_eq : t'.bytes = t.bytes
  growable_eq : t'.growable = t.growable
  /-- The tape is there to be given back. -/
  unbind_eq : (s.serve .unbind).1 = .ok (.returned (some t'))
  /-- Without a valid header the head stays where it was. -/
  of_none : header? = none → t' = t
  /-- With a valid header it is as far behind the header as the instructions read are long. -/
  of_some : ∀ header, header? = some header → header.bodyStart ≤ t'.pos ∧ t'.pos ≤ t'.size ∧
    t'.pos - header.bodyStart = (read.map fun d => d.wire.length).sum

theorem length_flatMap_wire (read : List Decoded) :
    (read.flatMap Decoded.wire).length = (read.map fun d => d.wire.length).sum :=
  List.length_flatMap

theorem Represents.exists_holds (h : s.Represents r) (hread : r.source.HasRead f t read) :
    ∃ t', s.Holds t s.header read t' := by
  have htarget := h.target_eq
  have hheader := h.header_eq
  have hunbind (t' : Tape) (ht : s.target = some t') :
      (s.serve .unbind).1 = .ok (.returned (some t')) :=
    congrArg (fun target => Except.ok (Outcome.returned target)) ht
  generalize r.source = source at hread htarget hheader
  cases hread with
  | rejected hbound =>
    refine ⟨t, htarget, rfl, rfl, rfl, hunbind t htarget, fun _ => rfl, ?_⟩
    intro header hsome
    cases hheader.symm.trans hsome
  | @opened header t₀ t' _ hbound hpasses =>
    obtain ⟨⟨-, hbody, -⟩, -, -, -, hpasses₀⟩ := Format.readHeader_eq_ok_iff_passes.mp hbound
    refine ⟨t', htarget, rfl, hpasses.bytes_eq.trans hpasses₀.bytes_eq,
      hpasses.growable_eq.trans hpasses₀.growable_eq, hunbind t' htarget, ?_, ?_⟩
    · intro hnone
      cases hheader.symm.trans hnone
    · intro header' hsome
      cases hheader.symm.trans hsome
      -- the head has passed over the instructions and stands where they end
      have hpos := hpasses.pos_eq
      rw [length_flatMap_wire] at hpos
      have hsize : t'.pos ≤ t'.size := Nat.le_add_right ..
      omega

/-! ### Moving on -/

/-- A lector has moved on over an instruction. -/
structure MovesOver (s : Lector σ) (d : Decoded) (s' : Lector σ) : Prop where
  exists_tapes : ∃ t t', s.target = some t ∧ s'.target = some t' ∧ d.offset = t.pos ∧
    t.Passes d.wire t' ∧ t'.pos = t.pos + d.wire.length
  length_pos : 1 ≤ d.wire.length
  header_eq : s'.header = s.header

/-- To read or to step is to move on over an instruction, or else to stay. -/
structure MovesOn (s : Lector σ) : Prop where
  next_of_ok : ∀ d s', next s = .ok d s' → s.MovesOver d s'
  next_of_error : ∀ e s', next s = .error e s' → s'.target = s.target ∧ s'.header = s.header
  step_of_ok : ∀ s', step s = .ok () s' → ∃ d s'', next s = .ok d s'' ∧ s.MovesOver d s'
  step_of_error : ∀ e s', step s = .error e s' → s'.target = s.target ∧ s'.header = s.header
  /-- Only a bound tape has a header. -/
  exists_target : ∀ header, s.header = some header → ∃ t, s.target = some t

theorem Represents.movesOver (h : s.Represents r) {r' : Reader (HeaderHandler σ) (Handler σ)}
    {d : Decoded} (h' : s'.Represents r') (hnext : r.next = .ok (d, r')) : s.MovesOver d s' := by
  obtain ⟨header, t, t', hsource, hread, rfl⟩ := Reader.exists_of_next hnext
  obtain ⟨hoffset, -, -, hpasses⟩ := Format.readInstruction_eq_ok_iff.mp hread
  have ht : s.target = some t := by rw [h.target_eq, hsource, Source.tape?]
  refine ⟨⟨t, t', ht, h'.target_eq, hoffset, hpasses, hpasses.pos_eq⟩, ?_, ?_⟩
  · -- there is at least the opcode
    exact Nat.le_add_left ..
  · rw [h.header_eq, h'.header_eq, hsource]
    rfl

theorem Represents.movesOn (h : s.Represents r) : s.MovesOn := by
  have hbound : ∀ header, s.header = some header → ∃ t, s.target = some t := by
    intro header hheader
    rw [h.header_eq] at hheader
    rw [h.target_eq]
    cases hsource : r.source with
    | opened header' t => exact ⟨t, rfl⟩
    | absent | rejected t =>
      rw [hsource] at hheader
      cases hheader
  cases hnext : r.next with
  | error e =>
    obtain ⟨args, hstep⟩ := h.step_of_error hnext
    obtain ⟨args', hnext'⟩ := h.next_of_error hnext
    refine ⟨?_, ?_, ?_, ?_, hbound⟩
    · intro d s' hok
      cases hok.symm.trans hnext'
    · intro e' s' herror
      cases herror.symm.trans hnext'
      exact ⟨rfl, rfl⟩
    · intro s' hok
      cases hok.symm.trans hstep
    · intro e' s' herror
      cases herror.symm.trans hstep
      exact ⟨rfl, rfl⟩
  | ok read =>
    obtain ⟨d, r'⟩ := read
    obtain ⟨s₁, hstep, h₁, -⟩ := h.step_of_ok hnext
    obtain ⟨s₂, hnext', h₂, -⟩ := h.next_of_ok hnext
    refine ⟨?_, ?_, ?_, ?_, hbound⟩
    · intro d' s' hok
      cases hok.symm.trans hnext'
      exact h.movesOver h₂ hnext
    · intro e s' herror
      cases herror.symm.trans hnext'
    · intro s' hok
      cases hok.symm.trans hstep
      exact ⟨d, s₂, hnext', h.movesOver h₁ hnext⟩
    · intro e s' herror
      cases herror.symm.trans hstep

/-! ### Idling -/

/-- There is nothing to read. -/
structure Idles (s : Lector σ) : Prop where
  header_eq : s.header = none
  step_eq : step s = .error .notBound s
  next_eq : next s = .error .notBound s
  isFinished_eq : s.isFinished = true

theorem idles_of_header_eq_none (h : s.header = none) : s.Idles where
  header_eq := h
  step_eq := bind_of_error (readInstruction_of_none h) _
  next_eq := by
    refine (bind_of_ok rfl _).trans ?_
    cases ht : s.target with
    | none => rfl
    | some t => exact bind_of_error (readInstruction_of_none h) _
  isFinished_eq := by
    rw [isFinished, h]
    cases s.target <;> rfl

/-! ### Draining -/

theorem remaining_pos (h : s.isFinished = false) : 0 < s.remaining := by
  unfold isFinished at h
  split at h
  · rename_i t _ ht _
    rw [remaining, ht, Option.map_some, Option.getD_some]
    exact Nat.pos_of_ne_zero (by simpa using h)
  · cases h

theorem serveAll_step_of_ok (hstep : step s = .ok () s') (n : ℕ) :
    s.serveAll (List.replicate (n + 1) .step) =
      Prod.map (.ok .done :: ·) id (s'.serveAll (List.replicate n .step)) := by
  rw [List.replicate_succ, serveAll, serve_of_ok (map_of_ok hstep _)]

/-- Draining is stepping, until there is nothing left to read or a step fails, and this comes to an
end within as many steps as there are bytes ahead. -/
structure Drains (s : Lector σ) : Prop where
  steps_le : s.drain.steps ≤ s.remaining
  /-- What comes of draining comes of its steps; only the last of them may fail. -/
  exists_serveAll : ∃ n, s.drain.steps = n + s.drain.failure.toList.length ∧
    s.serveAll (List.replicate s.drain.steps .step) =
      (List.replicate n (.ok .done) ++ s.drain.failure.toList.map .error, s.drain.lector)
  /-- There is something to read as long as it goes on. -/
  isFinished_of_lt : ∀ n < s.drain.steps,
    (s.serveAll (List.replicate n .step)).2.isFinished = false
  /-- There is nothing left to read when it ends without an error. -/
  isFinished_of_none : s.drain.failure = none → s.drain.lector.isFinished = true

theorem drains (s : Lector σ) : s.Drains := by
  induction s using drain.induct with
  | case1 s hfinished =>
    have hdrain := drain_of_isFinished hfinished
    refine ⟨by simp [hdrain], ⟨0, by simp [hdrain, serveAll]⟩, by simp [hdrain], fun _ => ?_⟩
    rwa [hdrain]
  | case2 s hfinished e s' hstep =>
    have hunfinished : s.isFinished = false := by simpa using hfinished
    have hdrain := drain_of_error hunfinished hstep
    have hpos := remaining_pos hunfinished
    have hserve : s.serve .step = (.error e, s') := serve_of_error (map_of_error hstep _)
    have hsteps : s.drain.steps = 1 := by rw [hdrain]
    refine ⟨by omega, ⟨0, by simp [hdrain, serveAll, hserve]⟩, ?_, by simp [hdrain]⟩
    intro n hn
    obtain rfl : n = 0 := by omega
    exact hunfinished
  | case3 s hfinished s' hstep _ ih =>
    have hunfinished : s.isFinished = false := by simpa using hfinished
    have hdrain := drain_of_ok hunfinished hstep
    -- a step leaves fewer bytes ahead, so that one more step is within the bound
    have hlt := remaining_lt_of_step hstep
    have hle := ih.steps_le
    have hsteps : s.drain.steps = s'.drain.steps + 1 := by rw [hdrain]
    obtain ⟨n, hn, hserve⟩ := ih.exists_serveAll
    refine ⟨by omega, ⟨n + 1, ?_, ?_⟩, ?_, ?_⟩
    · rw [hdrain]
      show s'.drain.steps + 1 = n + 1 + s'.drain.failure.toList.length
      omega
    · rw [hsteps, serveAll_step_of_ok hstep, hserve, hdrain]
      rfl
    · intro m hm
      cases m with
      | zero => exact hunfinished
      | succ m =>
        rw [serveAll_step_of_ok hstep]
        exact ih.isFinished_of_lt m (by omega)
    · rw [hdrain]
      exact ih.isFinished_of_none

/-- **A lector reads its tape and does no more to it.** Whatever orders have been given, to read or
to step moves the head over the bytes of the instruction read, which are at least one, or it fails
and leaves head and header as they are; and draining ends within as many steps as there are bytes
ahead.

Let a tape be bound then. As long as it is neither given back nor replaced, it has its bytes and may
be extended if it might before. If it has a valid header, its head is as far behind the header as
the instructions read since are long, which are those that reading yields in the place of the steps.
If it has none, its head is where it was, and there is nothing to read or to step over until a tape
with a valid header is bound. -/
theorem reading_keeps_tape {schema : Schema} (hload : schema.load = .ok f) (world : σ)
    (before : List (Order σ)) :
    let start := after f world before
    start.MovesOn ∧ start.Drains ∧
    ∀ t : Tape,
      let bound := start.serve (.bind t)
      (∀ during, (∀ order ∈ during, order.keepsTape = true) →
        ∃ t', (bound.2.serveAll during).2.Holds t bound.2.header
          (decodedIn (bound.2.serveAll (during.map Order.quiet)).1) t') ∧
      ∀ e, bound.1 = .error e → bound.2.target = some t ∧
        ∀ later, (∀ t' outcome, (Order.bind t', outcome) ∈ later.zip (bound.2.serveAll later).1 →
          ∃ e', outcome = .error e') → (bound.2.serveAll later).2.Idles := by
  intro start
  have hf := Schema.wellFormed_of_load hload
  have h : start.Represents ((Reader.new f).serveAll before).reader :=
    represents_after hf world before
  refine ⟨h.movesOn, start.drains, fun t => ?_⟩
  intro bound
  have hformat : ((Reader.new f).serveAll before).reader.format = f := Reader.format_serveAll _ _
  have hbound := h.serve (.bind t)
  have hread := Reader.hasRead_bind hformat t
  constructor
  · intro during hduring
    have hread' := Reader.hasRead_serveAll hread hduring
    have hall := hbound.represents.serveAll during
    have hquiet := hbound.represents.serveAll (during.map Order.quiet)
    obtain ⟨t', hholds⟩ := hall.represents.exists_holds hread'
    -- whether there is a header, and which, was settled when the tape was bound
    have hheader : (bound.2.serveAll during).2.header = bound.2.header := by
      rw [hall.represents.header_eq, hread'.header?_eq, hbound.represents.header_eq,
        hread.header?_eq]
    rw [hheader, ← hquiet.outcome_eq, List.nil_append] at hholds
    exact ⟨t', hholds⟩
  · intro e he
    have hsource := Reader.source_serve_bind_of_error (hbound.outcome_eq.symm.trans he)
    refine ⟨by rw [hbound.represents.target_eq, hsource, Source.tape?], fun later hlater => ?_⟩
    have hall := hbound.represents.serveAll later
    apply idles_of_header_eq_none
    rw [hall.represents.header_eq]
    apply Reader.header?_serveAll_eq_none (by rw [hsource]; rfl)
    rwa [← hall.outcome_eq]

/-- A step and a read, and a tape with no valid header. -/
theorem reading_keeps_tape_of_sample :
    let start := after sampleFormat () []
    let bound := start.serve (.bind sampleCartridge)
    (∃ t', (bound.2.serveAll [.step, .next]).2.Holds sampleCartridge bound.2.header
      [⟨8, samplePush, [.i32 5]⟩, ⟨13, samplePush, [.i32 7]⟩] t') ∧
      ((start.serve (.bind sampleTape)).2.serveAll [.step, .unbind, .next]).2.Idles := by
  intro start bound
  obtain ⟨-, -, htape⟩ :=
    reading_keeps_tape (show sampleSchema.load = .ok sampleFormat by decide +kernel) () []
  constructor
  · have hread : decodedIn (bound.2.serveAll ([.step, .next].map Order.quiet)).1 =
        [⟨8, samplePush, [.i32 5]⟩, ⟨13, samplePush, [.i32 7]⟩] := by decide +kernel
    rw [← hread]
    exact (htape sampleCartridge).1 [.step, .next] (by decide)
  · have herror : (start.serve (.bind sampleTape)).1 = .error (.corruptHeader "magic") := by
      decide +kernel
    refine ((htape sampleTape).2 _ herror).2 [.step, .unbind, .next] ?_
    intro t' outcome hmem
    simp [serveAll] at hmem

end Lector

end Bytecode
