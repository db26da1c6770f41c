import Bytecode.Proofs.Naming
import Bytecode.Proofs.Recital

/-!
# Orders to readers

A `Reader` that fails is the reader it was, and it tells its owner whom to call instead of calling
anyone. A `Lector` calls handlers itself, and what it has read in part stays in its list of
arguments. That this makes no difference is said by `Lector.Represents.serveAll`: whatever orders
are given, a lector answers what a reader answers, and its world is the one that the reader's events
lead to.

The proof is a simulation. `Lector.Represents` relates a lector to the reader it stands for; it does
not speak of the arguments at hand, so that it does not matter to it what is left of them, and not
of the world, so that what handlers do does not matter either. Each order is followed once
(`Lector.Represents.serve`).

It follows that lectors which stand for the same reader are alike: no later orders tell them apart
(`Lector.Represents.alike`).
-/

namespace Bytecode

/-! ### Orders -/

/-- What a lector can be asked to do. -/
inductive Order (σ : Type) where
  | bind (t : Tape)
  | unbind
  | setHeaderHandler (handler : HeaderHandler σ)
  | setHandlerByName (name : String) (handler : Handler σ)
  | setHandlerByOpcode (opcode : UInt8) (handler : Handler σ)
  | removeHandler (opcode : UInt8)
  | step
  | next

/-- Whether an order is about the tape or its instructions, and not about handlers. -/
def Order.isReading {σ : Type} : Order σ → Bool
  | bind _ | unbind | step | next => true
  | _ => false

/-- What comes of an order that is carried out. -/
inductive Outcome where
  | done
  /-- The tape that was bound is given back. -/
  | returned (tape : Option Tape)
  | decoded (d : Decoded)
deriving DecidableEq, Repr

variable {σ : Type}

/-- The work that an order asks for. -/
def Order.work : Order σ → Lector.Work σ Outcome
  | bind t => (fun _ => .done) <$> Lector.bind t
  | unbind => .returned <$> Lector.unbind
  | setHeaderHandler handler => (fun _ => .done) <$> Lector.setHeaderHandler handler
  | setHandlerByName name handler => (fun _ => .done) <$> Lector.setHandlerByName name handler
  | setHandlerByOpcode opcode handler =>
    (fun _ => .done) <$> Lector.setHandlerByOpcode opcode handler
  | removeHandler opcode => (fun _ => .done) <$> Lector.removeHandler opcode
  | step => (fun _ => .done) <$> Lector.step
  | next => .decoded <$> Lector.next

namespace Lector

/-- Serves an order, whatever comes of it. -/
def serve (s : Lector σ) (order : Order σ) : Except ReadError Outcome × Lector σ :=
  match order.work s with
  | .ok outcome s' => (.ok outcome, s')
  | .error e s' => (.error e, s')

/-- Serves orders one after another, whatever comes of them. -/
def serveAll (s : Lector σ) : List (Order σ) → List (Except ReadError Outcome) × Lector σ
  | [] => ([], s)
  | order :: orders =>
    let served := s.serve order
    Prod.map (served.1 :: ·) id (served.2.serveAll orders)

end Lector

/-! ### Orders to readers -/

/-- What the call of a handler does to the world. -/
def Event.perform : Event (HeaderHandler σ) (Handler σ) → σ → σ
  | .header handler h => handler h
  | .instruction handler args => handler args

/-- What calls of handlers, one after another, do to the world. -/
def performAll (events : List (Event (HeaderHandler σ) (Handler σ))) (world : σ) : σ :=
  events.foldl (fun world event => event.perform world) world

/-- What comes of serving orders without calling handlers. -/
structure Service (α σ : Type) where
  outcome : α
  /-- The calls that are due. -/
  events : List (Event (HeaderHandler σ) (Handler σ))
  reader : Reader (HeaderHandler σ) (Handler σ)

namespace Reader

/-- Serves an order. -/
def serve (r : Reader (HeaderHandler σ) (Handler σ)) :
    Order σ → Service (Except ReadError Outcome) σ
  | .bind t =>
    match r.bind t with
    | (.ok event, r') => ⟨.ok .done, event.toList, r'⟩
    | (.error e, r') => ⟨.error e, [], r'⟩
  | .unbind => ⟨.ok (.returned r.unbind.1), [], r.unbind.2⟩
  | .setHeaderHandler handler => ⟨.ok .done, [], r.setHeaderHandler handler⟩
  | .setHandlerByName name handler =>
    match r.setHandlerByName name handler with
    | .ok r' => ⟨.ok .done, [], r'⟩
    | .error e => ⟨.error e, [], r⟩
  | .setHandlerByOpcode opcode handler =>
    match r.setHandlerByOpcode opcode handler with
    | .ok r' => ⟨.ok .done, [], r'⟩
    | .error e => ⟨.error e, [], r⟩
  | .removeHandler opcode => ⟨.ok .done, [], r.removeHandler opcode⟩
  | .step =>
    match r.step with
    | .ok (event, r') => ⟨.ok .done, event.toList, r'⟩
    | .error e => ⟨.error e, [], r⟩
  | .next =>
    match r.next with
    | .ok (d, r') => ⟨.ok (.decoded d), [], r'⟩
    | .error e => ⟨.error e, [], r⟩

/-- Serves orders one after another, whatever comes of them. -/
def serveAll (r : Reader (HeaderHandler σ) (Handler σ)) :
    List (Order σ) → Service (List (Except ReadError Outcome)) σ
  | [] => ⟨[], [], r⟩
  | order :: orders =>
    let served := r.serve order
    let rest := served.reader.serveAll orders
    ⟨served.outcome :: rest.outcome, served.events ++ rest.events, rest.reader⟩

/-! ### What readers do -/

variable {η ι : Type} {r : Reader η ι}

theorem lookup_cons_eq_ite (opcode : UInt8) (label : ι) (handlers : List (UInt8 × ι))
    (opcode' : UInt8) :
    ((opcode, label) :: handlers).lookup opcode' =
      if opcode = opcode' then some label else handlers.lookup opcode' := by
  rw [List.lookup_cons]
  split
  · rename_i h
    rw [if_pos (eq_of_beq h).symm]
  · rename_i h
    rw [if_neg (ne_of_beq_false h).symm]

theorem handler?_removeHandler (opcode opcode' : UInt8) :
    (r.removeHandler opcode).handler? opcode' =
      if opcode = opcode' then none else r.handler? opcode' := by
  have hfilter (handlers : List (UInt8 × ι)) :
      (handlers.filter (·.1 != opcode)).lookup opcode' =
        if opcode = opcode' then none else handlers.lookup opcode' := by
    -- an entry to be removed may stand anywhere, so this is an induction on the entries
    induction handlers with
    | nil => simp
    | cons entry handlers ih =>
      obtain ⟨opcode₁, label⟩ := entry
      rw [lookup_cons_eq_ite, List.filter_cons]
      by_cases hremoved : opcode₁ = opcode
      · rw [if_neg (by simp [hremoved]), ih, hremoved]
        split <;> rfl
      · rw [if_pos (by simp [hremoved]), lookup_cons_eq_ite, ih]
        by_cases hfound : opcode₁ = opcode'
        · simp [← hfound, Ne.symm hremoved]
        · simp [hfound]
  exact hfilter r.handlers

theorem handler?_setHandler (opcode : UInt8) (label : ι) (opcode' : UInt8) :
    (r.setHandler opcode label).handler? opcode' =
      if opcode = opcode' then some label else r.handler? opcode' := by
  refine (lookup_cons_eq_ite opcode label _ opcode').trans ?_
  split
  · rfl
  · rename_i hne
    exact (handler?_removeHandler opcode opcode').trans (if_neg hne)

variable {r' : Reader η ι} {d : Decoded} {e : ReadError}

theorem exists_of_next (h : r.next = .ok (d, r')) :
    ∃ header t t', r.source = .opened header t ∧ r.format.readInstruction t = .ok (d, t') ∧
      r' = { r with source := .opened header t' } := by
  unfold next at h
  split at h
  · obtain ⟨⟨d', t'⟩, hread, h⟩ := except_bind_eq_ok_iff.mp h
    cases h
    exact ⟨_, _, t', ‹_›, hread, rfl⟩
  · cases h

theorem of_next_eq_error (h : r.next = .error e) :
    (r.source.header? = none ∧ e = .notBound) ∨
      ∃ header t, r.source = .opened header t ∧ r.format.readInstruction t = .error e := by
  unfold next at h
  split at h
  · rename_i header t hsource
    cases hread : r.format.readInstruction t with
    | ok read =>
      rw [hread] at h
      cases h
    | error e' =>
      rw [hread] at h
      cases h
      exact Or.inr ⟨header, t, hsource, hread⟩
  · rename_i hsource
    cases h
    refine Or.inl ⟨?_, rfl⟩
    cases hr : r.source with
    | opened header t => exact absurd hr (hsource header t)
    | absent => rfl
    | rejected t => rfl

section

variable {r r' : Reader (HeaderHandler σ) (Handler σ)}

theorem serve_next_of_next (h : r.next = .ok (d, r')) :
    r.serve .next = ⟨.ok (.decoded d), [], r'⟩ := by
  simp only [serve, h]

theorem serve_next_of_error (h : r.next = .error e) : r.serve .next = ⟨.error e, [], r⟩ := by
  simp only [serve, h]

theorem serve_step_of_next (h : r.next = .ok (d, r')) :
    r.serve .step = ⟨.ok .done, (r'.dispatch d).toList, r'⟩ := by
  simp [serve, step, h, Bind.bind, Except.bind, Pure.pure, Except.pure]

theorem serve_step_of_error (h : r.next = .error e) : r.serve .step = ⟨.error e, [], r⟩ := by
  simp [serve, step, h, Bind.bind, Except.bind]

end

/-- Orders about tapes and instructions change nothing but where a reader reads from. -/
theorem reader_serve_of_isReading (r : Reader (HeaderHandler σ) (Handler σ)) {order : Order σ}
    (h : order.isReading = true) :
    (r.serve order).reader = { r with source := (r.serve order).reader.source } := by
  cases order with
  | bind t =>
    rw [serve, bind]
    cases r.format.readHeader t <;> rfl
  | unbind => rfl
  | step =>
    cases hnext : r.next with
    | error e => rw [serve_step_of_error hnext]
    | ok read =>
      obtain ⟨header, t, t', -, -, hr⟩ := exists_of_next hnext
      rw [serve_step_of_next hnext, hr]
  | next =>
    cases hnext : r.next with
    | error e => rw [serve_next_of_error hnext]
    | ok read =>
      obtain ⟨header, t, t', -, -, hr⟩ := exists_of_next hnext
      rw [serve_next_of_next hnext, hr]
  | setHeaderHandler handler => cases h
  | setHandlerByName name handler => cases h
  | setHandlerByOpcode opcode handler => cases h
  | removeHandler opcode => cases h

theorem format_serve (r : Reader (HeaderHandler σ) (Handler σ)) (order : Order σ) :
    (r.serve order).reader.format = r.format := by
  cases order with
  | bind | unbind | step | next =>
    rw [reader_serve_of_isReading]
    rfl
  | setHeaderHandler handler => rfl
  | setHandlerByName name handler =>
    rw [serve, setHandlerByName]
    cases r.format.instruction? name <;> rfl
  | setHandlerByOpcode opcode handler =>
    rw [serve, setHandlerByOpcode]
    cases r.format.byOpcode? opcode <;> rfl
  | removeHandler opcode => rfl

theorem format_serveAll (r : Reader (HeaderHandler σ) (Handler σ)) (orders : List (Order σ)) :
    (r.serveAll orders).reader.format = r.format := by
  induction orders generalizing r with
  | nil => rfl
  | cons order orders ih => exact (ih _).trans (format_serve r order)

end Reader

/-! ### A lector stands for a reader -/

namespace Lector

variable {s s' : Lector σ} {r : Reader (HeaderHandler σ) (Handler σ)}

theorem serve_of_ok {order : Order σ} {outcome : Outcome} (h : order.work s = .ok outcome s') :
    s.serve order = (.ok outcome, s') := by
  rw [serve, h]

theorem serve_of_error {order : Order σ} {e : ReadError} (h : order.work s = .error e s') :
    s.serve order = (.error e, s') := by
  rw [serve, h]

/-- A lector stands for a reader. -/
structure Represents (s : Lector σ) (r : Reader (HeaderHandler σ) (Handler σ)) : Prop where
  format_eq : s.format = r.format
  wellFormed : s.format.WellFormed
  assigns : s.Assigns
  size_eq : s.handlers.size = s.format.opcodeCount
  handlers_eq : ∀ opcode, s.handlers.get? opcode = r.handler? opcode
  headerHandler_eq : s.headerHandler = r.headerHandler
  target_eq : s.target = r.source.tape?
  header_eq : s.header = r.source.header?

/-- What a lector answers and what it leaves is what a reader answers and leaves, and its world is
that of before after the calls that are due. -/
structure Matches {α : Type} (world : σ) (served : α × Lector σ) (service : Service α σ) :
    Prop where
  outcome_eq : served.1 = service.outcome
  represents : served.2.Represents service.reader
  world_eq : served.2.world = performAll service.events world

theorem represents_new {f : Format} (hf : f.WellFormed) (world : σ) :
    (new f world).Represents (Reader.new f) where
  format_eq := rfl
  wellFormed := hf
  assigns := by
    intro opcode
    ext i
    have hroom : ∀ i ∈ f.instructions, i.opcode.toNat < f.opcodeCount :=
      Format.opcodeCount_le_iff.mp le_rfl
    show Table.get? (.fill ..) opcode = some i ↔ _
    -- opcodes are distinct and there is room for all, so the table holds what a search finds
    rw [Table.get?_fill_blank_eq_some_iff hf.nodup_opcodes hroom]
    refine Iff.trans ?_ (Format.byOpcode?_eq_some_iff hf).symm
    simp only [id_eq, exists_eq_right_right]
  size_eq := Table.size_blank _
  handlers_eq opcode := Table.get?_blank _ opcode
  headerHandler_eq := rfl
  target_eq := rfl
  header_eq := rfl

/-! ### Handlers -/

theorem Represents.install (h : s.Represents r) {i : Instruction} (hi : i ∈ s.format.instructions)
    (handler : Handler σ) :
    (s.install i.opcode handler).Represents (r.setHandler i.opcode handler) :=
  { h with
    size_eq := (Table.size_put ..).trans h.size_eq
    handlers_eq := by
      intro opcode
      have hroom : i.opcode.toNat < s.handlers.size := by
        rw [h.size_eq]
        exact Format.opcodeCount_le_iff.mp le_rfl i hi
      rw [Reader.handler?_setHandler, ← h.handlers_eq]
      exact Table.get?_put hroom handler opcode }

theorem Represents.serve_setHeaderHandler (h : s.Represents r) (handler : HeaderHandler σ) :
    Matches s.world (s.serve (.setHeaderHandler handler))
      (r.serve (.setHeaderHandler handler)) where
  outcome_eq := rfl
  represents := { h with headerHandler_eq := rfl }
  world_eq := rfl

theorem serve_setHandlerByName_of_some {name : String} {i : Instruction}
    (hi : s.format.instruction? name = some i) (handler : Handler σ) :
    s.serve (.setHandlerByName name handler) = (.ok .done, s.install i.opcode handler) := by
  have hwork : setHandlerByName name handler s = .ok () (s.install i.opcode handler) := by
    refine (bind_of_ok rfl _).trans ?_
    simp only [hi]
    rfl
  exact serve_of_ok (map_of_ok hwork _)

theorem serve_setHandlerByName_of_none {name : String} (hi : s.format.instruction? name = none)
    (handler : Handler σ) :
    s.serve (.setHandlerByName name handler) = (.error (.unknownInstruction name), s) := by
  have hwork : setHandlerByName name handler s = .error (.unknownInstruction name) s := by
    refine (bind_of_ok rfl _).trans ?_
    simp only [hi]
    rfl
  exact serve_of_error (map_of_error hwork _)

theorem Represents.serve_setHandlerByName (h : s.Represents r) (name : String)
    (handler : Handler σ) :
    Matches s.world (s.serve (.setHandlerByName name handler))
      (r.serve (.setHandlerByName name handler)) := by
  cases hi : s.format.instruction? name with
  | none =>
    rw [serve_setHandlerByName_of_none hi]
    simp only [Reader.serve, Reader.setHandlerByName, ← h.format_eq, hi]
    exact ⟨rfl, h, rfl⟩
  | some i =>
    rw [serve_setHandlerByName_of_some hi]
    simp only [Reader.serve, Reader.setHandlerByName, ← h.format_eq, hi]
    exact ⟨rfl, h.install (List.mem_of_find?_eq_some hi) handler, rfl⟩

theorem Assigns.serve_setHandlerByOpcode_of_some (h : s.Assigns) {opcode : UInt8} {i : Instruction}
    (hi : s.format.byOpcode? opcode = some i) (handler : Handler σ) :
    s.serve (.setHandlerByOpcode opcode handler) = (.ok .done, s.install opcode handler) := by
  have hwork : setHandlerByOpcode opcode handler s = .ok () (s.install opcode handler) :=
    bind_of_ok (h.assigned_of_some hi) _
  exact serve_of_ok (map_of_ok hwork _)

theorem Assigns.serve_setHandlerByOpcode_of_none (h : s.Assigns) {opcode : UInt8}
    (hi : s.format.byOpcode? opcode = none) (handler : Handler σ) :
    s.serve (.setHandlerByOpcode opcode handler) = (.error (.unknownOpcode opcode), s) :=
  serve_of_error (map_of_error (bind_of_error (h.assigned_of_none hi) _) _)

theorem Represents.serve_setHandlerByOpcode (h : s.Represents r) (opcode : UInt8)
    (handler : Handler σ) :
    Matches s.world (s.serve (.setHandlerByOpcode opcode handler))
      (r.serve (.setHandlerByOpcode opcode handler)) := by
  cases hi : s.format.byOpcode? opcode with
  | none =>
    rw [h.assigns.serve_setHandlerByOpcode_of_none hi]
    simp only [Reader.serve, Reader.setHandlerByOpcode, ← h.format_eq, hi]
    exact ⟨rfl, h, rfl⟩
  | some i =>
    rw [h.assigns.serve_setHandlerByOpcode_of_some hi]
    simp only [Reader.serve, Reader.setHandlerByOpcode, ← h.format_eq, hi]
    obtain rfl := Format.opcode_of_byOpcode? hi
    exact ⟨rfl, h.install (List.mem_of_find?_eq_some hi) handler, rfl⟩

theorem Represents.serve_removeHandler (h : s.Represents r) (opcode : UInt8) :
    Matches s.world (s.serve (.removeHandler opcode)) (r.serve (.removeHandler opcode)) where
  outcome_eq := rfl
  represents :=
    { h with
      size_eq := (Table.size_clear ..).trans h.size_eq
      handlers_eq := fun opcode' => by
        refine (Table.get?_clear s.handlers opcode opcode').trans ?_
        rw [h.handlers_eq]
        exact (r.handler?_removeHandler opcode opcode').symm }
  world_eq := rfl

/-! ### Tapes -/

variable {t t' : Tape} {header : Header} {e : ReadError}

theorem Represents.exists_bind_eq_ok (h : s.Represents r)
    (hread : r.format.readHeader t = .ok (header, t')) :
    ∃ s', bind t s = .ok () s' ∧ s'.Represents { r with source := .opened header t' } ∧
      s'.world = performAll (r.headerHandler.map (Event.header · header)).toList s.world := by
  refine ⟨_, bind_of_readHeader_ok (h.format_eq.symm ▸ hread),
    { h with target_eq := rfl, header_eq := rfl }, ?_⟩
  rw [← h.headerHandler_eq]
  cases s.headerHandler <;> rfl

theorem Represents.exists_bind_eq_error (h : s.Represents r)
    (hread : r.format.readHeader t = .error e) :
    ∃ s', bind t s = .error e s' ∧ s'.Represents { r with source := .rejected t } ∧
      s'.world = s.world :=
  ⟨_, bind_of_readHeader_error (h.format_eq.symm ▸ hread),
    { h with target_eq := rfl, header_eq := rfl }, rfl⟩

theorem Represents.serve_bind (h : s.Represents r) (t : Tape) :
    Matches s.world (s.serve (.bind t)) (r.serve (.bind t)) := by
  cases hread : r.format.readHeader t with
  | error e =>
    obtain ⟨s', hbind, hrepresents, hworld⟩ := h.exists_bind_eq_error hread
    rw [serve_of_error (map_of_error hbind _)]
    simp only [Reader.serve, Reader.bind, hread]
    exact ⟨rfl, hrepresents, hworld⟩
  | ok opened =>
    obtain ⟨s', hbind, hrepresents, hworld⟩ := h.exists_bind_eq_ok hread
    rw [serve_of_ok (map_of_ok hbind _)]
    simp only [Reader.serve, Reader.bind, hread]
    exact ⟨rfl, hrepresents, hworld⟩

theorem Represents.serve_unbind (h : s.Represents r) :
    Matches s.world (s.serve .unbind) (r.serve .unbind) where
  outcome_eq := congrArg (fun target => Except.ok (Outcome.returned target)) h.target_eq
  represents := { h with target_eq := rfl, header_eq := rfl }
  world_eq := rfl

/-! ### Instructions -/

/-- An instruction that a reader reads is read in place too, whatever arguments are at hand. -/
theorem Represents.readInstruction_of_ok (h : s.Represents r) {d : Decoded}
    {r' : Reader (HeaderHandler σ) (Handler σ)} (hnext : r.next = .ok (d, r')) :
    ∃ t t', s.target = some t ∧ d.offset = t.pos ∧
      readInstruction s = .ok d.instruction { s with args := d.args, target := some t' } ∧
      ∀ args world, Represents { s with args := args, target := some t', world := world } r' := by
  obtain ⟨header, t, t', hsource, hread, rfl⟩ := Reader.exists_of_next hnext
  have hheader : s.header = some header := by rw [h.header_eq, hsource, Source.header?]
  have ht : s.target = some t := by rw [h.target_eq, hsource, Source.tape?]
  rw [← h.format_eq] at hread
  refine ⟨t, t', ht, (Format.readInstruction_eq_ok_iff.mp hread).1,
    h.assigns.readInstruction_of_ok hheader ht hread, fun args world => ?_⟩
  exact { h with target_eq := rfl, header_eq := hheader }

theorem Represents.readInstruction_of_error (h : s.Represents r) {e : ReadError}
    (hnext : r.next = .error e) : ∃ args, readInstruction s = .error e { s with args := args } := by
  rcases Reader.of_next_eq_error hnext with ⟨hsource, rfl⟩ | ⟨header, t, hsource, hread⟩
  · exact ⟨s.args, Lector.readInstruction_of_none (h.header_eq.trans hsource)⟩
  · have hheader : s.header = some header := by rw [h.header_eq, hsource, Source.header?]
    have ht : s.target = some t := by rw [h.target_eq, hsource, Source.tape?]
    rw [← h.format_eq] at hread
    exact h.assigns.readInstruction_of_error hheader ht hread

theorem Represents.withArgs (h : s.Represents r) (args : List Value) :
    Represents { s with args := args } r := { h with }

theorem call_eq (s : Lector σ) (opcode : UInt8) :
    call opcode s = .ok () { s with
      world := performAll ((s.handlers.get? opcode).map (Event.instruction · s.args)).toList
        s.world } := by
  show EStateM.Result.ok () _ = _
  dsimp only
  cases s.handlers.get? opcode <;> rfl

variable {d : Decoded} {r' : Reader (HeaderHandler σ) (Handler σ)}

/-- A step calls the handler that is due, with the arguments of the instruction read. -/
theorem Represents.step_of_ok (h : s.Represents r) (hnext : r.next = .ok (d, r')) :
    ∃ s', step s = .ok () s' ∧ s'.Represents r' ∧
      s'.world = performAll (r'.dispatch d).toList s.world := by
  obtain ⟨t, t', -, -, hread, hrepresents⟩ := h.readInstruction_of_ok hnext
  -- the arguments at hand are those of the instruction by now, whatever they were before
  have hdue := (hrepresents d.args s.world).handlers_eq d.instruction.opcode
  refine ⟨_, (bind_of_ok hread _).trans (call_eq _ _), hrepresents d.args _, ?_⟩
  rw [Reader.dispatch, ← hdue]

theorem Represents.step_of_error (h : s.Represents r) (hnext : r.next = .error e) :
    ∃ args, step s = .error e { s with args := args } := by
  obtain ⟨args, hread⟩ := h.readInstruction_of_error hnext
  exact ⟨args, bind_of_error hread _⟩

/-- What is returned is what was read; it does not stay at hand. -/
theorem Represents.next_of_ok (h : s.Represents r) (hnext : r.next = .ok (d, r')) :
    ∃ s', next s = .ok d s' ∧ s'.Represents r' ∧ s'.world = s.world := by
  obtain ⟨t, t', ht, hoffset, hread, hrepresents⟩ := h.readInstruction_of_ok hnext
  refine ⟨{ s with args := [], target := some t' }, (bind_of_ok rfl _).trans ?_,
    hrepresents [] s.world, rfl⟩
  simp only [ht]
  refine (bind_of_ok hread _).trans ?_
  rw [← hoffset]
  rfl

theorem Represents.next_of_error (h : s.Represents r) (hnext : r.next = .error e) :
    ∃ args, next s = .error e { s with args := args } := by
  cases ht : s.target with
  | none =>
    rcases Reader.of_next_eq_error hnext with ⟨-, rfl⟩ | ⟨header, t, hsource, -⟩
    · refine ⟨s.args, (bind_of_ok rfl _).trans ?_⟩
      simp only [ht]
      rw [← ht]
      rfl
    · rw [h.target_eq, hsource] at ht
      cases ht
  | some t =>
    obtain ⟨args, hread⟩ := h.readInstruction_of_error hnext
    refine ⟨args, (bind_of_ok rfl _).trans ?_⟩
    simp only [ht]
    rw [← ht]
    exact bind_of_error hread _

theorem Represents.serve_step (h : s.Represents r) :
    Matches s.world (s.serve .step) (r.serve .step) := by
  cases hnext : r.next with
  | error e =>
    obtain ⟨args, hstep⟩ := h.step_of_error hnext
    rw [serve_of_error (map_of_error hstep _), Reader.serve_step_of_error hnext]
    exact ⟨rfl, h.withArgs args, rfl⟩
  | ok read =>
    obtain ⟨s', hstep, hrepresents, hworld⟩ := h.step_of_ok hnext
    rw [serve_of_ok (map_of_ok hstep _), Reader.serve_step_of_next hnext]
    exact ⟨rfl, hrepresents, hworld⟩

theorem Represents.serve_next (h : s.Represents r) :
    Matches s.world (s.serve .next) (r.serve .next) := by
  cases hnext : r.next with
  | error e =>
    obtain ⟨args, hnext'⟩ := h.next_of_error hnext
    rw [serve_of_error (map_of_error hnext' _), Reader.serve_next_of_error hnext]
    exact ⟨rfl, h.withArgs args, rfl⟩
  | ok read =>
    obtain ⟨s', hnext', hrepresents, hworld⟩ := h.next_of_ok hnext
    rw [serve_of_ok (map_of_ok hnext' _), Reader.serve_next_of_next hnext]
    exact ⟨rfl, hrepresents, hworld⟩

/-! ### All orders -/

/-- A lector answers an order as the reader that it stands for. -/
theorem Represents.serve (h : s.Represents r) (order : Order σ) :
    Matches s.world (s.serve order) (r.serve order) := by
  cases order with
  | bind t => exact h.serve_bind t
  | unbind => exact h.serve_unbind
  | setHeaderHandler handler => exact h.serve_setHeaderHandler handler
  | setHandlerByName name handler => exact h.serve_setHandlerByName name handler
  | setHandlerByOpcode opcode handler => exact h.serve_setHandlerByOpcode opcode handler
  | removeHandler opcode => exact h.serve_removeHandler opcode
  | step => exact h.serve_step
  | next => exact h.serve_next

theorem performAll_append (events events' : List (Event (HeaderHandler σ) (Handler σ)))
    (world : σ) :
    performAll (events ++ events') world = performAll events' (performAll events world) :=
  List.foldl_append

/-- A lector answers orders as the reader that it stands for. -/
theorem Represents.serveAll (h : s.Represents r) (orders : List (Order σ)) :
    Matches s.world (s.serveAll orders) (r.serveAll orders) := by
  induction orders generalizing s r with
  | nil => exact ⟨rfl, h, rfl⟩
  | cons order orders ih =>
    -- the reader that one order leaves is the one that the next order is given to
    have hserve := h.serve order
    have hrest := ih hserve.represents
    refine ⟨?_, hrest.represents, ?_⟩
    · exact congrArg₂ List.cons hserve.outcome_eq hrest.outcome_eq
    · exact hrest.world_eq.trans (by rw [Reader.serveAll, performAll_append, hserve.world_eq])

/-- The lector for a format that orders lead to. -/
def after (f : Format) (world : σ) (orders : List (Order σ)) : Lector σ :=
  ((new f world).serveAll orders).2

variable {f : Format}

theorem represents_after (hf : f.WellFormed) (world : σ) (orders : List (Order σ)) :
    (after f world orders).Represents ((Reader.new f).serveAll orders).reader :=
  ((represents_new hf world).serveAll orders).represents

theorem format_after (hf : f.WellFormed) (world : σ) (orders : List (Order σ)) :
    (after f world orders).format = f :=
  (represents_after hf world orders).format_eq.trans (Reader.format_serveAll _ orders)

/-! ### Lectors that are alike -/

/-- No orders tell two lectors apart, once they act on the same world: the answers are the same, and
so are afterwards the bound tape, its header and the world. -/
def Alike (s s' : Lector σ) : Prop :=
  ∀ (orders : List (Order σ)) (world : σ),
    let ran := serveAll { s with world := world } orders
    let ran' := serveAll { s' with world := world } orders
    ran.1 = ran'.1 ∧ ran.2.target = ran'.2.target ∧ ran.2.header = ran'.2.header ∧
      ran.2.world = ran'.2.world

theorem Represents.withWorld (h : s.Represents r) (world : σ) :
    Represents { s with world := world } r := { h with }

/-- Lectors that stand for the same reader are alike. -/
theorem Represents.alike (h : s.Represents r) (h' : s'.Represents r) : s.Alike s' := by
  intro orders world
  have hran := (h.withWorld world).serveAll orders
  have hran' := (h'.withWorld world).serveAll orders
  exact ⟨hran.outcome_eq.trans hran'.outcome_eq.symm,
    hran.represents.target_eq.trans hran'.represents.target_eq.symm,
    hran.represents.header_eq.trans hran'.represents.header_eq.symm,
    hran.world_eq.trans hran'.world_eq.symm⟩

end Lector

end Bytecode
