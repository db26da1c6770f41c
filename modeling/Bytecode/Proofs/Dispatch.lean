import Bytecode.Proofs.Canonical
import Bytecode.Proofs.Orders

/-!
# Stepping is reading and dispatching

A lector that steps reads the instruction that `next` returns and calls the handler installed last
for its opcode, if it has not been removed since, with the arguments that `next` returns; where
`next` fails a step fails too, and calls nothing (`Lector.step_is_next_and_call`).

Which handler that is depends on the orders given before and on nothing else: `handlerAfter` says it
without a lector. So the calls made in the course of a run can be told from its orders and from what
`next` yields in the place of each step (`callsFrom`).
-/

namespace Bytecode

variable {σ : Type}

/-! ### Handlers by history -/

namespace Order

/-- What an order changes about the handler of an opcode: it installs one or removes it. -/
def change? (f : Format) (opcode : UInt8) : Order σ → Option (Option (Handler σ))
  | setHandlerByName name handler =>
    if (f.instruction? name).map (·.opcode) = some opcode then some (some handler) else none
  | setHandlerByOpcode opcode' handler =>
    if opcode' = opcode ∧ (f.byOpcode? opcode').isSome then some (some handler) else none
  | removeHandler opcode' => if opcode' = opcode then some none else none
  | _ => none

/-- The header handler that an order installs. -/
def headerChange? : Order σ → Option (HeaderHandler σ)
  | setHeaderHandler handler => some handler
  | _ => none

/-- The order to read without calling handlers, in the place of a step. -/
def quiet : Order σ → Order σ
  | step => next
  | order => order

end Order

/-- The handler of an opcode after orders: the one installed last, if it has not been removed
since. -/
def handlerAfter (f : Format) (orders : List (Order σ)) (opcode : UInt8) : Option (Handler σ) :=
  (orders.reverse.findSome? (Order.change? f opcode)).join

/-- The header handler after orders: the one installed last. -/
def headerHandlerAfter (orders : List (Order σ)) : Option (HeaderHandler σ) :=
  orders.reverse.findSome? Order.headerChange?

/-- The call that is due upon an order, given what comes of it when no handlers are called. -/
def Order.call? (f : Format) (before : List (Order σ)) :
    Order σ → Except ReadError Outcome → Option (Event (HeaderHandler σ) (Handler σ))
  | bind t, .ok _ =>
    match f.readHeader t with
    | .ok (header, _) => (headerHandlerAfter before).map (Event.header · header)
    | .error _ => none
  | step, .ok (.decoded d) =>
    (handlerAfter f before d.instruction.opcode).map (Event.instruction · d.args)
  | _, _ => none

/-- The calls that are due upon orders, given what comes of each when no handlers are called. -/
def callsFrom (f : Format) (before : List (Order σ)) :
    List (Order σ × Except ReadError Outcome) → List (Event (HeaderHandler σ) (Handler σ))
  | [] => []
  | (order, outcome) :: rest =>
    (order.call? f before outcome).toList ++ callsFrom f (before ++ [order]) rest

theorem handlerAfter_concat (f : Format) (before : List (Order σ)) (order : Order σ)
    (opcode : UInt8) :
    handlerAfter f (before ++ [order]) opcode =
      (order.change? f opcode).getD (handlerAfter f before opcode) := by
  rw [handlerAfter, List.reverse_concat, List.findSome?_cons]
  cases order.change? f opcode <;> rfl

theorem headerHandlerAfter_concat (before : List (Order σ)) (order : Order σ) :
    headerHandlerAfter (before ++ [order]) =
      order.headerChange?.or (headerHandlerAfter before) := by
  rw [headerHandlerAfter, List.reverse_concat, List.findSome?_cons]
  cases order.headerChange? <;> rfl

namespace Reader

variable {f : Format} {before : List (Order σ)} {r : Reader (HeaderHandler σ) (Handler σ)}

theorem handler?_serve (r : Reader (HeaderHandler σ) (Handler σ)) (order : Order σ)
    (opcode : UInt8) :
    (r.serve order).reader.handler? opcode =
      (order.change? r.format opcode).getD (r.handler? opcode) := by
  cases order with
  | bind | unbind | step | next =>
    rw [reader_serve_of_isReading]
    · rfl
    · rfl
  | setHeaderHandler handler => rfl
  | setHandlerByName name handler =>
    rw [serve, setHandlerByName, Order.change?]
    cases r.format.instruction? name with
    | none => rfl
    | some i =>
      simp only [handler?_setHandler, Option.map_some, Option.some.injEq]
      split <;> rfl
  | setHandlerByOpcode opcode' handler =>
    rw [serve, setHandlerByOpcode, Order.change?]
    cases r.format.byOpcode? opcode' with
    | none => simp
    | some i =>
      simp only [handler?_setHandler, Option.isSome_some, and_true]
      split <;> rfl
  | removeHandler opcode' =>
    rw [serve, Order.change?]
    simp only [handler?_removeHandler]
    split <;> rfl

theorem headerHandler_serve (r : Reader (HeaderHandler σ) (Handler σ)) (order : Order σ) :
    (r.serve order).reader.headerHandler = order.headerChange?.or r.headerHandler := by
  cases order with
  | bind | unbind | step | next =>
    rw [reader_serve_of_isReading]
    · rfl
    · rfl
  | setHeaderHandler handler => rfl
  | setHandlerByName name handler =>
    rw [serve, setHandlerByName]
    cases r.format.instruction? name <;> rfl
  | setHandlerByOpcode opcode handler =>
    rw [serve, setHandlerByOpcode]
    cases r.format.byOpcode? opcode <;> rfl
  | removeHandler opcode => rfl

/-- Reading does not change which handler is due. -/
theorem dispatch_of_next {r' : Reader (HeaderHandler σ) (Handler σ)} {d : Decoded}
    (h : r.next = .ok (d, r')) :
    r'.dispatch d = (r.handler? d.instruction.opcode).map (Event.instruction · d.args) := by
  obtain ⟨header, t, t', -, -, rfl⟩ := exists_of_next h
  rfl

/-- The handlers of a reader are those that a history of orders has left installed. -/
structure Remembers (f : Format) (before : List (Order σ))
    (r : Reader (HeaderHandler σ) (Handler σ)) : Prop where
  format_eq : r.format = f
  handler?_eq : ∀ opcode, r.handler? opcode = handlerAfter f before opcode
  headerHandler_eq : r.headerHandler = headerHandlerAfter before

theorem remembers_new (f : Format) : Remembers f ([] : List (Order σ)) (new f) :=
  ⟨rfl, fun _ => rfl, rfl⟩

theorem Remembers.serve (h : r.Remembers f before) (order : Order σ) :
    (r.serve order).reader.Remembers f (before ++ [order]) where
  format_eq := (format_serve r order).trans h.format_eq
  handler?_eq opcode := by
    rw [handler?_serve, handlerAfter_concat, h.format_eq, h.handler?_eq]
  headerHandler_eq := by
    rw [headerHandler_serve, headerHandlerAfter_concat, h.headerHandler_eq]

theorem Remembers.serveAll (h : r.Remembers f before) (orders : List (Order σ)) :
    (r.serveAll orders).reader.Remembers f (before ++ orders) := by
  induction orders generalizing before r with
  | nil => rwa [List.append_nil]
  | cons order orders ih =>
    rw [← List.singleton_append, ← List.append_assoc]
    exact ih (h.serve order)

/-! ### Calls by history -/

/-- A reader is left the same by reading and by stepping. -/
theorem reader_serve_quiet (r : Reader (HeaderHandler σ) (Handler σ)) (order : Order σ) :
    (r.serve order.quiet).reader = (r.serve order).reader := by
  cases order with
  | step =>
    rw [Order.quiet]
    cases hnext : r.next with
    | error e => rw [serve_step_of_error hnext, serve_next_of_error hnext]
    | ok read => rw [serve_step_of_next hnext, serve_next_of_next hnext]
  | _ => rfl

/-- The calls due upon an order. -/
theorem Remembers.events_serve (h : r.Remembers f before) (order : Order σ) :
    (r.serve order).events = (order.call? f before (r.serve order.quiet).outcome).toList := by
  cases order with
  | bind t =>
    simp only [Order.quiet, Reader.serve, bind, h.format_eq]
    cases hread : f.readHeader t with
    | error e => rfl
    | ok opened => simp only [Order.call?, hread, h.headerHandler_eq]
  | step =>
    rw [Order.quiet]
    cases hnext : r.next with
    | error e =>
      rw [serve_step_of_error hnext, serve_next_of_error hnext]
      rfl
    | ok read =>
      obtain ⟨d, r'⟩ := read
      rw [serve_step_of_next hnext, serve_next_of_next hnext, Order.call?, ← h.handler?_eq,
        dispatch_of_next hnext]
  | unbind => rfl
  | setHeaderHandler handler => rfl
  | setHandlerByName name handler =>
    simp only [Reader.serve, setHandlerByName]
    cases r.format.instruction? name <;> rfl
  | setHandlerByOpcode opcode handler =>
    simp only [Reader.serve, setHandlerByOpcode]
    cases r.format.byOpcode? opcode <;> rfl
  | removeHandler opcode => rfl
  | next =>
    cases hnext : r.next with
    | error e =>
      rw [serve_next_of_error hnext]
      rfl
    | ok read =>
      rw [serve_next_of_next hnext]
      rfl

/-- The calls due upon orders. -/
theorem Remembers.events_serveAll (h : r.Remembers f before) (orders : List (Order σ)) :
    (r.serveAll orders).events =
      callsFrom f before (orders.zip (r.serveAll (orders.map Order.quiet)).outcome) := by
  induction orders generalizing before r with
  | nil => rfl
  | cons order orders ih =>
    show (r.serve order).events ++ ((r.serve order).reader.serveAll orders).events =
      (order.call? f before (r.serve order.quiet).outcome).toList ++
        callsFrom f (before ++ [order])
          (orders.zip ((r.serve order.quiet).reader.serveAll (orders.map Order.quiet)).outcome)
    -- to step and to read leave the same reader, so the histories go on alike
    rw [h.events_serve, reader_serve_quiet, ih (h.serve order)]

theorem reader_serveAll_quiet (r : Reader (HeaderHandler σ) (Handler σ))
    (orders : List (Order σ)) :
    (r.serveAll (orders.map Order.quiet)).reader = (r.serveAll orders).reader := by
  induction orders generalizing r with
  | nil => rfl
  | cons order orders ih =>
    show ((r.serve order.quiet).reader.serveAll (orders.map Order.quiet)).reader =
      ((r.serve order).reader.serveAll orders).reader
    rw [reader_serve_quiet, ih]

end Reader

/-! ### Stepping and reading -/

namespace Lector

variable {f : Format} {s s' : Lector σ} {r : Reader (HeaderHandler σ) (Handler σ)}

/-- A lector steps as it reads, and calls the handler that is due after the orders before. -/
structure StepIsNext (f : Format) (before : List (Order σ)) (s : Lector σ) : Prop where
  /-- Where an instruction is read, its handler, if there is one, is called once, with the arguments
  read. Otherwise a step leaves what reading leaves. -/
  of_ok : ∀ d s', next s = .ok d s' → ∃ s'', step s = .ok () s'' ∧
    s''.target = s'.target ∧ s''.header = s'.header ∧ s''.Alike s' ∧ s'.world = s.world ∧
    s''.world = (handlerAfter f before d.instruction.opcode).elim s.world
      fun handler => handler d.args s.world
  /-- Where none is read, the error is the same and no handler is called. -/
  of_error : ∀ e s', next s = .error e s' → ∃ s'', step s = .error e s'' ∧
    s''.target = s'.target ∧ s''.header = s'.header ∧ s''.Alike s' ∧ s'.world = s.world ∧
    s''.world = s.world

theorem Represents.stepIsNext (h : s.Represents r) {before : List (Order σ)}
    (hr : r.Remembers f before) : s.StepIsNext f before := by
  -- both go by what the reader's `next` yields, so that they succeed and fail together
  cases hnext : r.next with
  | error e =>
    obtain ⟨args, hstep⟩ := h.step_of_error hnext
    obtain ⟨args', hnext'⟩ := h.next_of_error hnext
    have halike := (h.withArgs args).alike (h.withArgs args')
    constructor
    · intro d s' hok
      cases hok.symm.trans hnext'
    · intro e' s' herror
      cases herror.symm.trans hnext'
      exact ⟨_, hstep, rfl, rfl, halike, rfl, rfl⟩
  | ok read =>
    obtain ⟨d, r'⟩ := read
    obtain ⟨s₁, hstep, h₁, hworld⟩ := h.step_of_ok hnext
    obtain ⟨s₂, hnext', h₂, hsilent⟩ := h.next_of_ok hnext
    constructor
    · intro d' s' hok
      cases hok.symm.trans hnext'
      refine ⟨s₁, hstep, h₁.target_eq.trans h₂.target_eq.symm,
        h₁.header_eq.trans h₂.header_eq.symm, h₁.alike h₂, hsilent, ?_⟩
      rw [hworld, Reader.dispatch_of_next hnext, hr.handler?_eq]
      cases handlerAfter f before d.instruction.opcode <;> rfl
    · intro e s' herror
      cases herror.symm.trans hnext'

/-- **Stepping is reading and dispatching.** Whatever orders have been given, a step succeeds where
reading succeeds and fails where it fails, with the same error, and both leave the same tape, header
and later behaviour. A step that succeeds calls the handler installed last for the opcode, if it has
not been removed since, once and with the arguments that reading returns; one that fails calls none.
What is left of earlier arguments makes no difference to anything.

So the world of a lector is that of before after the calls due upon its orders, which are those of
the instructions that reading yields in the place of the steps; and it answers as a reader does,
which tells the same calls. -/
theorem step_is_next_and_call {schema : Schema} (hload : schema.load = .ok f) (world : σ)
    (orders : List (Order σ)) :
    let s := after f world orders
    s.StepIsNext f orders ∧
      (∀ leftover, Alike { s with args := leftover } s) ∧
      s.Alike (after f world (orders.map Order.quiet)) ∧
      s.world = performAll
        (callsFrom f [] (orders.zip ((new f world).serveAll (orders.map Order.quiet)).1)) world ∧
      ((new f world).serveAll orders).1 = ((Reader.new f).serveAll orders).outcome ∧
      s.world = performAll ((Reader.new f).serveAll orders).events world := by
  intro s
  have hnew := represents_new (Schema.wellFormed_of_load hload) world
  have hall := hnew.serveAll orders
  have hquiet := hnew.serveAll (orders.map Order.quiet)
  have hremembers : Reader.Remembers f ([] : List (Order σ)) (Reader.new f) :=
    Reader.remembers_new f
  have h : s.Represents ((Reader.new f).serveAll orders).reader := hall.represents
  refine ⟨h.stepIsNext (hremembers.serveAll orders), fun leftover => (h.withArgs leftover).alike h,
    ?_, ?_, hall.outcome_eq, hall.world_eq⟩
  · have h' := hquiet.represents
    rw [Reader.reader_serveAll_quiet] at h'
    exact h.alike h'
  · rw [hquiet.outcome_eq, ← hremembers.events_serveAll orders]
    exact hall.world_eq

/-- Two steps, the handler removed in between: one call, with the argument of the first. -/
theorem step_is_next_and_call_of_sample :
    let orders : List (Order (List (List Value))) :=
      [.setHandlerByName "PUSH" fun args calls => calls ++ [args], .bind sampleCartridge, .step,
        .removeHandler 0, .step]
    ((new sampleFormat []).serveAll orders).1 = List.replicate 5 (.ok .done) ∧
      (after sampleFormat [] orders).world = [[.i32 5]] := by
  intro orders
  obtain ⟨-, -, -, hworld, houtcome, -⟩ :=
    step_is_next_and_call (show sampleSchema.load = .ok sampleFormat by decide +kernel) [] orders
  rw [houtcome, hworld]
  exact ⟨by decide +kernel, by decide +kernel⟩

end Lector

end Bytecode
