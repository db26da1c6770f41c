import Bytecode.Proofs.Body
import Bytecode.Proofs.Draft

/-!
# Sessions of a writer

A session performs calls one after another, whatever the answers, and notes each call with its
answer. This history alone says what the writer holds (`Writer.Holds`): every call to emit that has
the right arguments was granted, the numbers that a counter gave out are `0, 1, 2, …` as far as its
slot reaches, and the tape holds the layout that `Draft.Holds` describes, with the numbers given out
as counts and the granted instructions as body.

`Writer.Holds.perform` is the step and `Writer.Holds.session` the induction over the calls.
`Writer.session_layout` then says what a session leaves on the tape, before and after finishing.
-/

namespace Bytecode

/-! ### Calls and answers -/

/-- A call of a bound writer: to append an instruction with given arguments, or to give out the next
number of a counter. -/
inductive Call where
  | emit (name : String) (args : List Value)
  | emitByOpcode (opcode : UInt8) (args : List Value)
  | nextNumber (name : String)
deriving DecidableEq, Repr

/-- Whether a call is to append an instruction. -/
def Call.isEmit : Call → Bool
  | emit _ _ | emitByOpcode _ _ => true
  | nextNumber _ => false

/-- What a writer answers to a call: that it is refused, that the instruction is appended, or the
number that is given out. -/
inductive Answer where
  | refused (reason : WriteError)
  | emitted
  | number (n : Nat)
deriving DecidableEq, Repr

/-- What a call is to append, if it names an instruction and has arguments that this accepts. -/
def Format.emission? (f : Format) : Call → Option Emission
  | .emit name args => (f.instruction? name).bind fun i => (i.accept? args).map (Emission.mk i)
  | .emitByOpcode opcode args =>
    (f.byOpcode? opcode).bind fun i => (i.accept? args).map (Emission.mk i)
  | .nextNumber _ => none

namespace History

/-- The numbers that a counter has given out, in order. -/
def numbers (name : String) (history : List (Call × Answer)) : List Nat :=
  history.filterMap fun
    | (.nextNumber name', .number n) => if name' = name then some n else none
    | _ => none

/-- What has been appended, in order. -/
def emissions (f : Format) (history : List (Call × Answer)) : List Emission :=
  history.filterMap fun
    | (call, .emitted) => f.emission? call
    | _ => none

/-- The bytes of what has been appended. -/
def body (f : Format) (history : List (Call × Answer)) : List UInt8 :=
  (emissions f history).flatMap Emission.wire

/-- How many numbers each counter has given out. -/
def counts (history : List (Call × Answer)) (name : String) : Nat :=
  (numbers name history).length

/-- How often a counter has been called for a number. -/
def asked (name : String) (history : List (Call × Answer)) : Nat :=
  (history.map Prod.fst).count (.nextNumber name)

end History

namespace Writer

/-- Performs a call; one that is refused changes nothing. -/
def perform (w : Writer) : Call → Answer × Writer
  | .emit name args =>
    match w.emit name args with
    | .ok w' => (.emitted, w')
    | .error e => (.refused e, w)
  | .emitByOpcode opcode args =>
    match w.emitByOpcode opcode args with
    | .ok w' => (.emitted, w')
    | .error e => (.refused e, w)
  | .nextNumber name =>
    match w.nextNumber name with
    | .ok (n, w') => (.number n, w')
    | .error e => (.refused e, w)

/-- Performs calls one after another, whatever the answers, and notes them. -/
def session (w : Writer) : List Call → List (Call × Answer) × Writer
  | [] => ([], w)
  | call :: calls =>
    let step := w.perform call
    let rest := step.2.session calls
    ((call, step.1) :: rest.1, rest.2)

end Writer

/-! ### A sample -/

/-- A format with one constant, counter, chunk and instruction, as declared. -/
def sampleSchema : Schema :=
  { header := [⟨"magic", .string, .text "LW"⟩]
    counters := [⟨"labels", .u8⟩]
    chunks := [⟨"code", .u8⟩]
    commonArgs := []
    instructions := [⟨"push", none, none, [⟨"value", .i32⟩]⟩] }

/-- The instruction of `sampleSchema`. -/
def samplePush : Instruction := ⟨"push", "PUSH", 0, [⟨"value", .i32⟩], none⟩

/-- The format of `sampleSchema`. -/
def sampleFormat : Format :=
  { header := [⟨"magic", .string "LW"⟩]
    counters := [⟨"labels", .u8⟩]
    chunks := [⟨"code", .u8⟩]
    instructions := [samplePush] }

/-- Calls to a writer of `sampleFormat`: the second is refused, since an argument is missing. -/
def sampleCalls : List Call :=
  [.emit "push" [.u8 5], .emit "push" [], .nextNumber "labels", .emitByOpcode 0 [.i32 7]]

/-- A tape with bytes on both sides of the head. -/
def sampleTape : Tape := ⟨[1, 2], List.replicate 20 9, true⟩

/-! ### Histories -/

namespace History

variable {f : Format} {history : List (Call × Answer)} {call : Call} {e : Emission}

theorem numbers_append (name : String) (history history' : List (Call × Answer)) :
    numbers name (history ++ history') = numbers name history ++ numbers name history' :=
  List.filterMap_append

theorem emissions_append (f : Format) (history history' : List (Call × Answer)) :
    emissions f (history ++ history') = emissions f history ++ emissions f history' :=
  List.filterMap_append

theorem body_append (f : Format) (history history' : List (Call × Answer)) :
    body f (history ++ history') = body f history ++ body f history' := by
  rw [body, emissions_append, List.flatMap_append, body, body]

theorem numbers_number (name name' : String) (n : ℕ) :
    numbers name [(.nextNumber name', .number n)] = if name' = name then [n] else [] := by
  by_cases h : name' = name
  · simp [numbers, h]
  · simp [numbers, h]

theorem numbers_emitted (name : String) (call : Call) : numbers name [(call, .emitted)] = [] := by
  cases call with
  | emit | emitByOpcode | nextNumber => rfl

theorem numbers_refused (name : String) (call : Call) (reason : WriteError) :
    numbers name [(call, .refused reason)] = [] := by
  cases call with
  | emit | emitByOpcode | nextNumber => rfl

theorem body_emitted (h : f.emission? call = some e) : body f [(call, .emitted)] = e.wire := by
  simp [body, emissions, h]

theorem asked_append (name : String) (entry : Call × Answer) :
    asked name (history ++ [entry]) =
      asked name history + if entry.1 = .nextNumber name then 1 else 0 := by
  rw [asked, List.map_append, List.count_append, List.map_singleton, List.count_singleton, asked]
  simp

/-- To give out one more number is to change the counts at its counter. -/
theorem counts_append_number (name : String) (n : ℕ) :
    counts (history ++ [(.nextNumber name, .number n)]) =
      Function.update (counts history) name (counts history name + 1) := by
  funext name'
  rw [counts, numbers_append, numbers_number, List.length_append]
  by_cases h : name = name'
  · rw [if_pos h, ← h, Function.update_self, counts]
    rfl
  · rw [if_neg h, Function.update_of_ne (Ne.symm h), counts]
    rfl

end History

/-! ### The invariant -/

namespace Writer

open History

variable {f : Format} {t : Tape} {history : List (Call × Answer)} {w : Writer}

/-- The writer `w` of the format `f`, bound to `t`, has made the history since. -/
structure Holds (f : Format) (t : Tape) (history : List (Call × Answer)) (w : Writer) : Prop where
  /-- The writer writes the format. -/
  format_eq : w.format = f
  /-- The draft has counted the numbers given out and holds what was appended. -/
  exists_draft : ∃ d, w.draft = some d ∧ d.Holds f t (counts history) (body f history)
  /-- Exactly the calls that say what to append are granted as such. -/
  emitted_iff : ∀ entry ∈ history, entry.2 = .emitted ↔ (f.emission? entry.1).isSome
  /-- A counter gives out the numbers from zero on. -/
  numbers_eq : ∀ name, numbers name history = List.range (counts history name)
  /-- A counter gives out a number at every call, as long as its slot reaches. -/
  counts_eq : ∀ c ∈ f.counters, counts history c.name = min (asked c.name history) c.kind.max

/-! ### One call -/

/-- A call to append an instruction that was looked up. -/
theorem append_eq_ok_iff {d : Draft} {found : Option Instruction} {args : List Value}
    {unknown : WriteError} {w' : Writer} :
    (match found with
      | none => throw unknown
      | some i => return { w with draft := some (← d.append i args) } : Except WriteError Writer) =
        .ok w' ↔
      ∃ e, (found.bind fun i => (i.accept? args).map (Emission.mk i)) = some e ∧
        { w with draft := some { d with tape := d.tape.write e.wire } } = w' := by
  cases found with
  | none => simp [throw, throwThe, MonadExceptOf.throw]
  | some i =>
    simp only [except_bind_eq_ok_iff, Draft.append_eq_ok_iff, Option.bind_some,
      Option.map_eq_some_iff]
    constructor
    · rintro ⟨_, ⟨values, hvalues, rfl⟩, h⟩
      cases h
      exact ⟨_, ⟨values, hvalues, rfl⟩, rfl⟩
    · rintro ⟨_, ⟨values, hvalues, rfl⟩, rfl⟩
      exact ⟨_, ⟨values, hvalues, rfl⟩, rfl⟩

theorem emit_eq_ok_iff {d : Draft} (hd : w.draft = some d) {name : String} {args : List Value}
    {w' : Writer} :
    w.emit name args = .ok w' ↔ ∃ e, w.format.emission? (.emit name args) = some e ∧
      { w with draft := some { d with tape := d.tape.write e.wire } } = w' := by
  rw [emit, bound, hd]
  exact append_eq_ok_iff

theorem emitByOpcode_eq_ok_iff {d : Draft} (hd : w.draft = some d) {opcode : UInt8}
    {args : List Value} {w' : Writer} :
    w.emitByOpcode opcode args = .ok w' ↔
      ∃ e, w.format.emission? (.emitByOpcode opcode args) = some e ∧
        { w with draft := some { d with tape := d.tape.write e.wire } } = w' := by
  rw [emitByOpcode, bound, hd]
  exact append_eq_ok_iff

/-- A call that says what to append is granted. -/
theorem perform_of_emission? {d : Draft} (hd : w.draft = some d) {call : Call} {e : Emission}
    (he : w.format.emission? call = some e) :
    w.perform call =
      (.emitted, { w with draft := some { d with tape := d.tape.write e.wire } }) := by
  cases call with
  | emit name args => rw [perform, (emit_eq_ok_iff hd).mpr ⟨e, he, rfl⟩]
  | emitByOpcode opcode args => rw [perform, (emitByOpcode_eq_ok_iff hd).mpr ⟨e, he, rfl⟩]
  | nextNumber name => cases he

/-- A call that is to append, and does not say what, is refused. -/
theorem perform_of_emission?_eq_none {d : Draft} (hd : w.draft = some d) {call : Call}
    (hcall : call.isEmit) (he : w.format.emission? call = none) :
    ∃ reason, w.perform call = (.refused reason, w) := by
  cases call with
  | emit name args =>
    cases h : w.emit name args with
    | error e => exact ⟨e, by rw [perform, h]⟩
    | ok w' =>
      obtain ⟨e, hsome, -⟩ := (emit_eq_ok_iff hd).mp h
      rw [he] at hsome
      cases hsome
  | emitByOpcode opcode args =>
    cases h : w.emitByOpcode opcode args with
    | error e => exact ⟨e, by rw [perform, h]⟩
    | ok w' =>
      obtain ⟨e, hsome, -⟩ := (emitByOpcode_eq_ok_iff hd).mp h
      rw [he] at hsome
      cases hsome
  | nextNumber name => cases hcall

/-- A call to a counter is a call to its slot on the draft. -/
theorem nextNumber_eq {d : Draft} (hd : w.draft = some d) {name : String} {c : Slot} {index : ℕ}
    (hc : w.format.counter? name = some (c, index)) :
    w.nextNumber name =
      (d.nextNumber w.format index c).map fun r => (r.1, { w with draft := some r.2 }) := by
  rw [nextNumber, bound, hd]
  simp only [hc, Bind.bind, Except.bind]
  cases d.nextNumber w.format index c with
  | error e => rfl
  | ok r => rfl

theorem perform_of_counter?_eq_none {d : Draft} (hd : w.draft = some d) {name : String}
    (hc : w.format.counter? name = none) :
    w.perform (.nextNumber name) = (.refused (.unknownCounter name), w) := by
  have h : w.nextNumber name = .error (.unknownCounter name) := by
    rw [nextNumber, bound, hd]
    simp only [hc, Bind.bind, Except.bind]
    rfl
  rw [perform, h]

/-- A counter below the maximum of its kind gives out its count. -/
theorem Holds.nextNumber_eq_ok (hf : f.WellFormed) (h : w.Holds f t history) {name : String}
    {c : Slot} {index : ℕ} (hc : f.counter? name = some (c, index))
    (hlt : counts history name < c.kind.max) :
    ∃ d, w.nextNumber name = .ok (counts history name, { w with draft := some d }) ∧
      d.Holds f t (Function.update (counts history) name (counts history name + 1))
        (body f history) := by
  obtain ⟨d, hd, hholds⟩ := h.exists_draft
  obtain ⟨d', hnext, hholds'⟩ := hholds.nextNumber_eq_ok hf hc hlt
  obtain rfl := h.format_eq
  refine ⟨d', ?_, hholds'⟩
  rw [nextNumber_eq hd hc, hnext]
  rfl

theorem Holds.nextNumber_eq_error (hf : f.WellFormed) (h : w.Holds f t history) {name : String}
    {c : Slot} {index : ℕ} (hc : f.counter? name = some (c, index))
    (hle : c.kind.max ≤ counts history name) :
    w.nextNumber name = .error (.counterOverflow name) := by
  obtain ⟨d, hd, hholds⟩ := h.exists_draft
  have herror := hholds.nextNumber_eq_error hf hc hle
  obtain rfl := h.format_eq
  rw [nextNumber_eq hd hc, herror]
  rfl

/-- A counter gives out a number exactly while its count is below the maximum of its kind. -/
theorem Holds.exists_nextNumber_iff (hf : f.WellFormed) (h : w.Holds f t history) {c : Slot}
    (hc : c ∈ f.counters) :
    (∃ r, w.nextNumber c.name = .ok r) ↔ counts history c.name < c.kind.max := by
  obtain ⟨index, hindex⟩ := Format.exists_counter?_of_mem hf hc
  constructor
  · rintro ⟨r, hr⟩
    by_contra hlt
    have hle : c.kind.max ≤ counts history c.name := by omega
    rw [h.nextNumber_eq_error hf hindex hle] at hr
    cases hr
  · intro hlt
    obtain ⟨d, hnext, -⟩ := h.nextNumber_eq_ok hf hindex hlt
    exact ⟨_, hnext⟩

/-- A call that gives out no number leaves the counts as they are. Where it was for a number, the
counter must have been at its maximum. -/
theorem Holds.append_of_numbers_eq_nil (h : w.Holds f t history) {w' : Writer} {call : Call}
    {answer : Answer} (hformat : w'.format = f)
    (hdraft : ∃ d, w'.draft = some d ∧
      d.Holds f t (counts history) (body f (history ++ [(call, answer)])))
    (hanswer : answer = .emitted ↔ (f.emission? call).isSome)
    (hnumbers : ∀ name, numbers name [(call, answer)] = [])
    (hcounter : ∀ c ∈ f.counters, call = .nextNumber c.name → c.kind.max ≤ counts history c.name) :
    w'.Holds f t (history ++ [(call, answer)]) := by
  have hsame (name : String) :
      numbers name (history ++ [(call, answer)]) = numbers name history := by
    rw [numbers_append, hnumbers, List.append_nil]
  have hcounts : counts (history ++ [(call, answer)]) = counts history := by
    funext name
    rw [counts, hsame, counts]
  refine ⟨hformat, ?_, ?_, ?_, ?_⟩
  · rw [hcounts]
    exact hdraft
  · exact List.forall_mem_append.mpr ⟨h.emitted_iff, List.forall_mem_singleton.mpr hanswer⟩
  · intro name
    rw [hsame, hcounts]
    exact h.numbers_eq name
  · intro c hc
    have heq := h.counts_eq c hc
    rw [hcounts, asked_append]
    by_cases hcall : call = .nextNumber c.name
    · -- the call counts, but both sides are at the maximum already
      have hmax := hcounter c hc hcall
      rw [if_pos hcall]
      omega
    · rw [if_neg hcall, Nat.add_zero]
      exact heq

theorem Holds.append_refused (h : w.Holds f t history) {call : Call} {reason : WriteError}
    (he : f.emission? call = none)
    (hcounter : ∀ c ∈ f.counters, call = .nextNumber c.name → c.kind.max ≤ counts history c.name) :
    w.Holds f t (history ++ [(call, .refused reason)]) := by
  refine h.append_of_numbers_eq_nil h.format_eq ?_ ?_ (fun name => numbers_refused name call reason)
    hcounter
  · have hbody : body f [(call, .refused reason)] = [] := rfl
    rw [body_append, hbody, List.append_nil]
    exact h.exists_draft
  · exact iff_of_false (by simp) (by simp [he])

theorem Holds.append_emitted (h : w.Holds f t history) {d : Draft} (hd : w.draft = some d)
    {call : Call} {e : Emission} (he : f.emission? call = some e) :
    Holds f t (history ++ [(call, .emitted)])
      { w with draft := some { d with tape := d.tape.write e.wire } } := by
  obtain ⟨d', hd', hholds⟩ := h.exists_draft
  obtain rfl : d = d' := Option.some.inj (hd.symm.trans hd')
  refine h.append_of_numbers_eq_nil h.format_eq ⟨_, rfl, ?_⟩ ?_
    (fun name => numbers_emitted name call) ?_
  · rw [body_append, body_emitted he]
    exact hholds.write e.wire
  · exact iff_of_true rfl (by simp [he])
  · rintro c - rfl
    cases he

theorem Holds.append_number (hf : f.WellFormed) (h : w.Holds f t history) {name : String} {c : Slot}
    {index : ℕ} (hc : f.counter? name = some (c, index)) (hlt : counts history name < c.kind.max)
    {d : Draft}
    (hd : d.Holds f t (Function.update (counts history) name (counts history name + 1))
      (body f history)) :
    Holds f t (history ++ [(.nextNumber name, .number (counts history name))])
      { w with draft := some d } := by
  refine ⟨h.format_eq, ⟨d, rfl, ?_⟩, ?_, ?_, ?_⟩
  · have hbody : body f [(.nextNumber name, .number (counts history name))] = [] := rfl
    rw [counts_append_number, body_append, hbody, List.append_nil]
    exact hd
  · refine List.forall_mem_append.mpr ⟨h.emitted_iff, List.forall_mem_singleton.mpr ?_⟩
    exact iff_of_false (by simp) (by simp [Format.emission?])
  · intro name'
    rw [numbers_append, numbers_number, counts_append_number, h.numbers_eq]
    by_cases hname : name = name'
    · rw [if_pos hname, ← hname, Function.update_self, List.range_succ]
    · rw [if_neg hname, Function.update_of_ne (Ne.symm hname), List.append_nil]
  · intro c' hc'
    have heq := h.counts_eq c' hc'
    rw [counts_append_number, asked_append]
    by_cases hname : c'.name = name
    · -- below the maximum of its kind, the counter has answered every call so far
      obtain rfl := Format.eq_of_counter? hf hc hc' hname
      rw [hname] at heq ⊢
      rw [Function.update_self, if_pos rfl]
      omega
    · have hcall : Call.nextNumber name ≠ .nextNumber c'.name := fun h =>
        hname (Call.nextNumber.inj h).symm
      rw [Function.update_of_ne hname, if_neg hcall, Nat.add_zero]
      exact heq

theorem Holds.perform_of_isEmit (h : w.Holds f t history) {call : Call} (hcall : call.isEmit) :
    (w.perform call).2.Holds f t (history ++ [(call, (w.perform call).1)]) := by
  obtain ⟨d, hd, -⟩ := h.exists_draft
  cases he : f.emission? call with
  | some e =>
    rw [perform_of_emission? hd (h.format_eq ▸ he)]
    exact h.append_emitted hd he
  | none =>
    obtain ⟨reason, hrefused⟩ := perform_of_emission?_eq_none hd hcall (h.format_eq ▸ he)
    rw [hrefused]
    refine h.append_refused he fun c _ heq => ?_
    rw [heq] at hcall
    cases hcall

theorem Holds.perform_nextNumber (hf : f.WellFormed) (h : w.Holds f t history) (name : String) :
    (w.perform (.nextNumber name)).2.Holds f t
      (history ++ [(.nextNumber name, (w.perform (.nextNumber name)).1)]) := by
  obtain ⟨d, hd, -⟩ := h.exists_draft
  cases hc : f.counter? name with
  | none =>
    rw [perform_of_counter?_eq_none hd (h.format_eq ▸ hc)]
    refine h.append_refused rfl fun c hmem heq => ?_
    obtain ⟨index, hindex⟩ := Format.exists_counter?_of_mem hf hmem
    rw [← Call.nextNumber.inj heq, hc] at hindex
    cases hindex
  | some found =>
    obtain ⟨c, index⟩ := found
    by_cases hlt : counts history name < c.kind.max
    · obtain ⟨d', hnext, hholds⟩ := h.nextNumber_eq_ok hf hc hlt
      rw [perform, hnext]
      exact h.append_number hf hc hlt hholds
    · have hle : c.kind.max ≤ counts history name := by omega
      rw [perform, h.nextNumber_eq_error hf hc hle]
      refine h.append_refused rfl fun c' hmem heq => ?_
      have hname := Call.nextNumber.inj heq
      rw [← hname, Format.eq_of_counter? hf hc hmem hname.symm]
      exact hle

/-- One call adds itself and its answer to the history that a writer holds. -/
theorem Holds.perform (hf : f.WellFormed) (h : w.Holds f t history) (call : Call) :
    (w.perform call).2.Holds f t (history ++ [(call, (w.perform call).1)]) := by
  cases call with
  | emit name args => exact h.perform_of_isEmit rfl
  | emitByOpcode opcode args => exact h.perform_of_isEmit rfl
  | nextNumber name => exact h.perform_nextNumber hf name

/-! ### All calls -/

/-- A session adds its history to the one that a writer holds. -/
theorem Holds.session (hf : f.WellFormed) (h : w.Holds f t history) (calls : List Call) :
    (w.session calls).2.Holds f t (history ++ (w.session calls).1) := by
  induction calls generalizing w history with
  | nil => simpa [Writer.session] using h
  | cons call calls ih => simpa [Writer.session] using ih (h.perform hf call)

theorem map_fst_session (w : Writer) (calls : List Call) :
    (w.session calls).1.map Prod.fst = calls := by
  induction calls generalizing w with
  | nil => rfl
  | cons call calls ih => rw [Writer.session, List.map_cons, ih]

/-! ### Binding and finishing -/

theorem bind_eq_ok_iff {previous : Option Tape} {w₀ : Writer} :
    w.bind t = .ok (previous, w₀) ↔
      t.growable = true ∧ (∀ c ∈ w.format.header, c.value.Fits) ∧ previous = w.draft.map (·.tape) ∧
        w₀ = { w with draft := some ⟨t.write (w.format.preamble (fun _ => 0) 0), t.pos⟩ } := by
  rw [bind, except_bind_eq_ok_iff]
  simp only [Draft.onTape_eq_ok_iff]
  constructor
  · rintro ⟨_, ⟨ht, hfits, rfl⟩, h⟩
    cases h
    exact ⟨ht, hfits, rfl, rfl⟩
  · rintro ⟨ht, hfits, rfl, rfl⟩
    exact ⟨_, ⟨ht, hfits, rfl⟩, rfl⟩

/-- Binding a tape begins a history. -/
theorem holds_of_bind {previous : Option Tape} {w₀ : Writer} (h : w.bind t = .ok (previous, w₀)) :
    w₀.Holds w.format t [] := by
  obtain ⟨ht, hfits, -, rfl⟩ := bind_eq_ok_iff.mp h
  have hdraft := Draft.holds_of_onTape (Draft.onTape_eq_ok_iff.mpr ⟨ht, hfits, rfl⟩)
  exact ⟨rfl, ⟨_, rfl, hdraft⟩, by simp, fun _ => rfl, fun _ _ => (Nat.zero_min _).symm⟩

/-- After a session a writer holds the history of the session. -/
theorem holds_of_session (hf : w.format.WellFormed) {previous : Option Tape} {w₀ : Writer}
    (h : w.bind t = .ok (previous, w₀)) (calls : List Call) :
    (w₀.session calls).2.Holds w.format t (w₀.session calls).1 := by
  simpa using (holds_of_bind h).session hf calls

theorem Holds.pos?_eq (h : w.Holds f t history) :
    w.pos? = some (t.pos + f.bodyOffset + (body f history).length) := by
  obtain ⟨d, hd, hholds⟩ := h.exists_draft
  rw [pos?, hd, Option.map_some, hholds.pos_eq]

theorem finish_eq {d : Draft} (hd : w.draft = some d) :
    w.finish = (d.finish w.format).map fun tape => (tape, { w with draft := none }) := by
  rw [finish, bound, hd]
  simp only [Bind.bind, Except.bind]
  cases d.finish w.format with
  | error e => rfl
  | ok tape => rfl

/-- The tape after a history, finished: its head where it was when the tape was bound, and behind it
the preamble and the body. -/
def finished (f : Format) (t : Tape) (history : List (Call × Answer)) : Tape where
  before := t.before
  after := f.preamble (counts history) (body f history).length ++ body f history ++
    t.after.drop (f.bodyOffset + (body f history).length)
  growable := true

/-- Finishing succeeds iff every chunk can hold the length of the body. -/
theorem Holds.finish_eq_ok_iff (h : w.Holds f t history) {tape : Tape} {w₂ : Writer} :
    w.finish = .ok (tape, w₂) ↔ (∀ k ∈ f.chunks, (body f history).length ≤ k.kind.max) ∧
      finished f t history = tape ∧ ⟨f, none⟩ = w₂ := by
  obtain ⟨d, hd, hholds⟩ := h.exists_draft
  obtain rfl := h.format_eq
  rw [finish_eq hd]
  by_cases hfits : ∀ k ∈ w.format.chunks, (body w.format history).length ≤ k.kind.max
  · rw [hholds.finish_eq_ok hfits, and_iff_right hfits, Except.map, Except.ok.injEq, Prod.mk.injEq,
      finished]
  · obtain ⟨k, hk, hlt⟩ : ∃ k ∈ w.format.chunks, k.kind.max < (body w.format history).length := by
      simpa using hfits
    obtain ⟨name, herror⟩ := hholds.finish_eq_error hk hlt
    rw [herror]
    refine iff_of_false (fun h => by cases h) ?_
    rintro ⟨hall, -⟩
    have hle := hall k hk
    omega

/-- **A session leaves the documented layout.** From when a tape is bound, whatever the calls and
whatever the answers, the head is behind the constants, the slots and the instructions that were
granted; every counter gives out `0, 1, 2, …` until its slot is at its maximum; and the cartridge
can be finished iff every chunk can hold the length of the instructions. Finishing moves the head
back to where it was when the tape was bound and changes nothing before it, nor anything behind the
instructions. -/
theorem session_layout {s : Schema} {f : Format} (hload : s.load = .ok f)
    (hfits : ∀ c ∈ f.header, c.value.Fits) {w : Writer} (hw : w.format = f) {t : Tape}
    (ht : t.growable = true) (calls : List Call) :
    ∃ w₀, w.bind t = .ok (w.draft.map (·.tape), w₀) ∧
      let history := (w₀.session calls).1
      let w₁ := (w₀.session calls).2
      history.map Prod.fst = calls ∧
      w₁.pos? = some (t.pos + f.bodyOffset + (body f history).length) ∧
      (∀ entry ∈ history, entry.2 = .emitted ↔ (f.emission? entry.1).isSome) ∧
      (∀ name, numbers name history = List.range (counts history name)) ∧
      (∀ c ∈ f.counters,
        (∃ r, w₁.nextNumber c.name = .ok r) ↔ counts history c.name < c.kind.max) ∧
      ((∃ r, w₁.finish = .ok r) ↔ ∀ k ∈ f.chunks, (body f history).length ≤ k.kind.max) ∧
      ∀ tape w₂, w₁.finish = .ok (tape, w₂) →
        tape.growable = true ∧ tape.pos = t.pos ∧ w₂.draft = none ∧
        tape.bytes = t.bytes.take t.pos ++ f.preamble (counts history) (body f history).length ++
          body f history ++ t.bytes.drop (t.pos + f.bodyOffset + (body f history).length) := by
  subst hw
  have hf := Schema.wellFormed_of_load hload
  have hbind := bind_eq_ok_iff.mpr ⟨ht, hfits, rfl, rfl⟩
  have h := holds_of_session hf hbind calls
  refine ⟨_, hbind, map_fst_session _ calls, h.pos?_eq, h.emitted_iff, h.numbers_eq,
    fun c hc => h.exists_nextNumber_iff hf hc, ?_, ?_⟩
  · constructor
    · rintro ⟨⟨tape, w₂⟩, hfinish⟩
      exact (h.finish_eq_ok_iff.mp hfinish).1
    · intro hchunks
      exact ⟨_, h.finish_eq_ok_iff.mpr ⟨hchunks, rfl, rfl⟩⟩
  · intro tape w₂ hfinish
    obtain ⟨-, rfl, rfl⟩ := h.finish_eq_ok_iff.mp hfinish
    refine ⟨rfl, rfl, rfl, ?_⟩
    rw [Tape.take_pos_bytes, Nat.add_assoc, Tape.drop_pos_bytes, Tape.bytes, finished]
    simp only [List.append_assoc]

/-- A session on `sampleTape`. -/
theorem session_layout_of_sample :
    ∃ w₀, (new sampleFormat).bind sampleTape = .ok (none, w₀) ∧
      (w₀.session sampleCalls).2.pos? = some 20 ∧
      ∀ tape w₂, (w₀.session sampleCalls).2.finish = .ok (tape, w₂) →
        tape.bytes = [1, 2] ++ [2, 0, 0, 0, 76, 87, 1, 10] ++ [0, 5, 0, 0, 0, 0, 7, 0, 0, 0] ++
          [9, 9] := by
  obtain ⟨w₀, hbind, -, hpos, -, -, -, -, hfinish⟩ :=
    session_layout (show sampleSchema.load = .ok sampleFormat by decide +kernel) (by decide)
      (show (new sampleFormat).format = sampleFormat from rfl)
      (show sampleTape.growable = true from rfl) sampleCalls
  obtain rfl : _ = w₀ := congrArg Prod.snd (Except.ok.inj hbind)
  refine ⟨_, hbind, hpos.trans (by decide), fun tape w₂ h => ?_⟩
  obtain ⟨-, -, -, hbytes⟩ := hfinish tape w₂ h
  rw [hbytes]
  decide

end Writer

end Bytecode
