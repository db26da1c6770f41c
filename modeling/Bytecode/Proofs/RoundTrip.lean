import Bytecode.Proofs.Session

/-!
# Reading a session back

What a session has finished can be read: `read_back` says that binding the finished tape to a reader
of the same format gives back the constants, the number of numbers that every counter gave out and
the length of the instructions, and that reading then gives back the instructions, in order, with
the arguments as they were converted.

The head of the reader goes over bytes that are known from the invariant of writing: over what
stands before the instructions (`Writer.Holds.readHeader_eq_ok`), which leaves the tape
`Writer.opened`, and then over the instructions (`Writer.nextMany_opened`), which leaves
`Writer.drained`.
-/

namespace Bytecode

open History

variable {f : Format}

/-! ### What a history has appended -/

namespace Format

theorem emission?_emitByOpcode {e : Emission} (h : f.Admits e) :
    f.emission? (.emitByOpcode e.instruction.opcode e.args) = some e := by
  rw [emission?, h.1, Option.bind_some, Instruction.accept?_of_takes h.2, Option.map_some]

/-- What a call is to append, the format admits. -/
theorem admits_of_emission? (hf : f.WellFormed) {call : Call} {e : Emission}
    (h : f.emission? call = some e) : f.Admits e := by
  cases call with
  | emit name args =>
    obtain ⟨i, hi, h⟩ := Option.bind_eq_some_iff.mp h
    obtain ⟨values, hvalues, rfl⟩ := Option.map_eq_some_iff.mp h
    exact admits_of_accept? hf (List.mem_of_find?_eq_some hi) hvalues
  | emitByOpcode opcode args =>
    obtain ⟨i, hi, h⟩ := Option.bind_eq_some_iff.mp h
    obtain ⟨values, hvalues, rfl⟩ := Option.map_eq_some_iff.mp h
    exact admits_of_accept? hf (List.mem_of_find?_eq_some hi) hvalues
  | nextNumber name => cases h

end Format

namespace History

variable {history : List (Call × Answer)}

theorem admits_of_mem_emissions (hf : f.WellFormed) {e : Emission} (he : e ∈ emissions f history) :
    f.Admits e := by
  obtain ⟨⟨call, answer⟩, -, h⟩ := List.mem_filterMap.mp he
  cases answer with
  | emitted => exact Format.admits_of_emission? hf h
  | refused reason => cases h
  | number n => cases h

/-- Every call that was granted has appended one instruction. -/
theorem length_emissions
    (h : ∀ entry ∈ history, entry.2 = .emitted → (f.emission? entry.1).isSome) :
    (emissions f history).length = history.countP fun entry => entry.2 = .emitted := by
  induction history with
  | nil => rfl
  | cons entry history ih =>
    obtain ⟨hentry, hrest⟩ := List.forall_mem_cons.mp h
    obtain ⟨call, answer⟩ := entry
    rw [List.countP_cons, ← ih hrest]
    cases answer with
    | emitted =>
      obtain ⟨e, he⟩ := Option.isSome_iff_exists.mp (hentry rfl)
      simp [emissions, he]
    | refused reason => simp [emissions]
    | number n => simp [emissions]

end History

/-! ### What a finished tape reads as -/

namespace Writer

variable {η ι : Type} {w w₂ : Writer} {t tape : Tape} {history : List (Call × Answer)}

/-- The header that stands before the instructions of a history. -/
def headerOf (f : Format) (t : Tape) (history : List (Call × Answer)) : Header where
  start := t.pos
  bodyStart := t.pos + f.bodyOffset
  fields := f.header.map fun c => (c.name, c.value)
  counters := Slot.entries (counts history) f.counters
  chunks := Slot.entries (fun _ => (body f history).length) f.chunks

/-- The finished tape after a history, its head before the instructions. -/
def opened (f : Format) (t : Tape) (history : List (Call × Answer)) : Tape where
  before := t.before ++ f.preamble (counts history) (body f history).length
  after := body f history ++ t.after.drop (f.bodyOffset + (body f history).length)
  growable := true

/-- The finished tape after a history, its head behind the instructions. -/
def drained (f : Format) (t : Tape) (history : List (Call × Answer)) : Tape where
  before := t.before ++ f.preamble (counts history) (body f history).length ++ body f history
  after := t.after.drop (f.bodyOffset + (body f history).length)
  growable := true

theorem pos_opened : (opened f t history).pos = t.pos + f.bodyOffset := by
  rw [opened, Tape.pos, List.length_append, Format.length_preamble, Tape.pos]

/-- A finished tape reads up to the instructions as a header. -/
theorem Holds.readHeader_eq_ok (h : w.Holds f t history) (hfits : ∀ c ∈ f.header, c.value.Fits)
    (hfinish : w.finish = .ok (tape, w₂)) :
    f.readHeader tape = .ok (headerOf f t history, opened f t history) := by
  obtain ⟨hchunks, rfl, -⟩ := h.finish_eq_ok_iff.mp hfinish
  obtain ⟨d, -, hdraft⟩ := h.exists_draft
  rw [Format.readHeader_eq_ok_iff_passes, headerOf]
  refine ⟨⟨rfl, pos_opened.symm, rfl⟩, hfits, ?_, ?_, ?_⟩
  · exact Slot.admits_entries (counts history) hdraft.counts_le
  · exact Slot.admits_entries (fun _ => (body f history).length) hchunks
  · rw [Slot.wires_entries, Slot.wires_entries]
    exact Tape.passes_of_after_eq (List.append_assoc _ _ _)

theorem opened_passes : (opened f t history).Passes (body f history) (drained f t history) :=
  ⟨rfl, rfl, rfl⟩

theorem pos_drained :
    (drained f t history).pos = t.pos + f.bodyOffset + (body f history).length := by
  rw [opened_passes.pos_eq, pos_opened]

/-- From there on it reads as the instructions of the history. -/
theorem nextMany_opened (hf : f.WellFormed) {r : Reader η ι} (hr : r.format = f) (header : Header) :
    ({ r with source := .opened header (opened f t history) } : Reader η ι).nextMany
        (emissions f history).length =
      .ok (place (t.pos + f.bodyOffset) (emissions f history),
        { r with source := .opened header (drained f t history) }) := by
  obtain rfl := hr
  refine (Reader.nextMany_eq_ok_iff rfl).mpr ⟨_, _, rfl, ?_, opened_passes, ?_, rfl⟩
  · exact fun e he => admits_of_mem_emissions hf he
  · rw [pos_opened]

/-- A finished tape ends behind its instructions unless it went on further before. -/
theorem size_finished :
    (finished f t history).size =
      t.pos + f.bodyOffset + (body f history).length + (drained f t history).remaining := by
  simp only [Tape.size, Tape.pos, Tape.remaining, finished, drained, List.length_append,
    Format.length_preamble]
  omega

end Writer

/-- **Reading a session back.** A reader takes the tape that a session has finished. The header it
finds says where the cartridge starts and where its instructions start, which is where the head of
the writer was when the tape was bound; it has the constants, the number of numbers that each
counter gave out, and for each chunk the length of the instructions. Then the instructions that were
granted come out in order, each with its offset and with its arguments as they were converted, and
the reader is finished unless the tape went on further than the cartridge before. -/
theorem read_back {η ι : Type} {s : Schema} {f : Format} (hload : s.load = .ok f) {w w₀ w₂ : Writer}
    (hw : w.format = f) {t tape : Tape} {previous : Option Tape}
    (hbind : w.bind t = .ok (previous, w₀)) {calls : List Call}
    (hfinish : (w₀.session calls).2.finish = .ok (tape, w₂)) {r : Reader η ι} (hr : r.format = f) :
    let history := (w₀.session calls).1
    ∃ event header r₀, r.bind tape = (.ok event, r₀) ∧ r₀.header? = some header ∧
      header.start = t.pos ∧ w₀.pos? = some header.bodyStart ∧
      header.fields = f.header.map (fun c => (c.name, c.value)) ∧
      header.counters = f.counters.map (fun c => (c.name, counts history c.name)) ∧
      header.chunks = f.chunks.map (fun k => (k.name, (body f history).length)) ∧
      (emissions f history).length = history.countP (fun entry => entry.2 = .emitted) ∧
      ∃ r₁, r₀.nextMany (emissions f history).length =
          .ok (place header.bodyStart (emissions f history), r₁) ∧
        r₁.pos? = some (header.bodyStart + (body f history).length) ∧
        (r₁.isFinished ↔ tape.size = header.bodyStart + (body f history).length) ∧
        (t.remaining = 0 → r₁.isFinished) := by
  subst hw
  intro history
  have hf := Schema.wellFormed_of_load hload
  have h : (w₀.session calls).2.Holds w.format t history := Writer.holds_of_session hf hbind calls
  obtain ⟨-, hfits, -, -⟩ := Writer.bind_eq_ok_iff.mp hbind
  have hread : r.format.readHeader tape =
      .ok (Writer.headerOf w.format t history, Writer.opened w.format t history) := by
    rw [hr]
    exact h.readHeader_eq_ok hfits hfinish
  have hstart : w₀.pos? = some (t.pos + w.format.bodyOffset) :=
    (Writer.holds_of_bind hbind).pos?_eq
  have hsize : tape.size = t.pos + w.format.bodyOffset + (body w.format history).length +
      (Writer.drained w.format t history).remaining := by
    obtain ⟨-, rfl, -⟩ := h.finish_eq_ok_iff.mp hfinish
    exact Writer.size_finished
  have hfinished (header : Header) :
      (Source.opened header (Writer.drained w.format t history)).isFinished ↔
        (Writer.drained w.format t history).remaining = 0 := beq_iff_eq
  refine ⟨_, Writer.headerOf w.format t history, _,
    Reader.bind_of_readHeader_eq_ok hread, rfl, rfl, hstart, rfl, rfl, rfl, ?_, _,
    Writer.nextMany_opened hf hr _, ?_, ?_, ?_⟩
  · exact length_emissions fun entry hentry => (h.emitted_iff entry hentry).mp
  · exact congrArg some Writer.pos_drained
  · rw [hsize, Reader.isFinished, hfinished]
    simp [Writer.headerOf]
  · intro hremaining
    rw [Reader.isFinished, hfinished]
    simp [Writer.drained, Tape.remaining, List.length_eq_zero_iff.mp hremaining]

/-- A session on a tape that went on behind the cartridge, read back. -/
theorem read_back_of_sample :
    ∃ w₀ tape w₂ r₀ r₁, (Writer.new sampleFormat).bind sampleTape = .ok (none, w₀) ∧
      (w₀.session sampleCalls).2.finish = .ok (tape, w₂) ∧
      (∃ event, (Reader.new sampleFormat : Reader Unit Unit).bind tape = (.ok event, r₀)) ∧
      r₀.nextMany 2 = .ok ([⟨10, samplePush, [.i32 5]⟩, ⟨15, samplePush, [.i32 7]⟩], r₁) ∧
      r₁.pos? = some 20 ∧ ¬ r₁.isFinished := by
  have hload : sampleSchema.load = .ok sampleFormat := by decide +kernel
  have hbind := Writer.bind_eq_ok_iff.mpr
    ⟨show sampleTape.growable = true from rfl,
      show ∀ c ∈ (Writer.new sampleFormat).format.header, c.value.Fits by decide, rfl, rfl⟩
  have hholds := Writer.holds_of_session (Schema.wellFormed_of_load hload) hbind sampleCalls
  have hfinish := hholds.finish_eq_ok_iff.mpr ⟨by decide, rfl, rfl⟩
  obtain ⟨event, header, r₀, hread, -, -, hstart, -, -, -, -, r₁, hmany, hpos, hfinished, -⟩ :=
    read_back hload rfl hbind hfinish
      (show (Reader.new sampleFormat : Reader Unit Unit).format = _ from rfl)
  have hbody : header.bodyStart = 10 := Option.some.inj (hstart.symm.trans (by decide))
  rw [hbody] at hmany hpos hfinished
  refine ⟨_, _, _, r₀, r₁, hbind, hfinish, ⟨event, hread⟩, hmany, hpos, ?_⟩
  rw [hfinished]
  decide

end Bytecode
