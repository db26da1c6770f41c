import Bytecode.Proofs.RoundTrip

/-!
# Writing back what was read

Writing undoes reading: when a reader gets through a tape to its end, a writer that is called with
the instructions that were read writes the same bytes again, except for the numbers in the slots
(`write_back`). With the right calls to the counters, and with chunk lengths that are those of the
body, it writes the very same bytes. So a reader accepts no byte string, but for the slots, that a
writer could not have written.

The proof takes the bytes that were read apart once (`Reader.cartridge_of_nextMany`): the constants,
the slots with what was read from them, and the wire forms of instructions that the format admits.
These are granted when they are called for again, with their arguments as they are
(`Format.emission?_emitByOpcode`).
-/

namespace Bytecode

open History

variable {f : Format}

/-! ### Calling for what was read -/

/-- The call to append an instruction by its opcode. -/
def Emission.call (e : Emission) : Call := .emitByOpcode e.instruction.opcode e.args

/-- The emissions of a history depend on its calls alone. -/
theorem History.emissions_eq_filterMap {history : List (Call × Answer)}
    (h : ∀ entry ∈ history, entry.2 = .emitted ↔ (f.emission? entry.1).isSome) :
    emissions f history = (history.map Prod.fst).filterMap f.emission? := by
  rw [emissions, List.filterMap_map]
  refine List.filterMap_congr fun entry hentry => ?_
  obtain ⟨call, answer⟩ := entry
  have hnone (hne : answer ≠ .emitted) : none = f.emission? call :=
    (Option.not_isSome_iff_eq_none.mp fun hsome => hne ((h _ hentry).mpr hsome)).symm
  cases answer with
  | emitted => rfl
  | refused reason => exact hnone (by simp)
  | number n => exact hnone (by simp)

theorem Format.filterMap_emission?_filter (calls : List Call) :
    (calls.filter Call.isEmit).filterMap f.emission? = calls.filterMap f.emission? := by
  rw [List.filterMap_filter]
  refine List.filterMap_congr fun call _ => ?_
  cases call with
  | emit name args => rfl
  | emitByOpcode opcode args => rfl
  | nextNumber name => rfl

/-- Calls for instructions that the format admits append these instructions. -/
theorem Format.filterMap_emission?_call {es : List Emission} (h : ∀ e ∈ es, f.Admits e) :
    (es.map Emission.call).filterMap f.emission? = es := by
  rw [List.filterMap_map]
  have hsome : es.filterMap (f.emission? ∘ Emission.call) = es.filterMap some :=
    List.filterMap_congr fun e he => Format.emission?_emitByOpcode (h e he)
  rw [hsome, List.filterMap_some]

/-! ### Slots that hold what was read from them -/

theorem Slot.eq_entries_of_forall₂ (number : String → Nat) {slots : List Slot}
    {es : List (String × Nat)} (h : List.Forall₂ Admits slots es)
    (hnumber : ∀ e ∈ es, number e.1 = e.2) : es = entries number slots := by
  induction h with
  | nil => rfl
  | @cons s e slots es hadmits _ ih =>
    obtain ⟨he, hes⟩ := List.forall_mem_cons.mp hnumber
    rw [entries, List.map_cons, ← entries, ← ih hes]
    obtain ⟨name, n⟩ := e
    rw [← hadmits.1, he]

theorem Slot.exists_admits_of_forall₂ {slots : List Slot} {es : List (String × Nat)}
    (h : List.Forall₂ Admits slots es) : ∀ e ∈ es, ∃ s ∈ slots, s.Admits e := by
  induction h with
  | nil => simp
  | @cons s e slots es hadmits _ ih =>
    refine List.forall_mem_cons.mpr ⟨⟨s, List.mem_cons_self, hadmits⟩, fun e' he' => ?_⟩
    obtain ⟨s', hs', hadmits'⟩ := ih e' he'
    exact ⟨s', List.mem_cons_of_mem s hs', hadmits'⟩

theorem Slot.le_max_of_forall₂ {slots : List Slot} {es : List (String × Nat)}
    (h : List.Forall₂ Admits slots es) {n : ℕ} (hn : ∀ e ∈ es, e.2 = n) :
    ∀ s ∈ slots, n ≤ s.kind.max := by
  induction h with
  | nil => simp
  | @cons s e slots es hadmits _ ih =>
    obtain ⟨he, hes⟩ := List.forall_mem_cons.mp hn
    have hlt : n < 256 ^ s.kind.width := he ▸ hadmits.2
    refine List.forall_mem_cons.mpr ⟨?_, ih hes⟩
    rw [SlotKind.max]
    omega

/-- Two cartridges of one format differ at most in the numbers in their slots. -/
structure Format.SameButSlots (f : Format) (bs cs : List UInt8) : Prop where
  /-- They are of one length. -/
  length_eq : bs.length = cs.length
  /-- They have the same constants. -/
  take_eq : bs.take f.headerBytes.length = cs.take f.headerBytes.length
  /-- They have the same instructions. -/
  drop_eq : bs.drop f.bodyOffset = cs.drop f.bodyOffset

theorem Format.sameButSlots_append {slots slots' body : List UInt8}
    (h : f.headerBytes.length + slots.length = f.bodyOffset)
    (h' : f.headerBytes.length + slots'.length = f.bodyOffset) :
    f.SameButSlots (f.headerBytes ++ slots ++ body) (f.headerBytes ++ slots' ++ body) := by
  refine ⟨?_, ?_, ?_⟩
  · simp only [List.length_append]
    omega
  · rw [List.append_assoc, List.append_assoc, List.take_left, List.take_left]
  · rw [List.drop_left' (by rw [List.length_append, h]),
      List.drop_left' (by rw [List.length_append, h'])]

/-! ### Cartridges -/

/-- The bytes `bs` are a cartridge with the instructions `es`; `header` says what its slots hold. -/
structure Format.Cartridge (f : Format) (header : Header) (es : List Emission) (bs : List UInt8) :
    Prop where
  /-- The constants have encodings. -/
  fits : ∀ c ∈ f.header, c.value.Fits
  /-- The counters hold numbers of their kinds. -/
  counters : List.Forall₂ Slot.Admits f.counters header.counters
  /-- The chunk lengths are numbers of their kinds. -/
  chunks : List.Forall₂ Slot.Admits f.chunks header.chunks
  /-- The instructions have arguments of their declared kinds. -/
  admits : ∀ e ∈ es, f.Admits e
  /-- The instructions stand behind the slots and these behind the constants. -/
  bytes_eq : bs = f.headerBytes ++
    (Slot.wires f.counters header.counters ++ Slot.wires f.chunks header.chunks) ++
    es.flatMap Emission.wire

namespace Format.Cartridge

variable {header : Header} {es : List Emission} {bs : List UInt8}

theorem length_slots (h : f.Cartridge header es bs) :
    f.headerBytes.length +
      (Slot.wires f.counters header.counters ++ Slot.wires f.chunks header.chunks).length =
        f.bodyOffset := by
  rw [List.length_append, Slot.length_wires h.counters, Slot.length_wires h.chunks, bodyOffset,
    chunksOffset, countersOffset, Nat.add_assoc]

/-- The same constants and instructions with other numbers in the slots. -/
theorem sameButSlots (h : f.Cartridge header es bs) (counts : String → Nat) (length : ℕ) :
    f.SameButSlots (f.preamble counts length ++ es.flatMap Emission.wire) bs := by
  have hslots := f.length_preamble counts length
  rw [preamble, List.append_assoc, List.length_append] at hslots
  rw [h.bytes_eq, preamble, List.append_assoc f.headerBytes]
  exact sameButSlots_append hslots h.length_slots

/-- The same constants and instructions with the same numbers in the slots. -/
theorem bytes_eq_preamble (h : f.Cartridge header es bs) {counts : String → Nat} {length : ℕ}
    (hcounters : ∀ entry ∈ header.counters, counts entry.1 = entry.2)
    (hchunks : ∀ entry ∈ header.chunks, entry.2 = length) :
    f.preamble counts length ++ es.flatMap Emission.wire = bs := by
  have hcounters' := Slot.eq_entries_of_forall₂ counts h.counters hcounters
  have hchunks' := Slot.eq_entries_of_forall₂ (fun _ => length) h.chunks
    fun entry hentry => (hchunks entry hentry).symm
  rw [h.bytes_eq, hcounters', hchunks', Slot.wires_entries, Slot.wires_entries, preamble]
  simp only [List.append_assoc]

theorem length_body (h : f.Cartridge header es bs) :
    bs.length = f.bodyOffset + (es.flatMap Emission.wire).length := by
  rw [h.bytes_eq, List.length_append, List.length_append, h.length_slots]

end Format.Cartridge

/-- What a reader gets through to its end is a cartridge. -/
theorem Reader.cartridge_of_nextMany {η ι : Type} {r r₀ r₁ : Reader η ι} {t : Tape} (ht : t.pos = 0)
    {event : Option (Event η ι)} (hbind : r.bind t = (.ok event, r₀)) {header : Header}
    (hheader : r₀.header? = some header) {n : ℕ} {ds : List Decoded}
    (hmany : r₀.nextMany n = .ok (ds, r₁)) (hfinished : r₁.isFinished) :
    header.bodyStart = r.format.bodyOffset ∧
      r.format.Cartridge header (ds.map fun d => ⟨d.instruction, d.args⟩) t.bytes := by
  obtain ⟨⟨header', t₁⟩, hread⟩ := Reader.exists_bind_eq_ok_iff.mp ⟨event, by rw [hbind]⟩
  rw [Reader.bind_of_readHeader_eq_ok hread] at hbind
  obtain ⟨-, rfl⟩ := Prod.mk.inj hbind
  obtain rfl : header' = header := Option.some.inj hheader
  obtain ⟨es, t₂, -, hadmits, hbody, rfl, rfl⟩ := (Reader.nextMany_eq_ok_iff rfl).mp hmany
  obtain ⟨⟨-, hstart, -⟩, hfits, hcounters, hchunks, hpreamble⟩ :=
    Format.readHeader_eq_ok_iff_passes.mp hread
  -- nothing lies before the head at first, and nothing after it in the end
  have hend : t₂.after = [] := List.eq_nil_of_length_eq_zero (beq_iff_eq.mp hfinished)
  have hbefore : t.before = [] := List.eq_nil_of_length_eq_zero ht
  have hbytes : t.bytes = r.format.headerBytes ++ (Slot.wires r.format.counters header'.counters ++
      Slot.wires r.format.chunks header'.chunks) ++ es.flatMap Emission.wire := by
    rw [Tape.bytes, hbefore, hpreamble.after_eq, hbody.after_eq, hend]
    simp only [List.append_assoc, List.nil_append, List.append_nil]
  rw [map_place]
  have h : r.format.Cartridge header' es t.bytes := ⟨hfits, hcounters, hchunks, hadmits, hbytes⟩
  refine ⟨?_, h⟩
  rw [hstart, Format.pos_of_readHeader hread, ht, Nat.zero_add, Format.bodyOffset_eq]

/-! ### Writing a cartridge again -/

namespace Writer

variable {w : Writer} {t : Tape} {header : Header} {es : List Emission} {bs : List UInt8}

/-- Calling for instructions that the format admits, and for numbers in between, appends exactly
these instructions. -/
theorem Holds.emissions_eq {history : List (Call × Answer)} (h : w.Holds f t history)
    (hes : ∀ e ∈ es, f.Admits e)
    (hcalls : (history.map Prod.fst).filter Call.isEmit = es.map Emission.call) :
    emissions f history = es := by
  rw [emissions_eq_filterMap h.emitted_iff, ← Format.filterMap_emission?_filter, hcalls,
    Format.filterMap_emission?_call hes]

/-- Calls for instructions that the format admits are all granted. -/
theorem Holds.emitted_of_admits {history : List (Call × Answer)} (h : w.Holds f t history)
    (hes : ∀ e ∈ es, f.Admits e) (hcalls : history.map Prod.fst = es.map Emission.call) :
    ∀ entry ∈ history, entry.2 = .emitted := by
  intro entry hentry
  rw [h.emitted_iff entry hentry]
  obtain ⟨e, he, heq⟩ := List.mem_map.mp (hcalls ▸ List.mem_map_of_mem hentry)
  rw [← heq, Emission.call, Format.emission?_emitByOpcode (hes e he)]
  rfl

/-- A counter that was called for a number as often as its slot says has given out as many. -/
theorem Holds.counts_eq_of_asked {history : List (Call × Answer)} (h : w.Holds f t history)
    {entries : List (String × Nat)} (hentries : List.Forall₂ Slot.Admits f.counters entries)
    (hasked : ∀ entry ∈ entries, asked entry.1 history = entry.2) :
    ∀ entry ∈ entries, counts history entry.1 = entry.2 := by
  intro entry hentry
  obtain ⟨c, hc, hname, hlt⟩ := Slot.exists_admits_of_forall₂ hentries entry hentry
  have hcounts := h.counts_eq c hc
  rw [← hname, hasked entry hentry, SlotKind.max] at hcounts
  rw [Slot.width] at hlt
  omega

/-- A new writer holds on an empty tape whatever session follows. -/
theorem exists_bind_blank (hf : f.WellFormed) (hfits : ∀ c ∈ f.header, c.value.Fits) :
    ∃ w₀, (new f).bind Tape.blank = .ok (none, w₀) ∧
      ∀ calls, (w₀.session calls).2.Holds f Tape.blank (w₀.session calls).1 := by
  have hbind : (new f).bind Tape.blank = .ok (none, _) := bind_eq_ok_iff.mpr ⟨rfl, hfits, rfl, rfl⟩
  exact ⟨_, hbind, holds_of_session hf hbind⟩

/-- On a tape that was empty, a draft holds nothing but the cartridge. -/
theorem Holds.exists_draft_of_blank {history : List (Call × Answer)}
    (h : w.Holds f Tape.blank history) :
    ∃ d, w.draft = some d ∧ d.tape.bytes = f.preamble (counts history) 0 ++ body f history := by
  obtain ⟨d, hd, hdraft⟩ := h.exists_draft
  refine ⟨d, hd, ?_⟩
  rw [Tape.bytes, hdraft.before_eq, hdraft.after_eq]
  simp [Tape.blank]

/-- So does what is finished, with the chunk lengths filled in. -/
theorem Holds.bytes_of_finish {history : List (Call × Answer)} (h : w.Holds f Tape.blank history)
    {tape : Tape} {w₂ : Writer} (hfinish : w.finish = .ok (tape, w₂)) :
    tape.bytes = f.preamble (counts history) (body f history).length ++ body f history := by
  obtain ⟨-, rfl, -⟩ := h.finish_eq_ok_iff.mp hfinish
  simp [Tape.bytes, Tape.blank, finished]

section Cartridge

variable {history : List (Call × Answer)} (h : w.Holds f Tape.blank history)
  (hcartridge : f.Cartridge header es bs) (hes : emissions f history = es)

include h hcartridge hes

theorem Holds.exists_draft_sameButSlots :
    ∃ d, w.draft = some d ∧ f.SameButSlots d.tape.bytes bs := by
  obtain ⟨d, hd, hbytes⟩ := h.exists_draft_of_blank
  refine ⟨d, hd, ?_⟩
  rw [hbytes, body, hes]
  exact hcartridge.sameButSlots (counts history) 0

theorem Holds.sameButSlots_of_finish {tape : Tape} {w₂ : Writer}
    (hfinish : w.finish = .ok (tape, w₂)) : f.SameButSlots tape.bytes bs := by
  rw [h.bytes_of_finish hfinish, body, hes]
  exact hcartridge.sameButSlots (counts history) _

/-- With the right numbers in the slots, what is finished is the very same cartridge. -/
theorem Holds.exists_finish_eq_ok
    (hasked : ∀ entry ∈ header.counters, asked entry.1 history = entry.2)
    (hchunks : ∀ entry ∈ header.chunks, entry.2 = bs.length - f.bodyOffset) :
    ∃ tape w₂, w.finish = .ok (tape, w₂) ∧ tape.bytes = bs := by
  have hbody : body f history = es.flatMap Emission.wire := by rw [body, hes]
  have hlength : bs.length - f.bodyOffset = (body f history).length := by
    rw [hcartridge.length_body, hbody]
    omega
  rw [hlength] at hchunks
  have hfits := Slot.le_max_of_forall₂ hcartridge.chunks hchunks
  have hcounts := h.counts_eq_of_asked hcartridge.counters hasked
  have hfinish := h.finish_eq_ok_iff.mpr ⟨hfits, rfl, rfl⟩
  refine ⟨_, _, hfinish, ?_⟩
  rw [h.bytes_of_finish hfinish, ← hcartridge.bytes_eq_preamble hcounts hchunks, hbody]

end Cartridge

end Writer

/-- **Writing back what was read.** When a reader gets through a tape to its end, a new writer on an
empty tape grants every call for one of the instructions that were read, and what it then holds has
the same length, the same constants and the same instructions; finishing does not change this. When
the counters are called for numbers as often as their slots say, and the slots of the chunks say the
length of the instructions, the cartridge can be finished and is the very same bytes. -/
theorem write_back {η ι : Type} {s : Schema} {f : Format} (hload : s.load = .ok f)
    {r r₀ r₁ : Reader η ι} (hr : r.format = f) {t : Tape} (ht : t.pos = 0)
    {event : Option (Event η ι)} (hbind : r.bind t = (.ok event, r₀)) {header : Header}
    (hheader : r₀.header? = some header) {n : ℕ} {ds : List Decoded}
    (hmany : r₀.nextMany n = .ok (ds, r₁)) (hfinished : r₁.isFinished) :
    let reemissions := ds.map fun d => Call.emitByOpcode d.instruction.opcode d.args
    header.bodyStart = f.bodyOffset ∧
      ∃ w₀, (Writer.new f).bind Tape.blank = .ok (none, w₀) ∧
      (∀ entry ∈ (w₀.session reemissions).1, entry.2 = .emitted) ∧
      (∃ d, (w₀.session reemissions).2.draft = some d ∧ f.SameButSlots d.tape.bytes t.bytes) ∧
      (∀ tape w₂, (w₀.session reemissions).2.finish = .ok (tape, w₂) →
        f.SameButSlots tape.bytes t.bytes) ∧
      ∀ calls : List Call, calls.filter Call.isEmit = reemissions →
        (∀ c ∈ header.counters, calls.count (.nextNumber c.1) = c.2) →
        (∀ k ∈ header.chunks, k.2 = t.bytes.length - header.bodyStart) →
        ∃ tape w₂, (w₀.session calls).2.finish = .ok (tape, w₂) ∧ tape.bytes = t.bytes := by
  intro reemissions
  obtain rfl := hr
  obtain ⟨hstart, hcartridge⟩ := Reader.cartridge_of_nextMany ht hbind hheader hmany hfinished
  have hreemissions : reemissions =
      (ds.map fun d => (⟨d.instruction, d.args⟩ : Emission)).map Emission.call := by
    rw [List.map_map]
    rfl
  generalize ds.map (fun d => (⟨d.instruction, d.args⟩ : Emission)) = es at hcartridge hreemissions
  have hf := Schema.wellFormed_of_load hload
  obtain ⟨w₀, hbind', hsession⟩ := Writer.exists_bind_blank hf hcartridge.fits
  have hemissions (calls : List Call) (hcalls : calls.filter Call.isEmit = reemissions) :=
    (hsession calls).emissions_eq hcartridge.admits
      (by rw [Writer.map_fst_session, hcalls, hreemissions])
  have hfilter : reemissions.filter Call.isEmit = reemissions := by
    rw [List.filter_eq_self, hreemissions]
    rintro _ hcall
    obtain ⟨e, -, rfl⟩ := List.mem_map.mp hcall
    rfl
  refine ⟨hstart, w₀, hbind', ?_, ?_, ?_, ?_⟩
  · refine (hsession reemissions).emitted_of_admits hcartridge.admits ?_
    rw [Writer.map_fst_session, hreemissions]
  · exact (hsession reemissions).exists_draft_sameButSlots hcartridge (hemissions _ hfilter)
  · intro tape w₂ hfinish
    exact (hsession reemissions).sameButSlots_of_finish hcartridge (hemissions _ hfilter) hfinish
  · intro calls hcalls hcounters hchunks
    refine (hsession calls).exists_finish_eq_ok hcartridge (hemissions _ hcalls) ?_ ?_
    · intro entry hentry
      rw [asked, Writer.map_fst_session]
      exact hcounters entry hentry
    · rw [← hstart]
      exact hchunks

/-- A cartridge of `sampleFormat`, which says that it has given out one number. -/
def sampleCartridge : Tape :=
  .fixed ([2, 0, 0, 0, 76, 87, 1, 10] ++ [0, 5, 0, 0, 0, 0, 7, 0, 0, 0])

/-- `sampleCartridge` written again, with a call for a number between the instructions. -/
theorem write_back_of_sample :
    ∃ w₀ tape w₂, (Writer.new sampleFormat).bind Tape.blank = .ok (none, w₀) ∧
      (w₀.session
        [.emitByOpcode 0 [.i32 5], .nextNumber "labels", .emitByOpcode 0 [.i32 7]]).2.finish =
          .ok (tape, w₂) ∧
      tape.bytes = sampleCartridge.bytes := by
  have hload : sampleSchema.load = .ok sampleFormat := by decide +kernel
  have hbind : (Reader.new sampleFormat : Reader Unit Unit).bind sampleCartridge =
      (.ok none, _) := rfl
  have hheader : ((Reader.new sampleFormat : Reader Unit Unit).bind sampleCartridge).2.header? =
      some ⟨0, 8, [("magic", .string "LW")], [("labels", 1)], [("code", 10)]⟩ := by decide +kernel
  have hmany : ((Reader.new sampleFormat : Reader Unit Unit).bind sampleCartridge).2.nextMany 2 =
      .ok ([⟨8, samplePush, [.i32 5]⟩, ⟨13, samplePush, [.i32 7]⟩], _) := rfl
  obtain ⟨-, w₀, hbind', -, -, -, hfinish⟩ := write_back hload rfl rfl hbind hheader hmany rfl
  obtain ⟨tape, w₂, h, hbytes⟩ := hfinish
    [.emitByOpcode 0 [.i32 5], .nextNumber "labels", .emitByOpcode 0 [.i32 7]]
    rfl (by decide) (by decide)
  exact ⟨w₀, tape, w₂, hbind', h, hbytes⟩

end Bytecode
