import Bytecode.Proofs.Access
import Bytecode.Proofs.Header
import Bytecode.Proofs.Instruction
import Bytecode.Proofs.Loaded
import Mathlib.Logic.Function.Basic

/-!
# What a draft holds

`d.Holds f t counts body` is the invariant of writing: on the tape of the draft `d`, which was begun
on `t`, there stand the bytes that were before the head of `t`, the constants, a slot for each
counter with the number that `counts` gives it, a zero slot for each chunk, and the instructions
`body`, up to the head; after the head there is what `body` has not overwritten.

Everything that a draft has written lies before its head. So a slot is reached by splitting one
list of bytes (`Tape.peek_of_before_eq`, `Tape.patch_of_before_eq`), appending never touches a slot,
and patching a slot never moves the head.
-/

namespace Bytecode

/-! ### Slots that hold numbers -/

namespace Slot

/-- The bytes of a row of slots that hold the numbers given to their names. -/
def fill (number : String → Nat) (slots : List Slot) : List UInt8 :=
  slots.flatMap fun s => LittleEndian.toBytes s.width (number s.name)

/-- The numbers given to the names of a row of slots, with the names. -/
def entries (number : String → Nat) (slots : List Slot) : List (String × Nat) :=
  slots.map fun s => (s.name, number s.name)

variable {number number' : String → Nat} {slots : List Slot}

@[simp]
theorem length_fill (number : String → Nat) (slots : List Slot) :
    (fill number slots).length = slotsWidth slots := by
  simp [fill, slotsWidth, List.length_flatMap]

theorem fill_append (number : String → Nat) (slots slots' : List Slot) :
    fill number (slots ++ slots') = fill number slots ++ fill number slots' :=
  List.flatMap_append

theorem fill_cons (number : String → Nat) (s : Slot) (slots : List Slot) :
    fill number (s :: slots) = LittleEndian.toBytes s.width (number s.name) ++ fill number slots :=
  List.flatMap_cons

/-- Only the numbers of the slots in the row matter. -/
theorem fill_congr (h : ∀ s ∈ slots, number s.name = number' s.name) :
    fill number slots = fill number' slots := by
  unfold fill
  rw [List.flatMap_def, List.flatMap_def]
  congr 1
  exact List.map_congr_left fun s hs => by rw [h s hs]

theorem wires_entries (number : String → Nat) (slots : List Slot) :
    wires slots (entries number slots) = fill number slots := by
  rw [wires, entries, List.zipWith_map_right, List.zipWith_self, fill, List.flatMap_def]

/-- A row of slots admits numbers up to the maxima of their kinds. -/
theorem admits_entries (number : String → Nat) (h : ∀ s ∈ slots, number s.name ≤ s.kind.max) :
    List.Forall₂ Admits slots (entries number slots) := by
  rw [entries, List.forall₂_map_right_iff, List.forall₂_same]
  intro s hs
  have hpos : 0 < 256 ^ s.kind.width := Nat.pow_pos (by decide)
  have hle := h s hs
  rw [SlotKind.max] at hle
  exact ⟨rfl, by rw [width]; omega⟩

theorem toBytes_zero (width : Nat) : LittleEndian.toBytes width 0 = List.replicate width 0 := by
  induction width with
  | zero => rfl
  | succ width ih => rw [LittleEndian.toBytes, Nat.zero_div, ih, List.replicate_succ]; rfl

theorem fill_zero (slots : List Slot) :
    fill (fun _ => 0) slots = List.replicate (slotsWidth slots) 0 := by
  induction slots with
  | nil => rfl
  | cons s slots ih =>
    rw [fill_cons, ih, toBytes_zero, List.replicate_append_replicate]
    rfl

end Slot

/-- What stands before the instructions of a cartridge: the constants, the counters, and the length
of the instructions in the slot of every chunk. -/
def Format.preamble (f : Format) (counts : String → Nat) (length : Nat) : List UInt8 :=
  f.headerBytes ++ Slot.fill counts f.counters ++ Slot.fill (fun _ => length) f.chunks

@[simp]
theorem Format.length_preamble (f : Format) (counts : String → Nat) (length : Nat) :
    (f.preamble counts length).length = f.bodyOffset := by
  simp [preamble, bodyOffset, chunksOffset, countersOffset, Nat.add_assoc]

/-! ### The invariant -/

namespace Draft

variable {f : Format} {t : Tape} {counts : String → Nat} {body : List UInt8} {d : Draft}

/-- The draft `d` was begun on `t`, has counted `counts` and written the instructions `body`. -/
structure Holds (f : Format) (t : Tape) (counts : String → Nat) (body : List UInt8) (d : Draft) :
    Prop where
  /-- The draft knows where it was begun. -/
  start_eq : d.start = t.pos
  /-- What is written lies before the head. -/
  before_eq : d.tape.before = t.before ++ f.preamble counts 0 ++ body
  /-- What is overwritten no longer lies after it. -/
  after_eq : d.tape.after = t.after.drop (f.bodyOffset + body.length)
  /-- The tape may be extended. -/
  growable_eq : d.tape.growable = true
  /-- Every count fits the slot of its counter. -/
  counts_le : ∀ c ∈ f.counters, counts c.name ≤ c.kind.max

theorem Holds.pos_eq (h : d.Holds f t counts body) :
    d.tape.pos = t.pos + f.bodyOffset + body.length := by
  rw [Tape.pos, h.before_eq, List.length_append, List.length_append, Format.length_preamble,
    ← Tape.pos]

/-! ### Beginning and appending -/

theorem onTape_eq_ok_iff :
    onTape f t = .ok d ↔ t.growable = true ∧ (∀ c ∈ f.header, c.value.Fits) ∧
      ⟨t.write (f.preamble (fun _ => 0) 0), t.pos⟩ = d := by
  unfold onTape
  cases hgrowable : t.growable with
  | false => simp
  | true =>
    have hwrite : (t.write f.headerBytes).write
        (List.replicate (slotsWidth f.counters + slotsWidth f.chunks) 0) =
        t.write (f.preamble (fun _ => 0) 0) := by
      rw [Tape.write_write, ← List.replicate_append_replicate, ← Slot.fill_zero, ← Slot.fill_zero,
        ← List.append_assoc]
      rfl
    cases hfind : f.header.find? fun c => lengthLimit ≤ c.value.payload.length with
    | some c =>
      have hlong : lengthLimit ≤ c.value.payload.length := by simpa using List.find?_some hfind
      have hfits : ¬ ∀ c ∈ f.header, c.value.Fits := by
        intro h
        have hshort : c.value.payload.length < lengthLimit :=
          h c (List.mem_of_find?_eq_some hfind)
        omega
      simp [hfits]
    | none =>
      have hfits : ∀ c ∈ f.header, c.value.Fits := fun c hc => by
        simpa [Value.Fits] using List.find?_eq_none.mp hfind c hc
      rw [and_iff_right rfl, and_iff_right hfits]
      simp [hwrite]

/-- A draft begins without instructions and with all counters at zero. -/
theorem holds_of_onTape (h : onTape f t = .ok d) : d.Holds f t (fun _ => 0) [] := by
  obtain ⟨hgrowable, -, rfl⟩ := onTape_eq_ok_iff.mp h
  refine ⟨rfl, ?_, ?_, hgrowable, fun c _ => Nat.zero_le _⟩
  · simp [Tape.write]
  · simp [Tape.write]

/-- Writing at the head of a draft appends to its instructions. -/
theorem Holds.write (h : d.Holds f t counts body) (bs : List UInt8) :
    Holds f t counts (body ++ bs) { d with tape := d.tape.write bs } := by
  refine ⟨h.start_eq, ?_, ?_, h.growable_eq, h.counts_le⟩
  · simp [Tape.write, h.before_eq]
  · simp [Tape.write, h.after_eq, Nat.add_assoc]

/-! ### Counting -/

/-- The counters of a format, around one of them. -/
theorem preamble_update (hf : f.WellFormed) {before after : List Slot} {c : Slot}
    (hcounters : f.counters = before ++ c :: after) (n : ℕ) :
    f.preamble (Function.update counts c.name n) 0 =
      f.headerBytes ++ Slot.fill counts before ++ LittleEndian.toBytes c.width n ++
        (Slot.fill counts after ++ Slot.fill (fun _ => 0) f.chunks) := by
  have hnodup := hf.nodup_counters
  rw [hcounters, List.map_append, List.map_cons, List.nodup_middle, List.nodup_cons,
    List.mem_append, not_or] at hnodup
  have hother : ∀ s : Slot, s ∈ before ∨ s ∈ after →
      Function.update counts c.name n s.name = counts s.name := by
    intro s hs
    have hne : s.name ≠ c.name := by
      intro hname
      rcases hs with hs | hs
      · have hmem : s.name ∈ before.map (·.name) := List.mem_map_of_mem hs
        exact hnodup.1.1 (hname ▸ hmem)
      · have hmem : s.name ∈ after.map (·.name) := List.mem_map_of_mem hs
        exact hnodup.1.2 (hname ▸ hmem)
    exact Function.update_of_ne hne n counts
  rw [Format.preamble, hcounters, Slot.fill_append, Slot.fill_cons, Function.update_self,
    Slot.fill_congr fun s hs => hother s (Or.inl hs),
    Slot.fill_congr fun s hs => hother s (Or.inr hs)]
  simp only [List.append_assoc]

/-- The bytes before the head of a draft, around the slot of a counter: to replace the number in it
is to change the count. -/
theorem Holds.exists_slot (hf : f.WellFormed) (h : d.Holds f t counts body) {name : String}
    {c : Slot} {index : ℕ} (hc : f.counter? name = some (c, index)) :
    ∃ as cs : List UInt8, as.length = d.start + f.counterOffset index ∧
      d.tape.before = as ++ LittleEndian.toBytes c.width (counts name) ++ cs ∧
      ∀ n, as ++ LittleEndian.toBytes c.width n ++ cs =
        t.before ++ f.preamble (Function.update counts name n) 0 ++ body := by
  obtain ⟨rfl, before, after, hcounters, rfl⟩ := Format.counters_of_counter? hc
  refine ⟨t.before ++ (f.headerBytes ++ Slot.fill counts before),
    Slot.fill counts after ++ Slot.fill (fun _ => 0) f.chunks ++ body, ?_, ?_, ?_⟩
  · rw [h.start_eq, Format.counterOffset, Format.countersOffset, hcounters, List.take_left]
    simp [Tape.pos]
  · rw [h.before_eq, ← Function.update_eq_self c.name counts, preamble_update hf hcounters,
      Function.update_eq_self]
    simp only [List.append_assoc]
  · intro n
    rw [preamble_update hf hcounters]
    simp only [List.append_assoc]

/-- The number in the slot of a counter is its count. -/
theorem Holds.peekNat_eq (hf : f.WellFormed) (h : d.Holds f t counts body) {name : String}
    {c : Slot} {index : ℕ} (hc : f.counter? name = some (c, index)) :
    d.tape.peekNat (d.start + f.counterOffset index) c.width = .ok (counts name) := by
  obtain ⟨as, cs, hlength, hbefore, -⟩ := h.exists_slot hf hc
  have hpeek := Tape.peek_of_before_eq hbefore
  rw [LittleEndian.length_toBytes, hlength] at hpeek
  obtain rfl := (Format.counters_of_counter? hc).1
  have hle := h.counts_le c (Format.mem_of_counter? hc)
  have hpos : 0 < 256 ^ c.kind.width := Nat.pow_pos (by decide)
  have hlt : counts c.name < 256 ^ c.width := by
    rw [SlotKind.max] at hle
    rw [Slot.width]
    omega
  rw [Tape.peekNat, hpeek]
  exact congrArg Except.ok (LittleEndian.ofBytes_toBytes_of_lt hlt)

/-- Below the maximum of its kind, a counter gives out its count and counts on. -/
theorem Holds.nextNumber_eq_ok (hf : f.WellFormed) (h : d.Holds f t counts body) {name : String}
    {c : Slot} {index : ℕ} (hc : f.counter? name = some (c, index))
    (hlt : counts name < c.kind.max) :
    ∃ d', d.nextNumber f index c = .ok (counts name, d') ∧
      d'.Holds f t (Function.update counts name (counts name + 1)) body := by
  obtain ⟨as, cs, hlength, hbefore, hupdate⟩ := h.exists_slot hf hc
  have hpatch : d.tape.patch (d.start + f.counterOffset index)
      (LittleEndian.toBytes c.width (counts name + 1)) =
      .ok ⟨as ++ LittleEndian.toBytes c.width (counts name + 1) ++ cs, d.tape.after,
        d.tape.growable⟩ := by
    rw [← hlength]
    exact Tape.patch_of_before_eq hbefore (by simp)
  refine ⟨⟨⟨as ++ LittleEndian.toBytes c.width (counts name + 1) ++ cs, d.tape.after,
    d.tape.growable⟩, d.start⟩, ?_, h.start_eq, hupdate _, h.after_eq, h.growable_eq, ?_⟩
  · have hnext : ¬ c.kind.max < counts name + 1 := by omega
    rw [nextNumber, h.peekNat_eq hf hc]
    simp [WriteError.ofFault, Except.mapError, Bind.bind, Except.bind, hnext, hpatch, Pure.pure,
      Except.pure]
  · intro c' hc'
    by_cases hname : c'.name = name
    · obtain rfl := Format.eq_of_counter? hf hc hc' hname
      rw [hname, Function.update_self]
      exact hlt
    · rw [Function.update_of_ne hname]
      exact h.counts_le c' hc'

/-- At the maximum of its kind, a counter gives out no more numbers. -/
theorem Holds.nextNumber_eq_error (hf : f.WellFormed) (h : d.Holds f t counts body) {name : String}
    {c : Slot} {index : ℕ} (hc : f.counter? name = some (c, index))
    (hle : c.kind.max ≤ counts name) :
    d.nextNumber f index c = .error (.counterOverflow name) := by
  have hnext : c.kind.max < counts name + 1 := by omega
  rw [nextNumber, h.peekNat_eq hf hc, (Format.counters_of_counter? hc).1]
  simp [WriteError.ofFault, Except.mapError, Bind.bind, Except.bind, hnext, throw, throwThe,
    MonadExceptOf.throw]

/-! ### Finishing -/

theorem Holds.length_eq (h : d.Holds f t counts body) :
    d.tape.pos - (d.start + f.bodyOffset) = body.length := by
  rw [h.pos_eq, h.start_eq]
  omega

/-- The bytes before the head of a draft, around the slots of the chunks. -/
theorem Holds.before_eq_chunks (h : d.Holds f t counts body) :
    d.tape.before = (t.before ++ f.headerBytes ++ Slot.fill counts f.counters) ++
      Slot.fill (fun _ => 0) f.chunks ++ body := by
  rw [h.before_eq, Format.preamble]
  simp only [List.append_assoc]

theorem Holds.start_add_chunksOffset (h : d.Holds f t counts body) :
    d.start + f.chunksOffset =
      (t.before ++ f.headerBytes ++ Slot.fill counts f.counters).length := by
  rw [h.start_eq, Format.chunksOffset, Format.countersOffset, List.length_append,
    List.length_append, Slot.length_fill, Tape.pos, Nat.add_assoc]

/-- The slots of the chunks, all zero so far, can be given any one number. -/
theorem Holds.patch_eq (h : d.Holds f t counts body) (n : ℕ) :
    d.tape.patch (d.start + f.chunksOffset) (Slot.fill (fun _ => n) f.chunks) =
      .ok { d.tape with before := t.before ++ (f.preamble counts n ++ body) } := by
  rw [h.start_add_chunksOffset, Tape.patch_of_before_eq h.before_eq_chunks (by simp)]
  simp [Format.preamble]

/-- Finishing writes the length of the instructions into the slot of every chunk. -/
theorem Holds.finish_eq_ok (h : d.Holds f t counts body)
    (hfits : ∀ k ∈ f.chunks, body.length ≤ k.kind.max) :
    d.finish f = .ok ⟨t.before, f.preamble counts body.length ++ body ++
      t.after.drop (f.bodyOffset + body.length), true⟩ := by
  have hfind : f.chunks.find? (fun k => k.kind.max < body.length) = none := by
    rw [List.find?_eq_none]
    intro k hk
    simpa using hfits k hk
  have hpatch := h.patch_eq body.length
  rw [Slot.fill] at hpatch
  simp only [finish, h.length_eq, hfind]
  rw [hpatch]
  show WriteError.ofFault (Tape.seek d.start _) = _
  rw [h.start_eq, Tape.pos, Tape.seek_of_before_eq rfl, h.after_eq, h.growable_eq]
  rfl

/-- A chunk whose slot cannot hold the length of the instructions makes finishing fail. -/
theorem Holds.finish_eq_error (h : d.Holds f t counts body) {k : Slot} (hk : k ∈ f.chunks)
    (hlt : k.kind.max < body.length) :
    ∃ name, d.finish f = .error (.chunkOverflow name body.length) := by
  cases hfind : f.chunks.find? fun k => k.kind.max < body.length with
  | none => simpa [hlt] using List.find?_eq_none.mp hfind k hk
  | some k' =>
    refine ⟨k'.name, ?_⟩
    simp only [finish, h.length_eq, hfind]
    rfl

end Draft

end Bytecode
