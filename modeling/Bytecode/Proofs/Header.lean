import Bytecode.Proofs.Codec
import Bytecode.Reader

/-!
# What binding a tape accepts

Binding a tape to a reader succeeds exactly when the bytes ahead of its head start with the
encodings of the constants and go on for at least as long as the slots of the counters and chunk
lengths. Otherwise it names the first part of the header that is wrong or missing
(`Format.FirstFault`).

A damaged length word inside a constant changes how everything after it is taken apart. The proof
never follows such a reading: `Constant.read_eq_ok_iff` says that a constant is read exactly where
its own bytes lie ahead, so that all other bytes, however they would be taken apart, are faults of
that constant.
-/

namespace Bytecode

/-! ### Constants -/

namespace Constant

/-- The bytes that writing a constant gives, unless it is refused. -/
def encoding? (c : Constant) : Option (List UInt8) :=
  (c.value.kind.encode c.value Tape.blank).toOption.map Tape.bytes

theorem encoding?_eq_some_iff {c : Constant} {bs : List UInt8} :
    c.encoding? = some bs ↔ c.value.Fits ∧ c.value.wire = bs := by
  have hblank (w : Value) : (Tape.blank.write w.wire).bytes = w.wire := by
    simp [Tape.write, Tape.blank, Tape.bytes]
  unfold encoding?
  cases h : c.value.kind.encode c.value Tape.blank with
  | error e =>
    refine iff_of_false (by simp [Except.toOption]) ?_
    rintro ⟨hfits, -⟩
    rw [Kind.encode_eq_ok_iff.mpr ⟨c.value, Kind.coerce_self c.value, hfits, rfl⟩] at h
    cases h
  | ok t =>
    obtain ⟨w, hw, hfits, rfl⟩ := Kind.encode_eq_ok_iff.mp h
    rw [Kind.coerce_self] at hw
    obtain rfl := Option.some.inj hw
    simp [Except.toOption, hblank, hfits]

/-- A byte string starts with the encodings of a row of constants, one after another. -/
def Open (cs : List Constant) (bs : List UInt8) : Prop :=
  ∃ encodings, cs.mapM encoding? = some encodings ∧ encodings.flatten <+: bs

theorem mapM_encoding?_eq_some_iff {cs : List Constant} {encodings : List (List UInt8)} :
    cs.mapM encoding? = some encodings ↔
      (∀ c ∈ cs, c.value.Fits) ∧ cs.map (·.value.wire) = encodings := by
  induction cs generalizing encodings with
  | nil => simp
  | cons c cs ih =>
    rw [List.mapM_cons, List.forall_mem_cons, List.map_cons]
    constructor
    · intro h
      obtain ⟨bs, hbs, h⟩ := Option.bind_eq_some_iff.mp h
      obtain ⟨rest, hrest, h⟩ := Option.bind_eq_some_iff.mp h
      cases h
      obtain ⟨hfits, rfl⟩ := encoding?_eq_some_iff.mp hbs
      obtain ⟨hall, rfl⟩ := ih.mp hrest
      exact ⟨⟨hfits, hall⟩, rfl⟩
    · rintro ⟨⟨hfits, hall⟩, rfl⟩
      rw [encoding?_eq_some_iff.mpr ⟨hfits, rfl⟩, ih.mpr ⟨hall, rfl⟩]
      rfl

theorem open_iff {cs : List Constant} {bs : List UInt8} :
    Open cs bs ↔ (∀ c ∈ cs, c.value.Fits) ∧ cs.flatMap (·.value.wire) <+: bs := by
  unfold Open
  rw [List.flatMap_def]
  constructor
  · rintro ⟨encodings, h, hprefix⟩
    obtain ⟨hfits, rfl⟩ := mapM_encoding?_eq_some_iff.mp h
    exact ⟨hfits, hprefix⟩
  · rintro ⟨hfits, hprefix⟩
    exact ⟨_, mapM_encoding?_eq_some_iff.mpr ⟨hfits, rfl⟩, hprefix⟩

/-- A constant is read where its own wire form lies ahead. -/
theorem read_eq_ok_iff {c : Constant} {entry : String × Value} {t t' : Tape} :
    c.read t = .ok (entry, t') ↔
      (entry = (c.name, c.value) ∧ c.value.Fits) ∧ t.Passes c.value.wire t' := by
  rw [read, Parsing.bind_eq_ok_iff]
  constructor
  · rintro ⟨value, t₁, hvalue, h⟩
    rw [Tape.Reading.reporting_eq_ok_iff, Kind.decode_eq_ok_iff] at hvalue
    obtain ⟨-, hfits, hpasses⟩ := hvalue
    split at h
    · rename_i heq
      cases h
      rw [heq] at hfits hpasses ⊢
      exact ⟨⟨rfl, hfits⟩, hpasses⟩
    · cases h
  · rintro ⟨⟨rfl, hfits⟩, hpasses⟩
    refine ⟨c.value, t', ?_, ?_⟩
    · rw [Tape.Reading.reporting_eq_ok_iff, Kind.decode_eq_ok_iff]
      exact ⟨rfl, hfits, hpasses⟩
    · rw [if_pos rfl]
      rfl

theorem eq_of_read_eq_error {c : Constant} {t : Tape} {e : ReadError} (h : c.read t = .error e) :
    e = .corruptHeader c.name := by
  rw [read, Parsing.bind_eq_error_iff] at h
  rcases h with h | ⟨value, t₁, -, h⟩
  · obtain ⟨_, rfl⟩ := Tape.Reading.eq_of_reporting_eq_error h
    rfl
  · split at h
    · cases h
    · cases h
      rfl

theorem forall₂_entry_iff {cs : List Constant} {entries : List (String × Value)} :
    List.Forall₂ (fun c entry => entry = (c.name, c.value) ∧ c.value.Fits) cs entries ↔
      entries = cs.map (fun c => (c.name, c.value)) ∧ ∀ c ∈ cs, c.value.Fits := by
  induction cs generalizing entries with
  | nil => simp
  | cons c cs ih =>
    rw [List.forall₂_cons_left_iff, List.map_cons, List.forall_mem_cons]
    constructor
    · rintro ⟨_, rest, ⟨rfl, hfits⟩, hrest, rfl⟩
      obtain ⟨rfl, hall⟩ := ih.mp hrest
      exact ⟨rfl, hfits, hall⟩
    · rintro ⟨rfl, hfits, hall⟩
      exact ⟨_, _, ⟨rfl, hfits⟩, ih.mpr ⟨rfl, hall⟩, rfl⟩

theorem mapM_read_eq_ok_iff {cs : List Constant} {entries : List (String × Value)} {t t' : Tape} :
    cs.mapM read t = .ok (entries, t') ↔
      (entries = cs.map (fun c => (c.name, c.value)) ∧ ∀ c ∈ cs, c.value.Fits) ∧
        t.Passes (cs.flatMap (·.value.wire)) t' := by
  rw [Parsing.mapM_eq_ok_iff (fun c _ => c.value.wire) read_eq_ok_iff, forall₂_entry_iff]
  refine and_congr_right fun h => ?_
  have hwire : List.zipWith (fun c _ => c.value.wire) cs entries = cs.map (·.value.wire) := by
    rw [h.1, List.zipWith_map_right, List.zipWith_self]
  rw [hwire, List.flatMap_def]

/-- A row of constants is read where their encodings lie ahead. -/
theorem exists_mapM_read_iff {cs : List Constant} {t : Tape} :
    (∃ r, cs.mapM read t = .ok r) ↔ Open cs t.after := by
  rw [open_iff, ← Tape.exists_passes_iff]
  constructor
  · rintro ⟨⟨entries, t'⟩, h⟩
    obtain ⟨⟨-, hfits⟩, hpasses⟩ := mapM_read_eq_ok_iff.mp h
    exact ⟨hfits, t', hpasses⟩
  · rintro ⟨hfits, t', hpasses⟩
    exact ⟨(_, t'), mapM_read_eq_ok_iff.mpr ⟨⟨rfl, hfits⟩, hpasses⟩⟩

end Constant

/-! ### Slots -/

namespace Slot

/-- A named number can stand in a slot. -/
def Admits (s : Slot) (entry : String × Nat) : Prop := entry.1 = s.name ∧ entry.2 < 256 ^ s.width

theorem read_eq_ok_iff {s : Slot} {entry : String × Nat} {t t' : Tape} :
    s.read t = .ok (entry, t') ↔
      s.Admits entry ∧ t.Passes (LittleEndian.toBytes s.width entry.2) t' := by
  rw [read, Parsing.bind_eq_ok_iff]
  constructor
  · rintro ⟨number, t₁, hnumber, h⟩
    cases h
    rw [Tape.Reading.reporting_eq_ok_iff, Tape.readNat_eq_ok_iff] at hnumber
    exact ⟨⟨rfl, hnumber.1⟩, hnumber.2⟩
  · obtain ⟨name, number⟩ := entry
    rintro ⟨⟨rfl, hnumber⟩, hpasses⟩
    refine ⟨number, t', ?_, rfl⟩
    rw [Tape.Reading.reporting_eq_ok_iff, Tape.readNat_eq_ok_iff]
    exact ⟨hnumber, hpasses⟩

/-- The bytes of a row of slots that hold named numbers. -/
def wires (slots : List Slot) (entries : List (String × Nat)) : List UInt8 :=
  (List.zipWith (fun s entry => LittleEndian.toBytes s.width entry.2) slots entries).flatten

theorem length_wires {slots : List Slot} {entries : List (String × Nat)}
    (h : List.Forall₂ Admits slots entries) : (wires slots entries).length = slotsWidth slots := by
  unfold wires slotsWidth
  induction h with
  | nil => rfl
  | cons _ _ ih =>
    rw [List.zipWith_cons_cons, List.flatten_cons, List.length_append, ih,
      LittleEndian.length_toBytes, List.map_cons, List.sum_cons]

theorem mapM_read_eq_ok_iff {slots : List Slot} {entries : List (String × Nat)} {t t' : Tape} :
    slots.mapM read t = .ok (entries, t') ↔
      List.Forall₂ Admits slots entries ∧ t.Passes (wires slots entries) t' :=
  Parsing.mapM_eq_ok_iff (fun (s : Slot) (entry : String × Nat) =>
    LittleEndian.toBytes s.width entry.2) read_eq_ok_iff

theorem eq_of_read_eq_error {s : Slot} {t : Tape} {e : ReadError} (h : s.read t = .error e) :
    e = .corruptHeader s.name := by
  rw [read, Parsing.bind_eq_error_iff] at h
  rcases h with h | ⟨_, _, -, h⟩
  · obtain ⟨_, rfl⟩ := Tape.Reading.eq_of_reporting_eq_error h
    rfl
  · cases h

theorem exists_read_iff {s : Slot} {t : Tape} :
    (∃ r, s.read t = .ok r) ↔ s.width ≤ t.remaining := by
  rw [← Tape.exists_readNat_iff]
  constructor
  · rintro ⟨⟨entry, t'⟩, h⟩
    obtain ⟨⟨-, hlt⟩, hpasses⟩ := read_eq_ok_iff.mp h
    exact ⟨entry.2, t', Tape.readNat_eq_ok_iff.mpr ⟨hlt, hpasses⟩⟩
  · rintro ⟨number, t', h⟩
    obtain ⟨hlt, hpasses⟩ := Tape.readNat_eq_ok_iff.mp h
    exact ⟨((s.name, number), t'), read_eq_ok_iff.mpr ⟨⟨rfl, hlt⟩, hpasses⟩⟩

theorem remaining_of_read {s : Slot} {entry : String × Nat} {t t' : Tape}
    (h : s.read t = .ok (entry, t')) : t.remaining = s.width + t'.remaining := by
  rw [(read_eq_ok_iff.mp h).2.remaining_eq, LittleEndian.length_toBytes]

/-- A row of slots is read where there are enough bytes. -/
theorem exists_mapM_read_iff {slots : List Slot} {t : Tape} :
    (∃ r, slots.mapM read t = .ok r) ↔ slotsWidth slots ≤ t.remaining := by
  induction slots generalizing t with
  | nil => exact iff_of_true ⟨_, rfl⟩ (Nat.zero_le _)
  | cons s slots ih =>
    have hwidth : slotsWidth (s :: slots) = s.width + slotsWidth slots := by simp [slotsWidth]
    rw [List.mapM_cons, hwidth]
    constructor
    · rintro ⟨r, h⟩
      obtain ⟨entry, t₁, hentry, h⟩ := Parsing.bind_eq_ok_iff.mp h
      obtain ⟨entries, t₂, hentries, -⟩ := Parsing.bind_eq_ok_iff.mp h
      have hrest := ih.mp ⟨_, hentries⟩
      have hremaining := remaining_of_read hentry
      omega
    · intro h
      have hfirst : s.width ≤ t.remaining := by omega
      obtain ⟨⟨entry, t₁⟩, hentry⟩ := exists_read_iff.mpr hfirst
      have hremaining := remaining_of_read hentry
      have hrest : slotsWidth slots ≤ t₁.remaining := by omega
      obtain ⟨⟨entries, t₂⟩, hentries⟩ := ih.mpr hrest
      refine ⟨(entry :: entries, t₂), Parsing.bind_eq_ok_iff.mpr ⟨entry, t₁, hentry, ?_⟩⟩
      exact Parsing.bind_eq_ok_iff.mpr ⟨entries, t₂, hentries, rfl⟩

end Slot

/-! ### Headers -/

namespace Format

/-- The slots of a header, in wire order. -/
def slots (f : Format) : List Slot := f.counters ++ f.chunks

theorem bodyOffset_eq (f : Format) : f.bodyOffset = f.headerBytes.length + slotsWidth f.slots := by
  simp [bodyOffset, chunksOffset, countersOffset, slots, slotsWidth, Nat.add_assoc]

/-- `name` names the first part of the header that `bs` does not start with. -/
inductive FirstFault (f : Format) (bs : List UInt8) : (name : String) → Prop where
  /-- The constants before `c` are there, and `c` is not. -/
  | constant {before after : List Constant} {c : Constant} :
    f.header = before ++ c :: after → Constant.Open before bs → ¬ Constant.Open (before ++ [c]) bs →
      FirstFault f bs c.name
  /-- All constants are there, and the bytes after them end inside `s`. -/
  | slot {before after : List Slot} {s : Slot} :
    f.slots = before ++ s :: after → Constant.Open f.header bs →
      f.headerBytes.length + slotsWidth before ≤ bs.length →
      bs.length < f.headerBytes.length + slotsWidth (before ++ [s]) → FirstFault f bs s.name

theorem readHeader_eq_ok_iff {f : Format} {h : Header} {t t' : Tape} :
    f.readHeader t = .ok (h, t') ↔
      ∃ fields t₁ counters t₂ chunks, f.header.mapM Constant.read t = .ok (fields, t₁) ∧
        f.counters.mapM Slot.read t₁ = .ok (counters, t₂) ∧
        f.chunks.mapM Slot.read t₂ = .ok (chunks, t') ∧
        h = ⟨t.pos, t'.pos, fields, counters, chunks⟩ := by
  unfold readHeader
  rw [Parsing.bind_eq_ok_iff]
  constructor
  · rintro ⟨_, _, hget, h⟩
    cases hget
    obtain ⟨fields, t₁, hfields, h⟩ := Parsing.bind_eq_ok_iff.mp h
    obtain ⟨counters, t₂, hcounters, h⟩ := Parsing.bind_eq_ok_iff.mp h
    obtain ⟨chunks, t₃, hchunks, h⟩ := Parsing.bind_eq_ok_iff.mp h
    obtain ⟨_, _, hget, hpure⟩ := Parsing.bind_eq_ok_iff.mp h
    cases hget
    cases hpure
    exact ⟨fields, t₁, counters, t₂, chunks, hfields, hcounters, hchunks, rfl⟩
  · rintro ⟨fields, t₁, counters, t₂, chunks, hfields, hcounters, hchunks, rfl⟩
    refine ⟨t, t, rfl, Parsing.bind_eq_ok_iff.mpr ⟨fields, t₁, hfields, ?_⟩⟩
    refine Parsing.bind_eq_ok_iff.mpr ⟨counters, t₂, hcounters, ?_⟩
    exact Parsing.bind_eq_ok_iff.mpr ⟨chunks, t', hchunks, rfl⟩

/-- What makes reading a header fail is a constant or, after the constants, a slot. -/
theorem constants_or_slots_of_readHeader_eq_error {f : Format} {t : Tape} {e : ReadError}
    (h : f.readHeader t = .error e) :
    f.header.mapM Constant.read t = .error e ∨
      ∃ fields t₁, f.header.mapM Constant.read t = .ok (fields, t₁) ∧
        f.slots.mapM Slot.read t₁ = .error e := by
  rcases Parsing.bind_eq_error_iff.mp h with hget | ⟨_, _, hget, h⟩
  · cases hget
  cases hget
  rcases Parsing.bind_eq_error_iff.mp h with h | ⟨fields, t₁, hfields, h⟩
  · exact Or.inl h
  refine Or.inr ⟨fields, t₁, hfields, Parsing.mapM_append_eq_error_iff.mpr ?_⟩
  rcases Parsing.bind_eq_error_iff.mp h with h | ⟨counters, t₂, hcounters, h⟩
  · exact Or.inl h
  refine Or.inr ⟨counters, t₂, hcounters, ?_⟩
  rcases Parsing.bind_eq_error_iff.mp h with h | ⟨chunks, t₃, hchunks, h⟩
  · exact h
  · cases h

/-- A header is read where the constants lie ahead and enough bytes for the slots follow. -/
theorem exists_readHeader_iff {f : Format} {t : Tape} :
    (∃ r, f.readHeader t = .ok r) ↔
      Constant.Open f.header t.after ∧
        f.headerBytes.length + slotsWidth f.slots ≤ t.remaining := by
  constructor
  · rintro ⟨⟨h, t'⟩, hread⟩
    obtain ⟨fields, t₁, counters, t₂, chunks, hfields, hcounters, hchunks, -⟩ :=
      readHeader_eq_ok_iff.mp hread
    refine ⟨Constant.exists_mapM_read_iff.mp ⟨_, hfields⟩, ?_⟩
    have hslots := Parsing.mapM_append_eq_ok_iff.mpr ⟨counters, t₂, chunks, hcounters, hchunks, rfl⟩
    have hwidth : slotsWidth f.slots ≤ t₁.remaining := Slot.exists_mapM_read_iff.mp ⟨_, hslots⟩
    have hremaining := (Constant.mapM_read_eq_ok_iff.mp hfields).2.remaining_eq
    rw [← headerBytes] at hremaining
    omega
  · rintro ⟨hopen, hlength⟩
    -- any bytes are numbers in slots, so that only their number matters
    obtain ⟨⟨fields, t₁⟩, hfields⟩ := Constant.exists_mapM_read_iff.mpr hopen
    have hremaining := (Constant.mapM_read_eq_ok_iff.mp hfields).2.remaining_eq
    rw [← headerBytes] at hremaining
    have hwidth : slotsWidth f.slots ≤ t₁.remaining := by omega
    obtain ⟨⟨entries, t'⟩, hslots⟩ := Slot.exists_mapM_read_iff.mpr hwidth
    obtain ⟨counters, t₂, chunks, hcounters, hchunks, -⟩ :=
      Parsing.mapM_append_eq_ok_iff.mp hslots
    exact ⟨(_, t'), readHeader_eq_ok_iff.mpr
      ⟨fields, t₁, counters, t₂, chunks, hfields, hcounters, hchunks, rfl⟩⟩

/-- Reading a header that is not there fails with its first fault. -/
theorem firstFault_of_readHeader {f : Format} {t : Tape} {e : ReadError}
    (h : f.readHeader t = .error e) :
    ∃ name, e = .corruptHeader name ∧ f.FirstFault t.after name := by
  rcases constants_or_slots_of_readHeader_eq_error h with h | ⟨fields, t₁, hfields, h⟩
  · obtain ⟨before, c, after, heq, hbefore, hfirst, t₂, hc⟩ := Parsing.exists_of_mapM_eq_error h
    refine ⟨c.name, Constant.eq_of_read_eq_error hc, .constant heq ?_ ?_⟩
    · exact Constant.exists_mapM_read_iff.mp hbefore
    · intro hopen
      obtain ⟨r, hr⟩ := Constant.exists_mapM_read_iff.mpr hopen
      rw [hr] at hfirst
      cases hfirst
  · obtain ⟨before, s, after, heq, hbefore, hfirst, t₂, hs⟩ := Parsing.exists_of_mapM_eq_error h
    have hremaining := (Constant.mapM_read_eq_ok_iff.mp hfields).2.remaining_eq
    rw [← headerBytes] at hremaining
    refine ⟨s.name, Slot.eq_of_read_eq_error hs, .slot heq ?_ ?_ ?_⟩
    · exact Constant.exists_mapM_read_iff.mp ⟨_, hfields⟩
    · have hwidth := Slot.exists_mapM_read_iff.mp hbefore
      rw [← Tape.remaining]
      omega
    · -- otherwise the slots up to `s` could be read
      by_contra hlength
      rw [← Tape.remaining] at hlength
      have hwidth : slotsWidth (before ++ [s]) ≤ t₁.remaining := by omega
      obtain ⟨r, hr⟩ := Slot.exists_mapM_read_iff.mpr hwidth
      rw [hr] at hfirst
      cases hfirst

/-- Reading a header accepts the encodings of the constants, followed by slots that hold any
numbers. -/
theorem readHeader_eq_ok_iff_passes {f : Format} {h : Header} {t t' : Tape} :
    f.readHeader t = .ok (h, t') ↔
      (h.start = t.pos ∧ h.bodyStart = t'.pos ∧
        h.fields = f.header.map (fun c => (c.name, c.value))) ∧ (∀ c ∈ f.header, c.value.Fits) ∧
        List.Forall₂ Slot.Admits f.counters h.counters ∧
        List.Forall₂ Slot.Admits f.chunks h.chunks ∧
        t.Passes (f.headerBytes ++ Slot.wires f.counters h.counters ++
          Slot.wires f.chunks h.chunks) t' := by
  rw [readHeader_eq_ok_iff]
  constructor
  · rintro ⟨fields, t₁, counters, t₂, chunks, hfields, hcounters, hchunks, rfl⟩
    obtain ⟨⟨hentries, hfits⟩, hpasses⟩ := Constant.mapM_read_eq_ok_iff.mp hfields
    obtain ⟨hcounters, hpasses₁⟩ := Slot.mapM_read_eq_ok_iff.mp hcounters
    obtain ⟨hchunks, hpasses₂⟩ := Slot.mapM_read_eq_ok_iff.mp hchunks
    exact ⟨⟨rfl, rfl, hentries⟩, hfits, hcounters, hchunks,
      (hpasses.trans hpasses₁).trans hpasses₂⟩
  · rintro ⟨⟨hstart, hbody, hentries⟩, hfits, hcounters, hchunks, hpasses⟩
    obtain ⟨t₂, hpasses, hpasses₂⟩ := hpasses.split
    obtain ⟨t₁, hpasses, hpasses₁⟩ := hpasses.split
    refine ⟨h.fields, t₁, h.counters, t₂, h.chunks, ?_, ?_, ?_, ?_⟩
    · exact Constant.mapM_read_eq_ok_iff.mpr ⟨⟨hentries, hfits⟩, hpasses⟩
    · exact Slot.mapM_read_eq_ok_iff.mpr ⟨hcounters, hpasses₁⟩
    · exact Slot.mapM_read_eq_ok_iff.mpr ⟨hchunks, hpasses₂⟩
    · rw [← hstart, ← hbody]

theorem pos_of_readHeader {f : Format} {h : Header} {t t' : Tape}
    (hread : f.readHeader t = .ok (h, t')) :
    t'.pos = t.pos + (f.headerBytes.length + slotsWidth f.slots) := by
  obtain ⟨-, -, hcounters, hchunks, hpasses⟩ := readHeader_eq_ok_iff_passes.mp hread
  rw [hpasses.pos_eq, List.length_append, List.length_append, Slot.length_wires hcounters,
    Slot.length_wires hchunks, slots]
  simp [slotsWidth, Nat.add_assoc]

/-- The bytes of the constants are the same wherever they open a byte string. -/
theorem getElem?_of_open {f : Format} {bs : List UInt8} (h : Constant.Open f.header bs) {i : ℕ}
    (hi : i < f.headerBytes.length) : bs[i]? = f.headerBytes[i]? := by
  obtain ⟨-, rest, rfl⟩ := Constant.open_iff.mp h
  exact List.getElem?_append_left hi

end Format

/-! ### Binding a tape -/

namespace Reader

variable {η ι : Type} {r : Reader η ι} {t : Tape}

theorem bind_of_readHeader_eq_ok {header : Header} {t' : Tape}
    (h : r.format.readHeader t = .ok (header, t')) :
    r.bind t = (.ok (r.headerHandler.map fun label => .header label header),
      { r with source := .opened header t' }) := by
  rw [bind, h]

theorem bind_of_readHeader_eq_error {e : ReadError} (h : r.format.readHeader t = .error e) :
    r.bind t = (.error e, { r with source := .rejected t }) := by
  rw [bind, h]

theorem exists_bind_eq_ok_iff :
    (∃ event, (r.bind t).1 = .ok event) ↔ ∃ result, r.format.readHeader t = .ok result := by
  cases h : r.format.readHeader t with
  | error e => simp [bind_of_readHeader_eq_error h]
  | ok result => simp [bind_of_readHeader_eq_ok h]

/-- **Binding accepts exactly the right headers.** A tape is accepted iff the constants open the
bytes ahead of its head and the slots fit after them; then the instructions start behind the slots
and the header handler is called, once. A tape that is not accepted is kept as it is and the first
fault of its header is named, so that a change to any byte of the constants is noticed. -/
theorem bind_accepts_exactly (r : Reader η ι) (t : Tape) :
    ((∃ event, (r.bind t).1 = .ok event) ↔
      Constant.Open r.format.header t.after ∧
        r.format.headerBytes.length + slotsWidth r.format.slots ≤ t.remaining) ∧
    (∀ event, (r.bind t).1 = .ok event → ∃ header, (r.bind t).2.header? = some header ∧
      header.start = t.pos ∧
      header.bodyStart = t.pos + (r.format.headerBytes.length + slotsWidth r.format.slots) ∧
      (r.bind t).2.pos? = some header.bodyStart ∧
      event = r.headerHandler.map fun label => .header label header) ∧
    (∀ e, (r.bind t).1 = .error e →
      (∃ name, e = .corruptHeader name ∧ r.format.FirstFault t.after name) ∧
      (r.bind t).2.header? = none ∧ (r.bind t).2.source.tape? = some t ∧
      (r.bind t).2.pos? = some t.pos) ∧
    ∀ t' : Tape, (∃ event, (r.bind t).1 = .ok event) →
      (∃ i < r.format.headerBytes.length, t'.after[i]? ≠ t.after[i]?) →
      ∃ c ∈ r.format.header, (r.bind t').1 = .error (.corruptHeader c.name) := by
  refine ⟨?_, ?_, ?_, ?_⟩
  · rw [exists_bind_eq_ok_iff, Format.exists_readHeader_iff]
  · intro event hevent
    obtain ⟨⟨header, t'⟩, hread⟩ := exists_bind_eq_ok_iff.mp ⟨event, hevent⟩
    obtain ⟨⟨hstart, hbody, -⟩, -⟩ := Format.readHeader_eq_ok_iff_passes.mp hread
    rw [bind_of_readHeader_eq_ok hread] at hevent ⊢
    cases hevent
    refine ⟨header, rfl, hstart, ?_, ?_, rfl⟩
    · rw [hbody, Format.pos_of_readHeader hread]
    · rw [hbody]
      rfl
  · intro e he
    cases hread : r.format.readHeader t with
    | ok result =>
      rw [bind_of_readHeader_eq_ok hread] at he
      cases he
    | error e' =>
      rw [bind_of_readHeader_eq_error hread] at he ⊢
      cases he
      exact ⟨Format.firstFault_of_readHeader hread, rfl, rfl, rfl⟩
  · rintro t' haccepted ⟨i, hi, hne⟩
    have hopen := (Format.exists_readHeader_iff.mp (exists_bind_eq_ok_iff.mp haccepted)).1
    -- the constants are not there, so the first fault is one of them
    have hclosed : ¬ Constant.Open r.format.header t'.after := fun hopen' =>
      hne ((Format.getElem?_of_open hopen' hi).trans (Format.getElem?_of_open hopen hi).symm)
    cases hread : r.format.readHeader t' with
    | ok result => exact absurd (Format.exists_readHeader_iff.mp ⟨result, hread⟩).1 hclosed
    | error e =>
      rw [bind_of_readHeader_eq_error hread]
      obtain ⟨name, rfl, hfault⟩ := Format.firstFault_of_readHeader hread
      cases hfault with
      | @constant before after c heq _ _ => exact ⟨c, by simp [heq], rfl⟩
      | slot _ hopen' _ _ => exact absurd hopen' hclosed

end Reader

end Bytecode
