import Bytecode.Cartridge.Header
import Mathlib.Data.List.Forall2

/-!
# Reading as a passage over bytes

`t.Passes bs t'` says that `t'` is `t` with its head moved over the bytes `bs`. Every successful
sequential read is such a passage, over the bytes that it accounts for, and it succeeds whenever
these bytes lie ahead: this is what the `_eq_ok_iff` lemmas say, from `take_eq_ok_iff` up to the
reads of words (`readNat_eq_ok_iff`) and of texts (`readText_eq_ok_iff`).

Passages compose (`Passes.trans`) and split (`Passes.split`), so that what a sequence of reads
accepts is found by appending what each of them accepts; `mapM_eq_ok_iff` does this for a row of
items of any type.
-/

namespace Bytecode

/-! ### Opening computations -/

section Monads

variable {α β : Type}

section Stateful

variable {ε σ : Type} {work : EStateM ε σ α} {s s' : σ} {a : α} {e : ε}

theorem map_of_ok (h : work s = .ok a s') (g : α → β) : (g <$> work) s = .ok (g a) s' := by
  show EStateM.map g work s = .ok (g a) s'
  rw [EStateM.map, h]

theorem map_of_error (h : work s = .error e s') (g : α → β) : (g <$> work) s = .error e s' := by
  show EStateM.map g work s = .error e s'
  rw [EStateM.map, h]

theorem bind_of_ok (h : work s = .ok a s') (next : α → EStateM ε σ β) :
    (work >>= next) s = next a s' := by
  show EStateM.bind work next s = next a s'
  rw [EStateM.bind, h]

theorem bind_of_error (h : work s = .error e s') (next : α → EStateM ε σ β) :
    (work >>= next) s = .error e s' := by
  show EStateM.bind work next s = .error e s'
  rw [EStateM.bind, h]

end Stateful

theorem Tape.Reading.map_eq_ok_iff {read : Tape.Reading α} {g : α → β} {b : β} {t t' : Tape} :
    (g <$> read) t = .ok b t' ↔ ∃ a, read t = .ok a t' ∧ g a = b := by
  simp only [Functor.map, EStateM.map]
  constructor
  · intro h
    split at h
    · cases h
      exact ⟨_, ‹_›, rfl⟩
    · cases h
  · rintro ⟨a, ha, rfl⟩
    rw [ha]

theorem Tape.Reading.bind_eq_ok_iff {read : Tape.Reading α} {next : α → Tape.Reading β} {b : β}
    {t t' : Tape} :
    (read >>= next) t = .ok b t' ↔ ∃ a t₁, read t = .ok a t₁ ∧ next a t₁ = .ok b t' := by
  simp only [Bind.bind, EStateM.bind]
  constructor
  · intro h
    split at h
    · exact ⟨_, _, ‹_›, h⟩
    · cases h
  · rintro ⟨a, t₁, ha, h⟩
    rw [ha]
    exact h

theorem Parsing.bind_eq_ok_iff {parse : Parsing α} {next : α → Parsing β} {t : Tape}
    {r : β × Tape} :
    (parse >>= next) t = .ok r ↔ ∃ a t₁, parse t = .ok (a, t₁) ∧ next a t₁ = .ok r := by
  simp only [Bind.bind, StateT.bind, Except.bind]
  constructor
  · intro h
    split at h
    · cases h
    · exact ⟨_, _, ‹_›, h⟩
  · rintro ⟨a, t₁, ha, h⟩
    rw [ha]
    exact h

theorem Parsing.bind_eq_error_iff {parse : Parsing α} {next : α → Parsing β} {t : Tape}
    {e : ReadError} :
    (parse >>= next) t = .error e ↔
      parse t = .error e ∨ ∃ a t₁, parse t = .ok (a, t₁) ∧ next a t₁ = .error e := by
  simp only [Bind.bind, StateT.bind, Except.bind]
  cases h : parse t with
  | error e' => simp
  | ok r =>
    obtain ⟨a, t₁⟩ := r
    simp only [reduceCtorEq, Except.ok.injEq, Prod.mk.injEq, false_or]
    constructor
    · exact fun h' => ⟨a, t₁, ⟨rfl, rfl⟩, h'⟩
    · rintro ⟨_, _, ⟨rfl, rfl⟩, h'⟩
      exact h'

theorem Tape.Reading.eq_of_reporting_eq_error {read : Tape.Reading α}
    {report : Tape.Fault → ReadError} {t : Tape} {e : ReadError}
    (h : read.reporting report t = .error e) : ∃ fault, e = report fault := by
  unfold Tape.Reading.reporting at h
  split at h
  · cases h
  · cases h
    exact ⟨_, rfl⟩

theorem Tape.Reading.reporting_eq_ok_iff {read : Tape.Reading α} {report : Tape.Fault → ReadError}
    {t t' : Tape} {a : α} : read.reporting report t = .ok (a, t') ↔ read t = .ok a t' := by
  unfold Tape.Reading.reporting
  cases read t <;> simp

end Monads

namespace Tape

/-! ### Passages -/

/-- `t'` is `t` with its head moved over the bytes `bs`. -/
structure Passes (t : Tape) (bs : List UInt8) (t' : Tape) : Prop where
  /-- The bytes lie ahead of the head before. -/
  after_eq : t.after = bs ++ t'.after
  /-- The bytes lie behind the head afterwards. -/
  before_eq : t'.before = t.before ++ bs
  /-- Nothing else has changed. -/
  growable_eq : t'.growable = t.growable

variable {t t' t'' t₁ t₂ : Tape} {bs cs : List UInt8}

theorem Passes.refl (t : Tape) : t.Passes [] t := ⟨rfl, by simp, rfl⟩

theorem Passes.trans (h : t.Passes bs t') (h' : t'.Passes cs t'') : t.Passes (bs ++ cs) t'' where
  after_eq := by rw [h.after_eq, h'.after_eq, List.append_assoc]
  before_eq := by rw [h'.before_eq, h.before_eq, List.append_assoc]
  growable_eq := h'.growable_eq.trans h.growable_eq

/-- Where a passage ends is determined by the bytes passed over. -/
theorem Passes.unique (h₁ : t.Passes bs t₁) (h₂ : t.Passes bs t₂) : t₁ = t₂ := by
  obtain ⟨before₁, after₁, growable₁⟩ := t₁
  obtain ⟨before₂, after₂, growable₂⟩ := t₂
  have hafter : after₁ = after₂ := List.append_cancel_left (h₁.after_eq.symm.trans h₂.after_eq)
  have hbefore : before₁ = before₂ := h₁.before_eq.trans h₂.before_eq.symm
  have hgrowable : growable₁ = growable₂ := h₁.growable_eq.trans h₂.growable_eq.symm
  rw [hafter, hbefore, hgrowable]

/-- The head passes over whatever bytes lie ahead. -/
theorem passes_of_after_eq {rest : List UInt8} (h : t.after = bs ++ rest) :
    t.Passes bs ⟨t.before ++ bs, rest, t.growable⟩ :=
  ⟨h, rfl, rfl⟩

theorem exists_passes_iff : (∃ t', t.Passes bs t') ↔ bs <+: t.after := by
  constructor
  · rintro ⟨t', h⟩
    exact ⟨t'.after, h.after_eq.symm⟩
  · rintro ⟨rest, h⟩
    exact ⟨_, passes_of_after_eq h.symm⟩

/-- A passage over two stretches goes over the one and then over the other. -/
theorem Passes.split (h : t.Passes (bs ++ cs) t'') :
    ∃ t', t.Passes bs t' ∧ t'.Passes cs t'' := by
  have hafter := h.after_eq
  rw [List.append_assoc] at hafter
  refine ⟨_, passes_of_after_eq hafter, rfl, ?_, h.growable_eq⟩
  rw [h.before_eq, List.append_assoc]

theorem Passes.pos_eq (h : t.Passes bs t') : t'.pos = t.pos + bs.length := by
  simp [pos, h.before_eq]

theorem Passes.bytes_eq (h : t.Passes bs t') : t'.bytes = t.bytes := by
  simp [bytes, h.before_eq, h.after_eq]

theorem Passes.remaining_eq (h : t.Passes bs t') : t.remaining = bs.length + t'.remaining := by
  simp [remaining, h.after_eq]

/-! ### Reads -/

theorem take_eq_ok_iff {count : Nat} :
    take count t = .ok bs t' ↔ bs.length = count ∧ t.Passes bs t' := by
  unfold take
  constructor
  · intro h
    split at h
    · rename_i hcount
      cases h
      rw [remaining] at hcount
      exact ⟨by simp [hcount], (List.take_append_drop count t.after).symm, rfl, rfl⟩
    · cases h
  · rintro ⟨rfl, h⟩
    have hcount : bs.length ≤ t.remaining := by
      have := h.remaining_eq
      omega
    rw [if_pos hcount]
    simp [h.after_eq, ← h.before_eq, ← h.growable_eq]

/-- Bytes can be taken as long as there are enough. -/
theorem exists_take_iff {count : Nat} :
    (∃ bs t', take count t = .ok bs t') ↔ count ≤ t.remaining := by
  constructor
  · rintro ⟨bs, t', h⟩
    obtain ⟨rfl, hpasses⟩ := take_eq_ok_iff.mp h
    have := hpasses.remaining_eq
    omega
  · intro h
    have hlength : (t.after.take count).length = count := List.length_take_of_le h
    have hafter : t.after = t.after.take count ++ t.after.drop count :=
      (List.take_append_drop count t.after).symm
    exact ⟨_, _, take_eq_ok_iff.mpr ⟨hlength, passes_of_after_eq hafter⟩⟩

theorem readNat_eq_ok_iff {width n : Nat} :
    readNat width t = .ok n t' ↔
      n < 256 ^ width ∧ t.Passes (LittleEndian.toBytes width n) t' := by
  rw [readNat, Reading.map_eq_ok_iff]
  constructor
  · rintro ⟨bs, hbs, rfl⟩
    obtain ⟨rfl, h⟩ := take_eq_ok_iff.mp hbs
    rw [LittleEndian.toBytes_ofBytes]
    exact ⟨LittleEndian.ofBytes_lt bs, h⟩
  · rintro ⟨hn, h⟩
    exact ⟨_, take_eq_ok_iff.mpr ⟨LittleEndian.length_toBytes width n, h⟩,
      LittleEndian.ofBytes_toBytes_of_lt hn⟩

theorem exists_readNat_iff {width : Nat} :
    (∃ n t', readNat width t = .ok n t') ↔ width ≤ t.remaining := by
  rw [← exists_take_iff]
  constructor
  · rintro ⟨n, t', h⟩
    obtain ⟨bs, hbs, -⟩ := Reading.map_eq_ok_iff.mp h
    exact ⟨bs, t', hbs⟩
  · rintro ⟨bs, t', h⟩
    exact ⟨_, t', Reading.map_eq_ok_iff.mpr ⟨bs, h, rfl⟩⟩

theorem readByte_eq_ok_iff {b : UInt8} : readByte t = .ok b t' ↔ t.Passes [b] t' := by
  rw [readByte, Reading.map_eq_ok_iff]
  have hb : b.toNat < 256 ^ 1 := b.toNat_lt
  constructor
  · rintro ⟨n, hn, rfl⟩
    exact (readNat_eq_ok_iff.mp hn).2
  · intro h
    refine ⟨b.toNat, readNat_eq_ok_iff.mpr ⟨hb, ?_⟩, UInt8.ofNat_toNat⟩
    simpa [LittleEndian.toBytes] using h

theorem readWord_eq_ok_iff {w : UInt32} :
    readWord t = .ok w t' ↔ t.Passes (LittleEndian.toBytes 4 w.toNat) t' := by
  rw [readWord, Reading.map_eq_ok_iff]
  constructor
  · rintro ⟨n, hn, rfl⟩
    obtain ⟨hn, h⟩ := readNat_eq_ok_iff.mp hn
    rwa [UInt32.toNat_ofNat', Nat.mod_eq_of_lt (show n < 2 ^ 32 by omega)]
  · intro h
    have hw : w.toNat < 256 ^ 4 := w.toNat_lt
    exact ⟨w.toNat, readNat_eq_ok_iff.mpr ⟨hw, h⟩, UInt32.ofNat_toNat⟩

theorem readInt_eq_ok_iff {i : Int32} :
    readInt t = .ok i t' ↔ t.Passes (LittleEndian.toBytes 4 i.toUInt32.toNat) t' := by
  rw [readInt, Reading.map_eq_ok_iff]
  constructor
  · rintro ⟨w, hw, rfl⟩
    exact readWord_eq_ok_iff.mp hw
  · intro h
    exact ⟨i.toUInt32, readWord_eq_ok_iff.mpr h, rfl⟩

theorem readDouble_eq_ok_iff {x : Double} :
    readDouble t = .ok x t' ↔ t.Passes (LittleEndian.toBytes 8 x.bits.toNat) t' := by
  rw [readDouble, Reading.map_eq_ok_iff]
  constructor
  · rintro ⟨n, hn, rfl⟩
    obtain ⟨hn, h⟩ := readNat_eq_ok_iff.mp hn
    rwa [UInt64.toNat_ofNat', Nat.mod_eq_of_lt (show n < 2 ^ 64 by omega)]
  · intro h
    have hx : x.bits.toNat < 256 ^ 8 := x.bits.toNat_lt
    refine ⟨x.bits.toNat, readNat_eq_ok_iff.mpr ⟨hx, h⟩, ?_⟩
    rw [UInt64.ofNat_toNat]

theorem readText_eq_ok_iff {count : Nat} {s : String} :
    readText count t = .ok s t' ↔ (Text.utf8 s).length = count ∧ t.Passes (Text.utf8 s) t' := by
  unfold readText
  constructor
  · intro h
    split at h
    · rename_i bs t₁ hbs
      split at h
      · rename_i s' hs
        cases h
        rw [Text.ofUtf8?_eq_some_iff.mp hs]
        exact take_eq_ok_iff.mp hbs
      · cases h
    · cases h
  · intro h
    have hs : Text.ofUtf8? (Text.utf8 s) = some s := Text.ofUtf8?_eq_some_iff.mpr rfl
    rw [take_eq_ok_iff.mpr h]
    simp only [hs]

end Tape

/-! ### Rows -/

/-- If reading an item accepts the bytes `wire` of the results that the item `Admits`, then reading
a row of items accepts these bytes one after another. -/
theorem Parsing.mapM_eq_ok_iff {α β : Type} {read : α → Parsing β} {Admits : α → β → Prop}
    (wire : α → β → List UInt8)
    (hread : ∀ {a b t t'}, read a t = .ok (b, t') ↔ Admits a b ∧ t.Passes (wire a b) t')
    {as : List α} {bs : List β} {t t' : Tape} :
    as.mapM read t = .ok (bs, t') ↔
      List.Forall₂ Admits as bs ∧ t.Passes (List.zipWith wire as bs).flatten t' := by
  induction as generalizing bs t with
  | nil =>
    simp only [List.mapM_nil, List.forall₂_nil_left_iff]
    constructor
    · intro h
      cases h
      exact ⟨rfl, Tape.Passes.refl t'⟩
    · rintro ⟨rfl, h⟩
      rw [(Tape.Passes.refl t).unique h]
      rfl
  | cons a as ih =>
    rw [List.mapM_cons, Parsing.bind_eq_ok_iff]
    constructor
    · rintro ⟨b, t₁, hb, h⟩
      obtain ⟨bs', t₂, hbs, hpure⟩ := Parsing.bind_eq_ok_iff.mp h
      cases hpure
      obtain ⟨hadmits, hhead⟩ := hread.mp hb
      obtain ⟨hrest, htail⟩ := ih.mp hbs
      exact ⟨.cons hadmits hrest, hhead.trans htail⟩
    · rintro ⟨hrow, h⟩
      -- the bytes of the row are those of its first item and those of the others
      obtain ⟨b, bs', hadmits, hrest, rfl⟩ := List.forall₂_cons_left_iff.mp hrow
      obtain ⟨t₁, hhead, htail⟩ := h.split
      refine ⟨b, t₁, hread.mpr ⟨hadmits, hhead⟩, Parsing.bind_eq_ok_iff.mpr ?_⟩
      exact ⟨bs', t', ih.mpr ⟨hrest, htail⟩, rfl⟩

theorem Parsing.mapM_append_eq_ok_iff {α β : Type} {read : α → Parsing β} {as as' : List α}
    {cs : List β} {t t' : Tape} :
    (as ++ as').mapM read t = .ok (cs, t') ↔
      ∃ bs t₁ bs', as.mapM read t = .ok (bs, t₁) ∧ as'.mapM read t₁ = .ok (bs', t') ∧
        cs = bs ++ bs' := by
  rw [List.mapM_append, Parsing.bind_eq_ok_iff]
  constructor
  · rintro ⟨bs, t₁, hbs, h⟩
    obtain ⟨bs', t₂, hbs', hpure⟩ := Parsing.bind_eq_ok_iff.mp h
    cases hpure
    exact ⟨bs, t₁, bs', hbs, hbs', rfl⟩
  · rintro ⟨bs, t₁, bs', hbs, hbs', rfl⟩
    exact ⟨bs, t₁, hbs, Parsing.bind_eq_ok_iff.mpr ⟨bs', t', hbs', rfl⟩⟩

theorem Parsing.mapM_append_eq_error_iff {α β : Type} {read : α → Parsing β} {as as' : List α}
    {t : Tape} {e : ReadError} :
    (as ++ as').mapM read t = .error e ↔
      as.mapM read t = .error e ∨
        ∃ bs t₁, as.mapM read t = .ok (bs, t₁) ∧ as'.mapM read t₁ = .error e := by
  rw [List.mapM_append, Parsing.bind_eq_error_iff]
  refine or_congr_right (exists_congr fun bs => exists_congr fun t₁ => and_congr_right fun _ => ?_)
  rw [Parsing.bind_eq_error_iff]
  constructor
  · rintro (h | ⟨_, _, _, hpure⟩)
    · exact h
    · cases hpure
  · exact Or.inl

/-- A row cannot be read where one of its items cannot, after those before it have been read. -/
theorem Parsing.mapM_eq_error_iff {α β : Type} {read : α → Parsing β} {as : List α} {t : Tape}
    {e : ReadError} : as.mapM read t = .error e ↔
      ∃ before a later bs t', as = before ++ a :: later ∧ before.mapM read t = .ok (bs, t') ∧
        read a t' = .error e := by
  induction as generalizing t with
  | nil =>
    refine iff_of_false (by rintro ⟨⟩) ?_
    rintro ⟨before, a, later, bs, t', h, -⟩
    exact List.append_ne_nil_of_right_ne_nil before (List.cons_ne_nil a later) h.symm
  | cons a as ih =>
    rw [List.mapM_cons, Parsing.bind_eq_error_iff]
    constructor
    · rintro (h | ⟨b, t₁, hb, h⟩)
      · exact ⟨[], a, as, [], t, rfl, rfl, h⟩
      · rcases Parsing.bind_eq_error_iff.mp h with h | ⟨_, _, -, hpure⟩
        · obtain ⟨before, a', later, bs, t', rfl, hbefore, ha'⟩ := ih.mp h
          refine ⟨a :: before, a', later, b :: bs, t', rfl, ?_, ha'⟩
          rw [List.mapM_cons, Parsing.bind_eq_ok_iff]
          exact ⟨b, t₁, hb, Parsing.bind_eq_ok_iff.mpr ⟨bs, t', hbefore, rfl⟩⟩
        · cases hpure
    · rintro ⟨before, a', later, bs, t', heq, hbefore, ha'⟩
      cases before with
      | nil =>
        cases heq
        cases hbefore
        exact Or.inl ha'
      | cons a₁ before =>
        cases heq
        rw [List.mapM_cons, Parsing.bind_eq_ok_iff] at hbefore
        obtain ⟨b, t₁, hb, h⟩ := hbefore
        obtain ⟨bs', t₂, hbs, hpure⟩ := Parsing.bind_eq_ok_iff.mp h
        cases hpure
        refine Or.inr ⟨b, t₁, hb, Parsing.bind_eq_error_iff.mpr (Or.inl ?_)⟩
        exact ih.mpr ⟨before, a', later, bs', t', rfl, hbs, ha'⟩

/-- If a row cannot be read, then one of its items is the first that cannot. -/
theorem Parsing.exists_of_mapM_eq_error {α β : Type} {read : α → Parsing β} {as : List α} {t : Tape}
    {e : ReadError} (h : as.mapM read t = .error e) :
    ∃ before a after, as = before ++ a :: after ∧ (∃ r, before.mapM read t = .ok r) ∧
      (before ++ [a]).mapM read t = .error e ∧ ∃ t₁, read a t₁ = .error e := by
  obtain ⟨before, a, after, bs, t₁, rfl, hbefore, ha⟩ := Parsing.mapM_eq_error_iff.mp h
  refine ⟨before, a, after, rfl, ⟨_, hbefore⟩, ?_, t₁, ha⟩
  exact Parsing.mapM_eq_error_iff.mpr ⟨before, a, [], bs, t₁, rfl, hbefore, ha⟩

end Bytecode
