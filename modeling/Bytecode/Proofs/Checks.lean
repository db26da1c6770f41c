import Bytecode.Schema.Load
import Mathlib.Data.List.Nodup
import Mathlib.Data.Set.List

/-!
# What the checks of a schema accept

A check of a schema goes through a list, stops at the first fault and carries along the names that
it has met. What it accepts does not depend on that order: names are identifiers, and they are
`Fresh`, that is, distinct from each other and from the names met before. There is one lemma for
each check (`resolveSlots_eq_ok_iff`, `checkArgs_eq_ok_iff`, `checkInstructions_eq_ok_iff`), by
induction on its list, and `Schema.check_eq_ok_iff` puts them together.
-/

namespace Bytecode

/-! ### Results -/

section

variable {ε α β : Type}

theorem except_bind_eq_ok_iff {x : Except ε α} {f : α → Except ε β} {b : β} :
    (x >>= f) = .ok b ↔ ∃ a, x = .ok a ∧ f a = .ok b := by
  cases x with
  | error e => simp [Bind.bind, Except.bind]
  | ok a => simp [Bind.bind, Except.bind]

theorem except_ok_bind (a : α) (f : α → Except ε β) : (Except.ok a >>= f) = f a := rfl

theorem except_map_eq_ok_iff {x : Except ε α} {f : α → β} {b : β} :
    f <$> x = .ok b ↔ ∃ a, x = .ok a ∧ f a = b := by
  cases x with
  | error e => simp [Functor.map, Except.map]
  | ok a => simp [Functor.map, Except.map]

theorem exists_except_map_eq_ok_iff {x : Except ε α} {f : α → β} :
    (∃ b, f <$> x = .ok b) ↔ ∃ a, x = .ok a := by
  cases x with
  | error e => simp [Functor.map, Except.map]
  | ok a => simp [Functor.map, Except.map]

/-- A check before another. -/
theorem except_seq_eq_ok_iff {x : Except ε Unit} {f : Unit → Except ε β} {b : β} :
    (x >>= f) = .ok b ↔ x = .ok () ∧ f () = .ok b := by
  rw [except_bind_eq_ok_iff]
  exact ⟨fun ⟨_, h⟩ => h, fun h => ⟨(), h⟩⟩

/-- A check of every entry of a list. -/
theorem except_forM_eq_ok_iff {check : α → Except ε Unit} {xs : List α} :
    xs.forM check = .ok () ↔ ∀ x ∈ xs, check x = .ok () := by
  induction xs with
  | nil => simp [List.forM, pure, Except.pure]
  | cons x xs ih =>
    rw [List.forall_mem_cons, ← ih]
    exact except_seq_eq_ok_iff

end

/-! ### Names -/

/-- Entries that are distinct from each other and from those seen before. -/
def Fresh {α : Type} (seen xs : List α) : Prop := xs.Nodup ∧ ∀ x ∈ xs, x ∉ seen

section

variable {α : Type} {seen xs ys : List α} {x : α}

theorem fresh_nil : Fresh seen [] := by simp [Fresh]

/-- The first entry is new, and the others are still new when it has been seen. -/
theorem fresh_cons : Fresh seen (x :: xs) ↔ x ∉ seen ∧ Fresh (x :: seen) xs := by
  rw [Fresh, Fresh, List.nodup_cons, List.forall_mem_cons]
  simp only [List.mem_cons, not_or]
  constructor
  · rintro ⟨⟨hx, hxs⟩, hseen, hall⟩
    refine ⟨hseen, hxs, fun y hy => ⟨?_, hall y hy⟩⟩
    rintro rfl
    exact hx hy
  · rintro ⟨hseen, hxs, hall⟩
    exact ⟨⟨fun hx => (hall x hx).1 rfl, hxs⟩, hseen, fun y hy => (hall y hy).2⟩

/-- What has been seen matters, and not in which order. -/
theorem fresh_congr {seen' : List α} (h : ∀ x, x ∈ seen ↔ x ∈ seen') :
    Fresh seen xs ↔ Fresh seen' xs := by
  simp only [Fresh, h]

theorem fresh_nil_iff : Fresh [] xs ↔ xs.Nodup := by simp [Fresh]

theorem nodup_append_iff_fresh : (xs ++ ys).Nodup ↔ xs.Nodup ∧ Fresh xs ys := by
  rw [List.nodup_append', Fresh]
  exact and_congr_right fun _ => and_congr_right fun _ => List.disjoint_comm

end

theorem checkName_eq_ok_iff {name : String} : checkName name = .ok () ↔ isIdentifier name := by
  unfold checkName
  split <;> simp [*]

/-! ### Slots -/

/-- The field that declares a slot. -/
def Slot.field (s : Slot) : Field := ⟨s.name, s.kind.kind⟩

theorem SlotKind.ofKind?_eq_some_iff {k : Kind} {sk : SlotKind} :
    SlotKind.ofKind? k = some sk ↔ sk.kind = k := by
  cases k <;> cases sk <;> decide

/-- Fields are accepted as slots if they have slot kinds and fresh identifiers as names; the slots
are then declared by these fields. -/
theorem resolveSlots_eq_ok_iff {seen : List String} {fields : List Field} {slots : List Slot} :
    resolveSlots seen fields = .ok slots ↔ slots.map Slot.field = fields ∧
      (∀ field ∈ fields, isIdentifier field.name) ∧ Fresh seen (fields.map (·.name)) := by
  induction fields generalizing seen slots with
  | nil =>
    rw [resolveSlots, Except.ok.injEq, List.map_eq_nil_iff, eq_comm]
    simp [fresh_nil]
  | cons field fields ih =>
    rw [resolveSlots, except_seq_eq_ok_iff, checkName_eq_ok_iff, List.forall_mem_cons,
      List.map_cons, fresh_cons]
    cases hkind : SlotKind.ofKind? field.kind with
    | none =>
      refine iff_of_false (by simp) ?_
      rintro ⟨hslots, -⟩
      obtain ⟨slot, _, -, rfl, -⟩ := List.map_eq_cons_iff.mp hslots
      have hsome : SlotKind.ofKind? slot.field.kind = some slot.kind :=
        SlotKind.ofKind?_eq_some_iff.mpr rfl
      rw [hkind] at hsome
      cases hsome
    | some kind =>
      by_cases hseen : field.name ∈ seen
      · simp [hseen]
      · simp only [hseen, if_false, except_map_eq_ok_iff, ih]
        constructor
        · rintro ⟨hname, rest, ⟨hrest, hnames, hfresh⟩, rfl⟩
          refine ⟨?_, ⟨hname, hnames⟩, not_false, hfresh⟩
          rw [List.map_cons, hrest, Slot.field, SlotKind.ofKind?_eq_some_iff.mp hkind]
        · rintro ⟨hslots, ⟨hname, hnames⟩, -, hfresh⟩
          obtain ⟨slot, rest, rfl, rfl, hrest⟩ := List.map_eq_cons_iff.mp hslots
          have hsome : SlotKind.ofKind? slot.field.kind = some slot.kind :=
            SlotKind.ofKind?_eq_some_iff.mpr rfl
          obtain rfl : kind = slot.kind := Option.some.inj (hkind.symm.trans hsome)
          exact ⟨hname, rest, ⟨hrest, hnames, hfresh⟩, rfl⟩

theorem mem_range_field_iff {field : Field} :
    field ∈ Set.range Slot.field ↔ field.kind = .u8 ∨ field.kind = .u32 := by
  constructor
  · rintro ⟨⟨name, kind⟩, rfl⟩
    cases kind with
    | u8 => exact Or.inl rfl
    | u32 => exact Or.inr rfl
  · obtain ⟨name, kind⟩ := field
    rintro (rfl | rfl)
    · exact ⟨⟨name, .u8⟩, rfl⟩
    · exact ⟨⟨name, .u32⟩, rfl⟩

theorem exists_resolveSlots_iff {seen : List String} {fields : List Field} :
    (∃ slots, resolveSlots seen fields = .ok slots) ↔
      (∀ field ∈ fields, field.kind = .u8 ∨ field.kind = .u32) ∧
        (∀ field ∈ fields, isIdentifier field.name) ∧ Fresh seen (fields.map (·.name)) := by
  have hrange : (∃ slots, List.map Slot.field slots = fields) ↔
      ∀ field ∈ fields, field.kind = .u8 ∨ field.kind = .u32 := by
    show fields ∈ Set.range (List.map Slot.field) ↔ _
    rw [Set.range_list_map]
    exact forall₂_congr fun field _ => mem_range_field_iff
  simp only [resolveSlots_eq_ok_iff, exists_and_right, hrange]

/-! ### Instructions -/

theorem checkArgs_eq_ok_iff {instruction : String} {seen : List String} {fields : List Field} :
    checkArgs instruction seen fields = .ok () ↔
      (∀ field ∈ fields, isIdentifier field.name) ∧ Fresh seen (fields.map (·.name)) := by
  induction fields generalizing seen with
  | nil => simp [checkArgs, fresh_nil]
  | cons field fields ih =>
    rw [checkArgs, except_seq_eq_ok_iff, checkName_eq_ok_iff, List.forall_mem_cons, List.map_cons,
      fresh_cons]
    by_cases hseen : field.name ∈ seen
    · simp [hseen]
    · simp only [hseen, if_false, not_false_eq_true, ih]
      tauto

theorem checkInstructions_eq_ok_iff {commonArgs : List Field} {seen : List String}
    {is : List InstructionDecl} :
    checkInstructions commonArgs seen is = .ok () ↔
      (∀ i ∈ is, isIdentifier i.name) ∧ Fresh seen (is.map (mnemonic ·.name)) ∧
        ∀ i ∈ is, (∀ arg ∈ i.args ++ commonArgs, isIdentifier arg.name) ∧
          ((i.args ++ commonArgs).map (·.name)).Nodup := by
  induction is generalizing seen with
  | nil => simp [checkInstructions, fresh_nil]
  | cons i is ih =>
    rw [checkInstructions, except_seq_eq_ok_iff, checkName_eq_ok_iff, List.forall_mem_cons,
      List.forall_mem_cons, List.map_cons, fresh_cons]
    by_cases hseen : mnemonic i.name ∈ seen
    · simp [hseen]
    · simp only [hseen, if_false, not_false_eq_true, except_seq_eq_ok_iff, checkArgs_eq_ok_iff, ih,
        fresh_nil_iff]
      tauto

/-! ### The whole check -/

theorem Schema.check_eq_ok_iff {s : Schema} {checked : Checked} :
    s.check = .ok checked ↔ (∀ c ∈ s.header, isIdentifier c.name) ∧
      resolveSlots [] s.counters = .ok checked.counters ∧
      resolveSlots (s.counters.map (·.name)) s.chunks = .ok checked.chunks ∧
      checkInstructions s.commonArgs [] s.instructions = .ok () ∧
      assignOpcodes s.instructions = .ok checked.opcodes := by
  unfold check
  rw [except_seq_eq_ok_iff, except_forM_eq_ok_iff]
  simp only [checkName_eq_ok_iff]
  refine and_congr_right fun _ => ?_
  constructor
  · intro h
    obtain ⟨counters, hcounters, h⟩ := except_bind_eq_ok_iff.mp h
    obtain ⟨chunks, hchunks, h⟩ := except_bind_eq_ok_iff.mp h
    obtain ⟨hinstructions, h⟩ := except_seq_eq_ok_iff.mp h
    obtain ⟨opcodes, hopcodes, h⟩ := except_bind_eq_ok_iff.mp h
    cases h
    exact ⟨hcounters, hchunks, hinstructions, hopcodes⟩
  · rintro ⟨hcounters, hchunks, hinstructions, hopcodes⟩
    rw [hcounters, hchunks, hinstructions, hopcodes]
    rfl

end Bytecode
