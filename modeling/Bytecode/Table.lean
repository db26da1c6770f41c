/-!
# Tables by opcode

A table has room for one entry under each opcode below a bound, its size. Entries are put in and
cleared in place; a change beyond the size is none.

What is found after a change is said by `get?_put` and `get?_clear`. A table is filled from a row of
items that each have an opcode: if the opcodes are distinct and within the size, every item is found
under its own (`get?_fill_of_mem`), and nothing else has changed (`get?_fill_of_forall_ne`).
`get?_fill_blank_eq_some_iff` puts both together for a table that was empty before.
-/

namespace Bytecode

/-- A table of entries by opcode. -/
structure Table (β : Type) where
  entries : List (Option β)
deriving Repr, Inhabited

namespace Table

variable {α β : Type}

/-- A table without entries. -/
def blank (size : Nat) : Table β := ⟨List.replicate size none⟩

/-- The first opcode that a table has no room for. -/
def size (table : Table β) : Nat := table.entries.length

/-- The entry under an opcode. -/
def get? (table : Table β) (opcode : UInt8) : Option β := table.entries[opcode.toNat]?.join

/-- Puts an entry under an opcode, in place of any other. -/
def put (table : Table β) (opcode : UInt8) (entry : β) : Table β :=
  ⟨table.entries.set opcode.toNat (some entry)⟩

/-- Removes the entry under an opcode. -/
def clear (table : Table β) (opcode : UInt8) : Table β :=
  ⟨table.entries.set opcode.toNat none⟩

/-- Puts an entry under the opcode of each item of a row. -/
def fill (table : Table β) (opcode : α → UInt8) (entry : α → β) (items : List α) : Table β :=
  items.foldl (fun table item => table.put (opcode item) (entry item)) table

/-! ### What is found -/

@[simp]
theorem get?_blank (size : Nat) (opcode : UInt8) : (blank size : Table β).get? opcode = none := by
  rw [get?, blank, List.getElem?_replicate]
  split <;> rfl

@[simp]
theorem size_blank (size : Nat) : (blank size : Table β).size = size := List.length_replicate

@[simp]
theorem size_put (table : Table β) (opcode : UInt8) (entry : β) :
    (table.put opcode entry).size = table.size := List.length_set

@[simp]
theorem size_clear (table : Table β) (opcode : UInt8) : (table.clear opcode).size = table.size :=
  List.length_set

variable {table : Table β} {opcode opcode' : UInt8}

theorem get?_put_self (h : opcode.toNat < table.size) (entry : β) :
    (table.put opcode entry).get? opcode = some entry := by
  rw [get?, put, List.getElem?_set_self h]
  rfl

theorem get?_put_of_ne (h : opcode ≠ opcode') (entry : β) :
    (table.put opcode entry).get? opcode' = table.get? opcode' := by
  have hne : opcode.toNat ≠ opcode'.toNat := fun heq => h (UInt8.toNat_inj.mp heq)
  rw [get?, put, List.getElem?_set_ne hne]
  rfl

theorem get?_put (h : opcode.toNat < table.size) (entry : β) (opcode' : UInt8) :
    (table.put opcode entry).get? opcode' =
      if opcode = opcode' then some entry else table.get? opcode' := by
  split
  · rename_i heq
    rw [← heq, get?_put_self h]
  · exact get?_put_of_ne ‹_› entry

theorem get?_clear (table : Table β) (opcode opcode' : UInt8) :
    (table.clear opcode).get? opcode' =
      if opcode = opcode' then none else table.get? opcode' := by
  rw [get?, clear]
  split
  · rename_i heq
    rw [← heq, List.getElem?_set, if_pos rfl]
    split <;> rfl
  · rename_i hne
    have hne' : opcode.toNat ≠ opcode'.toNat := fun heq => hne (UInt8.toNat_inj.mp heq)
    rw [List.getElem?_set_ne hne']
    rfl

/-! ### Filling -/

theorem fill_cons (table : Table β) (f : α → UInt8) (g : α → β) (item : α) (items : List α) :
    table.fill f g (item :: items) = (table.put (f item) (g item)).fill f g items := rfl

variable {f : α → UInt8} {g : α → β} {items : List α}

theorem get?_fill_of_forall_ne (h : ∀ item ∈ items, f item ≠ opcode) :
    (table.fill f g items).get? opcode = table.get? opcode := by
  induction items generalizing table with
  | nil => rfl
  | cons item items ih =>
    obtain ⟨hitem, hitems⟩ := List.forall_mem_cons.mp h
    rw [fill_cons, ih hitems, get?_put_of_ne hitem]

theorem get?_fill_of_mem (hnodup : (items.map f).Nodup)
    (hsize : ∀ item ∈ items, (f item).toNat < table.size) {item : α} (hitem : item ∈ items) :
    (table.fill f g items).get? (f item) = some (g item) := by
  induction items generalizing table with
  | nil => cases hitem
  | cons head items ih =>
    obtain ⟨hhead, hnodup⟩ := List.nodup_cons.mp hnodup
    obtain ⟨hroom, hsize⟩ := List.forall_mem_cons.mp hsize
    rcases List.mem_cons.mp hitem with rfl | hitem
    · -- no later item has this opcode, so what is put there first stays
      have hne : ∀ item' ∈ items, f item' ≠ f item := fun item' hitem' heq =>
        hhead (heq ▸ List.mem_map_of_mem hitem')
      rw [fill_cons, get?_fill_of_forall_ne hne, get?_put_self hroom]
    · rw [fill_cons, ih hnodup _ hitem]
      rwa [size_put]

/-- What a table filled from the start holds. -/
theorem get?_fill_blank_eq_some_iff {size : Nat} (hnodup : (items.map f).Nodup)
    (hsize : ∀ item ∈ items, (f item).toNat < size) {entry : β} :
    ((blank size).fill f g items).get? opcode = some entry ↔
      ∃ item ∈ items, f item = opcode ∧ g item = entry := by
  have hroom : ∀ item ∈ items, (f item).toNat < (blank size : Table β).size := by
    rwa [size_blank]
  constructor
  · intro h
    by_cases hopcode : ∃ item ∈ items, f item = opcode
    · obtain ⟨item, hitem, rfl⟩ := hopcode
      rw [get?_fill_of_mem hnodup hroom hitem] at h
      exact ⟨item, hitem, rfl, Option.some.inj h⟩
    · rw [get?_fill_of_forall_ne fun item hitem heq => hopcode ⟨item, hitem, heq⟩,
        get?_blank] at h
      cases h
  · rintro ⟨item, hitem, rfl, rfl⟩
    exact get?_fill_of_mem hnodup hroom hitem

end Table

end Bytecode
