import Bytecode.Index
import Bytecode.Proofs.Instruction
import Bytecode.Proofs.Loading
import Bytecode.Proofs.Words

/-!
# Looking instructions up

A loaded format has no two instructions with one mnemonic. This is enough for names too: a name has
the mnemonic of its instruction, and so has this mnemonic itself
(`Format.WellNamed.mnemonic_of_answers`), so that no two instructions answer to one name
(`Format.WellNamed.unique`).

The look-ups follow: an instruction is found under what it answers to
(`Format.instruction?_eq_some_iff`) and under its opcode (`Format.byOpcode?_eq_some_iff`). The index
says the same as these searches (`Format.indexedInstruction?_eq`, `Format.indexedByOpcode?_eq`):
although a later entry replaces an earlier one with the same key, none is ever replaced by the entry
of another instruction (`Format.getElem?_byName_iff`, `Format.get?_byOpcode_iff`).
-/

namespace Bytecode

/-! ### Names and mnemonics -/

/-- An instruction answers to its name and to its mnemonic. -/
def Instruction.Answers (i : Instruction) (name : String) : Prop :=
  name = i.name ∨ name = i.mnemonic

instance (i : Instruction) (name : String) : Decidable (i.Answers name) :=
  inferInstanceAs (Decidable (_ ∨ _))

/-- Mnemonics are those of the names, and tell instructions apart. -/
structure Format.WellNamed (f : Format) : Prop where
  mnemonic_eq : ∀ i ∈ f.instructions, i.mnemonic = mnemonic i.name
  nodup_mnemonics : (f.instructions.map (·.mnemonic)).Nodup

theorem map_mnemonic_zipWith (commonArgs : List Field) (is : List InstructionDecl)
    (opcodes : List UInt8) :
    (is.zipWith (Schema.resolveInstruction commonArgs) opcodes).map (·.mnemonic) =
      (is.map (mnemonic ·.name)).take opcodes.length := by
  induction is generalizing opcodes with
  | nil => simp
  | cons i is ih =>
    cases opcodes with
    | nil => rfl
    | cons opcode opcodes =>
      rw [List.zipWith_cons_cons, List.map_cons, ih, List.length_cons, List.map_cons,
        List.take_succ_cons]
      rfl

theorem Schema.wellNamed_of_load {s : Schema} {f : Format} (h : s.load = .ok f) : f.WellNamed := by
  obtain ⟨checked, hchecked, -, -, -, hinstructions⟩ := load_eq_ok_iff.mp h
  obtain ⟨-, -, -, hcheck, -⟩ := check_eq_ok_iff.mp hchecked
  obtain ⟨-, hfresh, -⟩ := checkInstructions_eq_ok_iff.mp hcheck
  constructor
  · intro i hi
    rw [hinstructions] at hi
    obtain ⟨k, hk⟩ := List.mem_iff_getElem?.mp hi
    obtain ⟨decl, opcode, -, -, rfl⟩ := List.getElem?_zipWith_eq_some.mp hk
    rfl
  · rw [hinstructions, map_mnemonic_zipWith]
    exact (fresh_nil_iff.mp hfresh).sublist (List.take_sublist _ _)

namespace Format

variable {f : Format} {i j : Instruction} {name : String}

/-- Whatever an instruction answers to has its mnemonic. -/
theorem WellNamed.mnemonic_of_answers (hf : f.WellNamed) (hi : i ∈ f.instructions)
    (h : i.Answers name) : mnemonic name = i.mnemonic := by
  have hmnemonic := hf.mnemonic_eq i hi
  rcases h with rfl | rfl
  · exact hmnemonic.symm
  · rw [hmnemonic, mnemonic_mnemonic]

/-- No two instructions answer to one name. -/
theorem WellNamed.unique (hf : f.WellNamed) {k l : ℕ} (hi : f.instructions[k]? = some i)
    (hj : f.instructions[l]? = some j) (h : i.Answers name) (h' : j.Answers name) : k = l := by
  have hsame : i.mnemonic = j.mnemonic :=
    (hf.mnemonic_of_answers (List.mem_of_getElem? hi) h).symm.trans
      (hf.mnemonic_of_answers (List.mem_of_getElem? hj) h')
  have hlt : k < (f.instructions.map (·.mnemonic)).length := by
    rw [List.length_map]
    exact (List.getElem?_eq_some_iff.mp hi).1
  -- equal mnemonics stand in equal places
  apply (List.getElem?_inj hlt hf.nodup_mnemonics).mp
  rw [List.getElem?_map, List.getElem?_map, hi, hj, Option.map_some, Option.map_some, hsame]

theorem WellNamed.eq_of_answers (hf : f.WellNamed) (hi : i ∈ f.instructions)
    (hj : j ∈ f.instructions) (h : i.Answers name) (h' : j.Answers name) : i = j := by
  obtain ⟨k, hk⟩ := List.mem_iff_getElem?.mp hi
  obtain ⟨l, hl⟩ := List.mem_iff_getElem?.mp hj
  obtain rfl := hf.unique hk hl h h'
  exact Option.some.inj (hk.symm.trans hl)

/-! ### Searching -/

theorem answers_of_instruction? (h : f.instruction? name = some i) :
    i ∈ f.instructions ∧ i.Answers name := by
  refine ⟨List.mem_of_find?_eq_some h, ?_⟩
  have hfound := List.find?_some h
  simp only [Bool.or_eq_true, beq_iff_eq] at hfound
  exact hfound.imp Eq.symm Eq.symm

theorem instruction?_eq_some_iff (hf : f.WellNamed) :
    f.instruction? name = some i ↔ i ∈ f.instructions ∧ i.Answers name := by
  constructor
  · exact answers_of_instruction?
  · rintro ⟨hi, hanswers⟩
    cases h : f.instruction? name with
    | none =>
      have hnone := List.find?_eq_none.mp h i hi
      simp only [Bool.or_eq_true, beq_iff_eq] at hnone
      exact absurd (hanswers.imp Eq.symm Eq.symm) hnone
    | some j =>
      obtain ⟨hj, hanswers'⟩ := answers_of_instruction? h
      rw [hf.eq_of_answers hj hi hanswers' hanswers]

theorem byOpcode?_eq_some_iff (hf : f.WellFormed) {opcode : UInt8} :
    f.byOpcode? opcode = some i ↔ i ∈ f.instructions ∧ i.opcode = opcode := by
  constructor
  · intro h
    exact ⟨List.mem_of_find?_eq_some h, opcode_of_byOpcode? h⟩
  · rintro ⟨hi, rfl⟩
    exact byOpcode?_of_mem hf hi

/-! ### Indexes -/

end Format

namespace Index

variable {x : Index} {entries : List (Instruction × ℕ)} {name : String}

theorem getElem?_byName_enter (x : Index) (entry : Instruction × ℕ) (name : String) :
    (x.enter entry).byName[name]? =
      if entry.1.Answers name then some entry.2 else x.byName[name]? := by
  rw [enter, Std.HashMap.getElem?_insert, Std.HashMap.getElem?_insert]
  -- the mnemonic is entered after the name, so it is met first
  by_cases hmnemonic : entry.1.mnemonic = name
  · have hanswers : entry.1.Answers name := Or.inr hmnemonic.symm
    simp [hmnemonic, hanswers]
  · by_cases hname : entry.1.name = name
    · have hanswers : entry.1.Answers name := Or.inl hname.symm
      simp [hmnemonic, hname, hanswers]
    · have hnot : ¬ entry.1.Answers name := fun h => h.elim (hname ∘ Eq.symm) (hmnemonic ∘ Eq.symm)
      simp [hmnemonic, hname, hnot]

/-- What is found under a name has been there before or is the position of an instruction that
answers to it. -/
theorem exists_of_getElem?_byName {k : ℕ} (h : (entries.foldl enter x).byName[name]? = some k) :
    x.byName[name]? = some k ∨ ∃ entry ∈ entries, entry.1.Answers name ∧ entry.2 = k := by
  induction entries generalizing x with
  | nil => exact Or.inl h
  | cons entry entries ih =>
    rcases ih (x := x.enter entry) h with h | ⟨entry', hentry', hanswers, rfl⟩
    · rw [getElem?_byName_enter] at h
      split at h
      · exact Or.inr ⟨entry, List.mem_cons_self, ‹_›, Option.some.inj h⟩
      · exact Or.inl h
    · exact Or.inr ⟨entry', List.mem_cons_of_mem _ hentry', hanswers, rfl⟩

/-- A position is found under a name if whatever answers to the name has this position, so that no
later entry replaces it by another. -/
theorem getElem?_byName_enterAll {k : ℕ}
    (h : ∀ entry ∈ entries, entry.1.Answers name → entry.2 = k)
    (hsome : x.byName[name]? = some k ∨ ∃ entry ∈ entries, entry.1.Answers name) :
    (entries.foldl enter x).byName[name]? = some k := by
  induction entries generalizing x with
  | nil =>
    rcases hsome with hx | ⟨entry, hentry, -⟩
    · exact hx
    · cases hentry
  | cons entry entries ih =>
    obtain ⟨hentry, hentries⟩ := List.forall_mem_cons.mp h
    apply ih (x := x.enter entry) hentries
    rw [getElem?_byName_enter]
    by_cases hanswers : entry.1.Answers name
    · rw [if_pos hanswers, hentry hanswers]
      exact Or.inl rfl
    · rw [if_neg hanswers]
      refine hsome.imp_right ?_
      rintro ⟨entry', hentry', hanswers'⟩
      rcases List.mem_cons.mp hentry' with rfl | hentry'
      · exact absurd hanswers' hanswers
      · exact ⟨entry', hentry', hanswers'⟩

theorem byOpcode_enterAll (x : Index) (entries : List (Instruction × ℕ)) :
    (entries.foldl enter x).byOpcode = x.byOpcode.fill (·.1.opcode) (·.2) entries := by
  induction entries generalizing x with
  | nil => rfl
  | cons entry entries ih => exact ih (x.enter entry)

end Index

namespace Format

variable {f : Format} {name : String}

/-- The index has under a name the position of the instruction that answers to it. -/
theorem getElem?_byName_iff (hf : f.WellNamed) {k : ℕ} :
    f.index.byName[name]? = some k ↔ ∃ i, f.instructions[k]? = some i ∧ i.Answers name := by
  constructor
  · intro h
    rcases Index.exists_of_getElem?_byName h with hblank | ⟨⟨i, l⟩, hentry, hanswers, rfl⟩
    · simp [Index.blank] at hblank
    · exact ⟨i, List.mem_zipIdx_iff_getElem?.mp hentry, hanswers⟩
  · rintro ⟨i, hi, hanswers⟩
    -- an entry that answers to this name has this position, so it may come later and do no harm
    apply Index.getElem?_byName_enterAll
    · rintro ⟨j, l⟩ hentry hanswers'
      exact hf.unique (List.mem_zipIdx_iff_getElem?.mp hentry) hi hanswers' hanswers
    · exact Or.inr ⟨(i, k), List.mem_zipIdx_iff_getElem?.mpr hi, hanswers⟩

/-- The index has under an opcode the position of the instruction with this opcode. -/
theorem get?_byOpcode_iff (hf : f.WellFormed) {opcode : UInt8} {k : ℕ} :
    f.index.byOpcode.get? opcode = some k ↔
      ∃ i, f.instructions[k]? = some i ∧ i.opcode = opcode := by
  have hopcodes : f.instructions.zipIdx.map (·.1.opcode) = f.instructions.map (·.opcode) := by
    conv_rhs => rw [← List.zipIdx_map_fst 0 f.instructions, List.map_map]
    rfl
  have hroom : ∀ entry ∈ f.instructions.zipIdx, entry.1.opcode.toNat < f.opcodeCount := by
    rintro ⟨i, l⟩ hentry
    have hi : i ∈ f.instructions := List.mem_of_getElem? (List.mem_zipIdx_iff_getElem?.mp hentry)
    exact opcodeCount_le_iff.mp le_rfl i hi
  have hnodup : (f.instructions.zipIdx.map (·.1.opcode)).Nodup := hopcodes ▸ hf.nodup_opcodes
  rw [index, Index.byOpcode_enterAll, Index.blank, Table.get?_fill_blank_eq_some_iff hnodup hroom]
  constructor
  · rintro ⟨⟨i, l⟩, hentry, hopcode, rfl⟩
    exact ⟨i, List.mem_zipIdx_iff_getElem?.mp hentry, hopcode⟩
  · rintro ⟨i, hi, hopcode⟩
    exact ⟨(i, k), List.mem_zipIdx_iff_getElem?.mpr hi, hopcode, rfl⟩

/-- To look an instruction up by its position is to find it. -/
theorem bind_position_eq_some_iff {position : Option ℕ} {P : Instruction → Prop} {i : Instruction}
    (h : ∀ k, position = some k ↔ ∃ i, f.instructions[k]? = some i ∧ P i) :
    position.bind (f.instructions[·]?) = some i ↔ i ∈ f.instructions ∧ P i := by
  rw [Option.bind_eq_some_iff, List.mem_iff_getElem?]
  simp only [h]
  constructor
  · rintro ⟨k, ⟨j, hj, hP⟩, hi⟩
    obtain rfl := Option.some.inj (hj.symm.trans hi)
    exact ⟨⟨k, hi⟩, hP⟩
  · rintro ⟨⟨k, hi⟩, hP⟩
    exact ⟨k, ⟨i, hi, hP⟩, hi⟩

/-- The index finds by a name what a search finds. -/
theorem indexedInstruction?_eq (hf : f.WellNamed) (name : String) :
    f.indexedInstruction? name = f.instruction? name := by
  ext i
  rw [indexedInstruction?, bind_position_eq_some_iff fun _ => getElem?_byName_iff hf,
    instruction?_eq_some_iff hf]

/-- The index finds by an opcode what a search finds. -/
theorem indexedByOpcode?_eq (hf : f.WellFormed) (opcode : UInt8) :
    f.indexedByOpcode? opcode = f.byOpcode? opcode := by
  ext i
  rw [indexedByOpcode?, bind_position_eq_some_iff fun _ => get?_byOpcode_iff hf,
    byOpcode?_eq_some_iff hf]

end Format

end Bytecode
