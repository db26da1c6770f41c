import Bytecode.Proofs.Spelling
import Mathlib.Data.List.Sort

/-!
# Clashes of names

Generated code must not define a name twice. Names that a schema tells apart may be spelled alike
there: variants do not always show where words begin, parameters do not show case, and those without
words are all called `arg`. Front ends with such names are refused, and no others
(`sourceText_refuses_exactly`).

The search for clashes looks at neighbours only. It finds them all, since in the order of a key
entries with the same key are neighbours (`neighbours?_eq_none_iff`). It does not look at methods,
for these cannot clash: a method is spelled with the words of a name, and so determines the
mnemonic (`mnemonic_joinWords_toLower`), which tells instructions apart.
-/

namespace Bytecode

namespace FrontEnd

/-! ### Neighbours -/

theorem sublist_of_neighbours? {α : Type} {agree : α → α → Bool} {l : List α} {a b : α}
    (h : neighbours? agree l = some (a, b)) : [a, b].Sublist l ∧ agree a b = true := by
  induction l with
  | nil => cases h
  | cons c l ih =>
    cases l with
    | nil => cases h
    | cons d rest =>
      rw [neighbours?] at h
      split_ifs at h with hagree
      · cases h
        exact ⟨.cons_cons a (.cons_cons b (List.nil_sublist rest)), hagree⟩
      · exact (ih h).imp_left (List.Sublist.cons c)

/-- Where no two neighbours in the order of a key have one key, all keys are different. -/
theorem nodup_of_neighbours? {α : Type} {key : α → String} {l : List α}
    (hsorted : l.Pairwise fun a b => key a ≤ key b)
    (hnone : neighbours? (fun a b => key a == key b) l = none) : (l.map key).Nodup := by
  induction l with
  | nil => exact List.nodup_nil
  | cons a l ih =>
    cases l with
    | nil => exact List.nodup_singleton _
    | cons b rest =>
      obtain ⟨hle, hsorted⟩ := List.pairwise_cons.mp hsorted
      rw [neighbours?] at hnone
      split_ifs at hnone with hagree
      have hne : key a ≠ key b := by simpa using hagree
      refine List.nodup_cons.mpr ⟨fun hmem => ?_, ih hsorted hnone⟩
      -- whatever comes behind the neighbour is not less than it
      obtain ⟨c, hc, hsame⟩ := List.mem_map.mp hmem
      have hbc : key b ≤ key c := by
        rcases List.mem_cons.mp hc with rfl | hc
        · exact String.le_refl _
        · exact List.rel_of_pairwise_cons hsorted hc
      exact hne (String.le_antisymm (hle b List.mem_cons_self) (hsame ▸ hbc))

/-- In the order of a key no two neighbours have one key iff all keys are different. -/
theorem neighbours?_eq_none_iff {α : Type} {key : α → String} {l : List α}
    (hsorted : l.Pairwise fun a b => key a ≤ key b) :
    neighbours? (fun a b => key a == key b) l = none ↔ (l.map key).Nodup := by
  refine ⟨nodup_of_neighbours? hsorted, fun hnodup => ?_⟩
  rw [Option.eq_none_iff_forall_ne_some]
  rintro ⟨a, b⟩ h
  obtain ⟨hsub, hagree⟩ := sublist_of_neighbours? h
  have hne : key a ≠ key b := by simpa using hnodup.sublist (hsub.map key)
  exact hne (eq_of_beq hagree)

/-! ### Variants -/

theorem variantLE_iff {a b : Entry} : variantLE a b = true ↔
    a.variant < b.variant ∨ a.variant = b.variant ∧ a.name ≤ b.name := by
  simp [variantLE]

theorem le_of_variantLE {a b : Entry} (h : variantLE a b = true) : a.variant ≤ b.variant := by
  rcases variantLE_iff.mp h with hlt | ⟨heq, -⟩
  · exact String.not_lt.mp (String.lt_asymm hlt)
  · exact heq ▸ String.le_refl a.variant

theorem variantLE_trans (a b c : Entry) (hab : variantLE a b = true) (hbc : variantLE b c = true) :
    variantLE a c = true := by
  rw [variantLE_iff] at *
  rcases hab with hab | ⟨hab, hname⟩
  · rcases hbc with hbc | ⟨hbc, -⟩
    · exact Or.inl (String.lt_trans hab hbc)
    · exact Or.inl (hbc ▸ hab)
  · rw [hab]
    exact hbc.imp_right fun ⟨hbc, hname'⟩ => ⟨hbc, String.le_trans hname hname'⟩

theorem variantLE_total (a b : Entry) : (variantLE a b || variantLE b a) = true := by
  rw [Bool.or_eq_true, variantLE_iff, variantLE_iff]
  by_cases hlt : a.variant < b.variant
  · exact Or.inl (Or.inl hlt)
  · by_cases hgt : b.variant < a.variant
    · exact Or.inr (Or.inl hgt)
    · have heq := String.le_antisymm (String.not_lt.mp hgt) (String.not_lt.mp hlt)
      exact (String.le_total a.name b.name).imp (fun hle => Or.inr ⟨heq, hle⟩)
        fun hge => Or.inr ⟨heq.symm, hge⟩

variable {entries : List Entry} {clash : Clash}

theorem variantClash?_eq_none_iff :
    variantClash? entries = none ↔ (entries.map (·.variant)).Nodup := by
  have hsorted := List.pairwise_mergeSort variantLE_trans variantLE_total entries
  rw [variantClash?, Option.map_eq_none_iff,
    neighbours?_eq_none_iff (hsorted.imp fun hab => le_of_variantLE hab)]
  exact ((entries.mergeSort_perm variantLE).map _).nodup_iff

theorem of_variantClash? (hnames : (entries.map (·.name)).Nodup)
    (h : variantClash? entries = some clash) :
    ∃ a ∈ entries, ∃ b ∈ entries, a.name ≠ b.name ∧ a.variant = b.variant ∧
      clash = .variant a.name b.name a.variant := by
  obtain ⟨⟨a, b⟩, hab, rfl⟩ := Option.map_eq_some_iff.mp h
  obtain ⟨hsub, hagree⟩ := sublist_of_neighbours? hab
  have hperm := entries.mergeSort_perm variantLE
  have hnodup := (hperm.map (·.name)).nodup_iff.mpr hnames
  have hne : a.name ≠ b.name := by simpa using hnodup.sublist (hsub.map (·.name))
  have hmem : ∀ e ∈ [a, b], e ∈ entries := fun e he => hperm.mem_iff.mp (hsub.subset he)
  exact ⟨a, hmem a (by simp), b, hmem b (by simp), hne, eq_of_beq hagree, rfl⟩

/-! ### Parameters -/

theorem Entry.parameterClash?_eq_none_iff {e : Entry} :
    e.parameterClash? = none ↔ (e.parameters.map (·.1)).Nodup := by
  have hsorted := List.pairwise_mergeSort' (· ≤ ·) (e.parameters.map (·.1))
  have hsearch := @neighbours?_eq_none_iff _ id _ hsorted
  rw [List.map_id, (List.mergeSort_perm _ _).nodup_iff] at hsearch
  rw [Entry.parameterClash?, Option.map_eq_none_iff]
  exact hsearch

theorem Entry.of_parameterClash? {e : Entry} (h : e.parameterClash? = some clash) :
    ∃ name, 2 ≤ (e.parameters.map (·.1)).count name ∧ clash = .parameter e.name name := by
  obtain ⟨⟨name, name'⟩, hneighbours, rfl⟩ := Option.map_eq_some_iff.mp h
  obtain ⟨hsub, hagree⟩ := sublist_of_neighbours? hneighbours
  obtain rfl := eq_of_beq hagree
  refine ⟨name, ?_, rfl⟩
  rw [← (List.mergeSort_perm _ _).count_eq]
  exact List.replicate_sublist_iff.mp hsub

/-! ### Formats -/

/-- There is no clash iff no two entries have one variant and no entry has two parameters of one
name. -/
theorem clash?_eq_none_iff : clash? entries = none ↔
    (entries.map (·.variant)).Nodup ∧ ∀ e ∈ entries, (e.parameters.map (·.1)).Nodup := by
  simp only [← variantClash?_eq_none_iff, ← Entry.parameterClash?_eq_none_iff]
  rw [clash?]
  cases variantClash? entries <;> simp

variable {f : Format} {source : String}

/-- What a clash reports is there: two instructions of one variant, or an instruction with two
arguments of one parameter name. -/
def Clash.Real (f : Format) : Clash → Prop
  | variant first second name =>
    ∃ i ∈ f.instructions, ∃ j ∈ f.instructions, i.name = first ∧ j.name = second ∧ first ≠ second ∧
      variantName i.name = name ∧ variantName j.name = name
  | parameter instruction name =>
    ∃ i ∈ f.instructions, i.name = instruction ∧
      2 ≤ (i.args.map (parameterName ·.name)).count name

theorem parameters_ofInstruction (i : Instruction) :
    (Entry.ofInstruction i).parameters.map (·.1) = i.args.map (parameterName ·.name) := by
  rw [Entry.ofInstruction, List.map_map]
  rfl

/-- Instructions are spelled differently wherever the spelling determines the mnemonic. -/
theorem nodup_of_mnemonic (hf : f.WellNamed) {spell : String → String}
    (hspell : ∀ name, mnemonic (spell name) = mnemonic name) :
    (f.instructions.map (spell ·.name)).Nodup := by
  apply List.Nodup.of_map mnemonic
  have hmnemonics : (f.instructions.map (spell ·.name)).map mnemonic =
      f.instructions.map (·.mnemonic) := by
    rw [List.map_map]
    exact List.map_congr_left fun i hi => (hspell i.name).trans (hf.mnemonic_eq i hi).symm
  rw [hmnemonics]
  exact hf.nodup_mnemonics

theorem nodup_methods (hf : f.WellNamed) : (f.instructions.map (methodName ·.name)).Nodup := by
  have hsnake := nodup_of_mnemonic hf mnemonic_joinWords_toLower
  have hprefix : Function.Injective ("emit_" ++ · : String → String) := fun _ _ =>
    String.append_right_inj _ |>.mp
  have hmethods := hsnake.map hprefix
  rwa [List.map_map] at hmethods

theorem real_of_clash? (hf : f.WellNamed) {clash : Clash}
    (h : clash? (f.instructions.map Entry.ofInstruction) = some clash) : clash.Real f := by
  have hnames : ((f.instructions.map Entry.ofInstruction).map (·.name)).Nodup := by
    rw [List.map_map]
    exact @nodup_of_mnemonic f hf id fun _ => rfl
  rw [clash?] at h
  split at h
  · rename_i hvariant
    cases h
    obtain ⟨a, ha, b, hb, hne, hsame, rfl⟩ := of_variantClash? hnames hvariant
    obtain ⟨i, hi, rfl⟩ := List.mem_map.mp ha
    obtain ⟨j, hj, rfl⟩ := List.mem_map.mp hb
    exact ⟨i, hi, j, hj, rfl, rfl, hne, rfl, hsame.symm⟩
  · obtain ⟨e, he, hclash⟩ := List.exists_of_findSome?_eq_some h
    obtain ⟨i, hi, rfl⟩ := List.mem_map.mp he
    obtain ⟨name, hcount, rfl⟩ := Entry.of_parameterClash? hclash
    rw [parameters_ofInstruction] at hcount
    exact ⟨i, hi, rfl, hcount⟩

theorem exists_sourceText_iff : (∃ text, sourceText f source = .ok text) ↔
    clash? (f.instructions.map Entry.ofInstruction) = none := by
  rw [sourceText, ofFormat]
  cases clash? (f.instructions.map Entry.ofInstruction) <;> simp [Functor.map, Except.map]

theorem clash?_of_sourceText {clash : Clash} (h : sourceText f source = .error clash) :
    clash? (f.instructions.map Entry.ofInstruction) = some clash := by
  rw [sourceText, ofFormat] at h
  cases hclash : clash? (f.instructions.map Entry.ofInstruction) with
  | none =>
    rw [hclash] at h
    cases h
  | some clash' =>
    rw [hclash] at h
    cases h
    rfl

end FrontEnd

open FrontEnd

/-- **Front ends are refused for clashes only.** There is a source text for a loaded format iff the
variants of its instructions are different, and so are the parameters of each. Otherwise a clash is
reported which there is. The methods are always different. -/
theorem sourceText_refuses_exactly {schema : Schema} {f : Format} (hload : schema.load = .ok f)
    (source : String) :
    ((∃ text, sourceText f source = .ok text) ↔
      (f.instructions.map (variantName ·.name)).Nodup ∧
        ∀ i ∈ f.instructions, (i.args.map (parameterName ·.name)).Nodup) ∧
    (∀ clash, sourceText f source = .error clash → clash.Real f) ∧
    (f.instructions.map (methodName ·.name)).Nodup := by
  have hf := Schema.wellNamed_of_load hload
  refine ⟨?_, fun clash h => real_of_clash? hf (clash?_of_sourceText h), nodup_methods hf⟩
  have hvariants : (f.instructions.map Entry.ofInstruction).map (·.variant) =
      f.instructions.map (variantName ·.name) := by
    rw [List.map_map]
    rfl
  rw [exists_sourceText_iff, clash?_eq_none_iff, hvariants, List.forall_mem_map]
  simp only [parameters_ofInstruction]

/-- A format with one instruction that has two arguments of given names, as declared. -/
def sampleMove (first second : String) : Schema :=
  { header := []
    counters := []
    chunks := []
    commonArgs := []
    instructions := [⟨"mov", none, none, [⟨first, .u8⟩, ⟨second, .u8⟩]⟩] }

/-- The format of `sampleMove`. -/
def sampleMoveFormat (first second : String) : Format :=
  { header := []
    counters := []
    chunks := []
    instructions := [⟨"mov", "MOV", 0, [⟨first, .u8⟩, ⟨second, .u8⟩], none⟩] }

/-- A space makes a difference to a name, but not to a parameter if it stands for an underscore. -/
theorem sourceText_refuses_exactly_of_sample :
    (∃ text, sourceText (sampleMoveFormat "a b" "ab") "move.json" = .ok text) ∧
      ∃ clash, sourceText (sampleMoveFormat "a b" "a_b") "move.json" = .error clash ∧
        clash.Real (sampleMoveFormat "a b" "a_b") := by
  have hload : (sampleMove "a b" "ab").load = .ok (sampleMoveFormat "a b" "ab") := by
    decide +kernel
  have hload' : (sampleMove "a b" "a_b").load = .ok (sampleMoveFormat "a b" "a_b") := by
    decide +kernel
  obtain ⟨hiff, -⟩ := sourceText_refuses_exactly hload "move.json"
  obtain ⟨hiff', hreal, -⟩ := sourceText_refuses_exactly hload' "move.json"
  refine ⟨hiff.mpr (by decide +kernel), ?_⟩
  cases h : sourceText (sampleMoveFormat "a b" "a_b") "move.json" with
  | ok text => exact absurd (hiff'.mp ⟨text, h⟩) (by decide +kernel)
  | error clash => exact ⟨clash, rfl, hreal clash h⟩

end Bytecode
