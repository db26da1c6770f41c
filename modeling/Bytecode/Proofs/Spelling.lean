import Bytecode.FrontEnd.Source
import Bytecode.Proofs.Identifiers

/-!
# Names in front ends

However an identifier is spelled in a front end, it is made of letters, digits and underscores
(`Entry.spelled_ofInstruction`), so that it cannot be taken for what stands around it.
-/

namespace Bytecode.FrontEnd

/-! ### Spellings -/

theorem isAlphanum_toLower {c : Char} (h : c.isAlphanum = true) : c.toLower.isAlphanum = true := by
  rw [isAlphanum_iff] at h ⊢
  rw [toNat_toLower]
  split <;> omega

theorem isAlphanum_of_mem_capitalize {w : List Char} (hw : ∀ c ∈ w, c.isAlphanum = true) {c : Char}
    (hc : c ∈ capitalize w) : c.isAlphanum = true := by
  cases w with
  | nil => cases hc
  | cons d w =>
    obtain ⟨hd, hw⟩ := List.forall_mem_cons.mp hw
    rcases List.mem_cons.mp hc with rfl | hc
    · exact isAlphanum_toUpper hd
    · obtain ⟨d', hd', rfl⟩ := List.mem_map.mp hc
      exact isAlphanum_toLower (hw d' hd')

theorem isAlphanum_of_mem_variantName {name : String} (h : isIdentifier name) {c : Char}
    (hc : c ∈ (variantName name).toList) : c.isAlphanum = true := by
  unfold variantName at hc
  split at hc
  · rw [List.mem_singleton.mp hc]
    decide
  · rw [String.toList_ofList] at hc
    obtain ⟨w, hw, hc⟩ := List.mem_flatMap.mp hc
    exact isAlphanum_of_mem_capitalize (fun d hd => isAlphanum_of_mem_words h hw hd) hc

theorem toList_variantName_ne_nil (name : String) : (variantName name).toList ≠ [] := by
  unfold variantName
  split
  · decide
  · rename_i hne
    rw [String.toList_ofList]
    exact hne

theorem isWordChar_of_mem_snakeCase {name : String} (h : isIdentifier name) {c : Char}
    (hc : c ∈ (snakeCase name).toList) : isWordChar c = true :=
  isWordChar_of_mem_joinWords (fun _ => isAlphanum_toLower) h hc

theorem isWordChar_of_mem_methodName {name : String} (h : isIdentifier name) {c : Char}
    (hc : c ∈ (methodName name).toList) : isWordChar c = true := by
  have hemit : ∀ c ∈ "emit_".toList, isWordChar c = true := List.all_eq_true.mp (by decide)
  rw [methodName, String.toList_append, List.mem_append] at hc
  exact hc.elim (hemit c) (isWordChar_of_mem_snakeCase h)

theorem isWordChar_of_mem_parameterName {name : String} (h : isIdentifier name) {c : Char}
    (hc : c ∈ (parameterName name).toList) : isWordChar c = true ∨ c = '#' := by
  have hplain {c : Char} (hc : c ∈ (snakeCase name).toList) := isWordChar_of_mem_snakeCase h hc
  have harg : ∀ c ∈ "arg".toList, isWordChar c = true := List.all_eq_true.mp (by decide)
  have hraw : ∀ c ∈ "r#".toList, isWordChar c = true ∨ c = '#' :=
    List.forall_mem_cons.mpr ⟨Or.inl (by decide), List.forall_mem_singleton.mpr (Or.inr rfl)⟩
  unfold parameterName at hc
  dsimp only at hc
  split_ifs at hc
  · rw [String.toList_append, List.mem_append] at hc
    rcases hc with hc | hc
    · exact Or.inl (hplain hc)
    · rw [List.mem_singleton.mp hc]
      decide
  · exact Or.inl (harg c hc)
  · rw [String.toList_append, List.mem_append] at hc
    exact hc.elim (hraw c) fun hc => Or.inl (hplain hc)
  · exact Or.inl (hplain hc)

/-- The names of an entry are made of letters, digits and underscores; those of parameters may be
marked as raw. -/
structure Entry.Spelled (e : Entry) : Prop where
  variant_ne_nil : e.variant.toList ≠ []
  variant : ∀ c ∈ e.variant.toList, isWordChar c = true
  mnemonic : ∀ c ∈ e.mnemonic.toList, isWordChar c = true
  method : ∀ c ∈ e.method.toList, isWordChar c = true
  parameters : ∀ p ∈ e.parameters, ∀ c ∈ p.1.toList, isWordChar c = true ∨ c = '#'

theorem Entry.spelled_ofInstruction {f : Format} (hf : f.Identified) (hf' : f.WellNamed)
    {i : Instruction} (hi : i ∈ f.instructions) : (Entry.ofInstruction i).Spelled where
  variant_ne_nil := toList_variantName_ne_nil i.name
  variant c hc := by
    rw [isWordChar_iff]
    exact Or.inl (isAlphanum_of_mem_variantName (hf.instructions i hi) hc)
  mnemonic c hc := by
    rw [ofInstruction, hf'.mnemonic_eq i hi] at hc
    exact isWordChar_of_mem_mnemonic (hf.instructions i hi) hc
  method c hc := isWordChar_of_mem_methodName (hf.instructions i hi) hc
  parameters p hp c hc := by
    obtain ⟨arg, harg, rfl⟩ := List.mem_map.mp hp
    exact isWordChar_of_mem_parameterName (hf.args i hi arg harg) hc

end Bytecode.FrontEnd
