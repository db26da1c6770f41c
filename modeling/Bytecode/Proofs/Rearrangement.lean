import Bytecode.Proofs.Comments

/-!
# The order of declarations

A schema declares its instructions one after another. In a front end they come in the order of their
opcodes, and the order of declaration leaves no trace (`sourceText_of_perm`): as loading keeps
opcodes apart, instructions can be put into the order of opcodes in one way only
(`Format.ordered_eq_of_perm`).

The same holds of the search for clashes among variants, which puts the entries into an order that
tells any two of them apart by their names (`FrontEnd.variantClash?_eq_of_perm`). The search for
clashes among parameters goes through the instructions as they are declared. Whether it finds one
does not depend on the order, which one it finds first does.
-/

namespace Bytecode

/-! ### Formats -/

namespace Format

variable {f f' : Format}

/-- The same instructions have the same order of opcodes. -/
theorem ordered_eq_of_perm (hf : f.WellFormed) (hf' : f'.WellFormed)
    (h : f.instructions.Perm f'.instructions) : f.ordered = f'.ordered := by
  have hperm : f.ordered.Perm f'.ordered := (f.perm_ordered.trans h).trans f'.perm_ordered.symm
  refine hperm.eq_of_pairwise ?_ (pairwise_ordered hf) (pairwise_ordered hf')
  intro i j _ _ hij hji
  exact absurd hji (UInt8.lt_asymm hij)

theorem opcodeCount_eq_of_perm (h : f.instructions.Perm f'.instructions) :
    f.opcodeCount = f'.opcodeCount := by
  refine eq_of_forall_ge_iff fun n => ?_
  rw [opcodeCount_le_iff, opcodeCount_le_iff]
  simp only [h.mem_iff]

/-- Formats with the same constants and the same instructions have one front end. -/
theorem frontEnd_eq_of_perm (hf : f.WellFormed) (hf' : f'.WellFormed)
    (hheader : f.header = f'.header) (h : f.instructions.Perm f'.instructions) (source : String) :
    f.frontEnd source = f'.frontEnd source := by
  have htitle : f.title = f'.title := by rw [title, hheader, ← title]
  rw [frontEnd, htitle, opcodeCount_eq_of_perm h, ordered_eq_of_perm hf hf' h, ← frontEnd]

end Format

/-! ### Clashes -/

namespace FrontEnd

variable {entries entries' : List Entry}

/-- The order of variants, and of names among equal variants, goes both ways between entries of one
name only. -/
theorem name_eq_of_variantLE {a b : Entry} (hab : variantLE a b = true)
    (hba : variantLE b a = true) : a.name = b.name := by
  rcases variantLE_iff.mp hab with hlt | ⟨-, hle⟩
  · exact absurd hlt (String.not_lt.mpr (le_of_variantLE hba))
  · rcases variantLE_iff.mp hba with hlt | ⟨-, hge⟩
    · exact absurd hlt (String.not_lt.mpr (le_of_variantLE hab))
    · exact String.le_antisymm hle hge

/-- Entries that differ in their names have one order of variants, and so one first clash. -/
theorem variantClash?_eq_of_perm (hnames : (entries.map (·.name)).Nodup)
    (h : entries.Perm entries') : variantClash? entries = variantClash? entries' := by
  have hperm : (entries.mergeSort variantLE).Perm (entries'.mergeSort variantLE) :=
    ((entries.mergeSort_perm _).trans h).trans (entries'.mergeSort_perm _).symm
  have hsorted : entries.mergeSort variantLE = entries'.mergeSort variantLE := by
    refine hperm.eq_of_pairwise ?_ (List.pairwise_mergeSort variantLE_trans variantLE_total _)
      (List.pairwise_mergeSort variantLE_trans variantLE_total _)
    intro a b ha hb hab hba
    have ha' : a ∈ entries := (entries.mergeSort_perm _).mem_iff.mp ha
    have hb' : b ∈ entries := h.mem_iff.mpr ((entries'.mergeSort_perm _).mem_iff.mp hb)
    exact List.inj_on_of_nodup_map hnames ha' hb' (name_eq_of_variantLE hab hba)
  rw [variantClash?, hsorted, ← variantClash?]

theorem clash?_eq_none_iff_of_perm (h : entries.Perm entries') :
    clash? entries = none ↔ clash? entries' = none := by
  rw [clash?_eq_none_iff, clash?_eq_none_iff, (h.map (·.variant)).nodup_iff]
  simp only [h.mem_iff]

/-- A clash of variants is reported whenever there is one. -/
theorem clash?_eq_variant_iff {first second name : String} :
    clash? entries = some (.variant first second name) ↔
      variantClash? entries = some (.variant first second name) := by
  rw [clash?]
  cases hclash : variantClash? entries with
  | some clash => rfl
  | none =>
    refine iff_of_false (fun h => ?_) (by simp)
    obtain ⟨e, -, he⟩ := List.exists_of_findSome?_eq_some h
    obtain ⟨name', -, hname'⟩ := Entry.of_parameterClash? he
    cases hname'

/-- What clashes in a format clashes in every format with the same instructions. -/
theorem Clash.Real.of_perm {f f' : Format} (h : f.instructions.Perm f'.instructions) {clash : Clash}
    (hreal : clash.Real f) : clash.Real f' := by
  cases clash <;> simpa only [Clash.Real, h.mem_iff] using hreal

/-! ### Texts -/

variable {f : Format} {source : String}

theorem sourceText_eq_ok_iff {text : String} : sourceText f source = .ok text ↔
    clash? (f.instructions.map Entry.ofInstruction) = none ∧ (f.frontEnd source).text = text := by
  rw [sourceText_eq]
  cases clash? (f.instructions.map Entry.ofInstruction) <;> simp

theorem sourceText_eq_error_iff {clash : Clash} : sourceText f source = .error clash ↔
    clash? (f.instructions.map Entry.ofInstruction) = some clash := by
  rw [sourceText_eq]
  cases clash? (f.instructions.map Entry.ofInstruction) <;> simp

end FrontEnd

open FrontEnd

/-! ### A sample -/

/-- The instructions of `samplePair`, declared the other way round. -/
def samplePairReversed : Schema :=
  { samplePair with instructions := samplePair.instructions.reverse }

/-- The format of `samplePairReversed`. -/
def samplePairReversedFormat : Format :=
  { samplePairFormat with instructions := samplePairFormat.instructions.reverse }

/-! ### Two runs -/

/-- **The order of declarations does not reach the source text.** Let two loaded formats have the
same constants, and the same instructions in whatever orders. Then a text is the source text for one
of them iff it is the source text for the other. A clash of variants is reported for one iff it is
reported for the other, and whatever clash is reported for one is there in both. -/
theorem sourceText_of_perm {schema schema' : Schema} {f f' : Format} (hload : schema.load = .ok f)
    (hload' : schema'.load = .ok f') (hheader : f.header = f'.header)
    (hperm : f.instructions.Perm f'.instructions) (source : String) :
    (∀ text, sourceText f source = .ok text ↔ sourceText f' source = .ok text) ∧
    (∀ first second name, sourceText f source = .error (.variant first second name) ↔
      sourceText f' source = .error (.variant first second name)) ∧
    ∀ clash, sourceText f source = .error clash → clash.Real f ∧ clash.Real f' := by
  have hf := Schema.wellNamed_of_load hload
  have hentries := hperm.map Entry.ofInstruction
  have hfrontEnd := Format.frontEnd_eq_of_perm (Schema.wellFormed_of_load hload)
    (Schema.wellFormed_of_load hload') hheader hperm source
  have hnone := clash?_eq_none_iff_of_perm hentries
  have hnames : ((f.instructions.map Entry.ofInstruction).map (·.name)).Nodup := by
    have hspelled : (f.instructions.map (id ·.name)).Nodup := nodup_of_mnemonic hf fun _ => rfl
    rw [List.map_map]
    exact hspelled
  have hvariant := variantClash?_eq_of_perm hnames hentries
  refine ⟨fun text => ?_, fun first second name => ?_, fun clash hclash => ?_⟩
  · rw [sourceText_eq_ok_iff, sourceText_eq_ok_iff, hnone, hfrontEnd]
  · rw [sourceText_eq_error_iff, sourceText_eq_error_iff, clash?_eq_variant_iff,
      clash?_eq_variant_iff, hvariant]
  · have hreal := real_of_clash? hf (sourceText_eq_error_iff.mp hclash)
    exact ⟨hreal, hreal.of_perm hperm⟩

/-- The instruction with the larger opcode may come first or last. -/
theorem sourceText_of_perm_of_sample : samplePairFormat ≠ samplePairReversedFormat ∧
    ∃ text, sourceText samplePairFormat "pair.json" = .ok text ∧
      sourceText samplePairReversedFormat "pair.json" = .ok text := by
  have hload : samplePair.load = .ok samplePairFormat := by decide +kernel
  have hload' : samplePairReversed.load = .ok samplePairReversedFormat := by decide +kernel
  obtain ⟨htexts, -⟩ := sourceText_of_perm hload hload' rfl
    samplePairFormat.instructions.reverse_perm.symm "pair.json"
  have htext : sourceText samplePairFormat "pair.json" =
      .ok (samplePairFormat.frontEnd "pair.json").text :=
    sourceText_eq_ok_iff.mpr ⟨clash?_samplePairFormat, rfl⟩
  exact ⟨by decide +kernel, _, htext, (htexts _).mp htext⟩

end Bytecode
