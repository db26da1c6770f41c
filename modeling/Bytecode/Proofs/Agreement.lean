import Bytecode.Proofs.Clashes
import Bytecode.Proofs.Outline

/-!
# Front ends agree with formats

Whoever reads the source text of a front end finds the instructions of the format in it, in each
section once and in the order of their opcodes (`frontEnd_agrees`). The sections are written from the
same entries (`ofFormat_eq_ok_iff`), so they agree with one another.

The two conversions are tables. Loading keeps opcodes apart, so that an arm for a byte is the only
one, and a search for it finds what the format has (`ofByte?_eq`). Entries that clash are refused,
which keeps variants apart, so that an entry is found by its variant as well
(`toByte?_eq_some_iff`, `mnemonic?_eq`).
-/

namespace Bytecode

/-! ### The order of opcodes -/

namespace Format

variable {f : Format}

/-- The instructions in the order of their opcodes. -/
def ordered (f : Format) : List Instruction :=
  f.instructions.mergeSort fun i j => i.opcode ≤ j.opcode

theorem perm_ordered (f : Format) : f.ordered.Perm f.instructions := List.mergeSort_perm _ _

theorem nodup_opcodes_ordered (hf : f.WellFormed) : (f.ordered.map (·.opcode)).Nodup :=
  (f.perm_ordered.map _).nodup_iff.mpr hf.nodup_opcodes

theorem pairwise_ordered (hf : f.WellFormed) :
    f.ordered.Pairwise fun i j => i.opcode < j.opcode := by
  have htrans (i j k : Instruction) : decide (i.opcode ≤ j.opcode) = true →
      decide (j.opcode ≤ k.opcode) = true → decide (i.opcode ≤ k.opcode) = true := by
    simpa only [decide_eq_true_eq] using UInt8.le_trans
  have htotal (i j : Instruction) :
      (decide (i.opcode ≤ j.opcode) || decide (j.opcode ≤ i.opcode)) = true := by
    simpa only [Bool.or_eq_true, decide_eq_true_eq] using UInt8.le_total i.opcode j.opcode
  have hle : f.ordered.Pairwise fun i j => i.opcode ≤ j.opcode :=
    (List.pairwise_mergeSort htrans htotal f.instructions).imp of_decide_eq_true
  have hne := List.pairwise_map.mp (nodup_opcodes_ordered hf)
  exact (hle.and hne).imp fun ⟨hij, hij'⟩ => UInt8.lt_of_le_of_ne hij hij'

/-- A search by opcode finds the same in any order. -/
theorem find?_ordered (hf : f.WellFormed) (b : UInt8) :
    f.ordered.find? (·.opcode == b) = f.byOpcode? b := by
  have hsorted : { f with instructions := f.ordered }.WellFormed :=
    ⟨hf.nodup_counters, nodup_opcodes_ordered hf⟩
  ext i
  rw [byOpcode?_eq_some_iff hf, ← f.perm_ordered.mem_iff]
  exact byOpcode?_eq_some_iff hsorted

end Format

namespace FrontEnd

variable {f : Format} {source : String} {fe : FrontEnd} {o : Outline} {is : List Instruction}

/-- A front end has the entries of all instructions, in the order of opcodes. -/
theorem ofFormat_eq_ok_iff : ofFormat f source = .ok fe ↔
    clash? (f.instructions.map Entry.ofInstruction) = none ∧
      ⟨source, f.title, f.opcodeCount, f.ordered.map Entry.ofInstruction⟩ = fe := by
  have hentries : f.ordered.map Entry.ofInstruction =
      (f.instructions.map Entry.ofInstruction).mergeSort fun a b => a.opcode ≤ b.opcode :=
    List.map_mergeSort fun _ _ _ _ => rfl
  rw [ofFormat, hentries]
  cases clash? (f.instructions.map Entry.ofInstruction) <;> simp

/-! ### Outlines of instructions -/

/-- The method of an instruction takes all of its arguments, in order. -/
def Method.ofInstruction (i : Instruction) : Method :=
  ⟨methodName i.name, i.args.map fun arg => (parameterName arg.name, parameterType arg.kind)⟩

/-- An outline has one entry for each of certain instructions in each of its sections, and apart from
that only the arm for all other bytes. -/
structure Outline.Lists (o : Outline) (is : List Instruction) : Prop where
  discriminants : o.discriminants = is.map fun i => (variantName i.name, i.opcode.toNat)
  opcodeArms : o.opcodeArms =
    is.map (fun i => (some i.opcode.toNat, some (variantName i.name))) ++ [(none, none)]
  mnemonicArms : o.mnemonicArms = is.map fun i => (variantName i.name, i.mnemonic)
  declarations : o.declarations = is.map Method.ofInstruction
  /-- What is defined has been declared. It emits the opcode of the instruction, with all parameters
  of the method as arguments. -/
  definitions : o.definitions = is.map fun i =>
    ⟨.ofInstruction i, variantName i.name, (Method.ofInstruction i).parameters.map (·.1)⟩

theorem lists_outline (h : fe.entries = is.map Entry.ofInstruction) : fe.outline.Lists is := by
  have hmethod (i : Instruction) : Method.ofEntry (.ofInstruction i) = .ofInstruction i := by
    simp [Method.ofEntry, Entry.ofInstruction, Method.ofInstruction]
  have hparameters (i : Instruction) : (Entry.ofInstruction i).parameters.map (·.1) =
      (Method.ofInstruction i).parameters.map (·.1) := by
    simp [Entry.ofInstruction, Method.ofInstruction]
  constructor <;> simp only [outline, h, List.map_map]
  · rfl
  · rfl
  · rfl
  · exact List.map_congr_left fun i _ => hmethod i
  · refine List.map_congr_left fun i _ => ?_
    rw [Function.comp_apply, Definition.ofEntry, hmethod, hparameters]
    rfl

/-- The arms for bytes are a search by opcode. -/
theorem ofByte?_eq (h : o.Lists is) (b : UInt8) :
    o.ofByte? b = (is.find? (·.opcode == b)).map fun i => variantName i.name := by
  have harm : ((fun arm : Option ℕ × Option String => arm.1.all (· == b.toNat)) ∘
      fun i : Instruction => (some i.opcode.toNat, some (variantName i.name))) =
      (·.opcode == b) := by
    funext i
    rw [Bool.eq_iff_iff]
    simp [UInt8.toNat_inj]
  rw [Outline.ofByte?, h.opcodeArms, List.find?_append, List.find?_map, harm]
  cases is.find? (·.opcode == b) <;> rfl

theorem toByte?_eq_some_iff (h : o.Lists is) (hnodup : (is.map fun i => variantName i.name).Nodup)
    {variant : String} {n : ℕ} :
    o.toByte? variant = some n ↔ ∃ i ∈ is, variantName i.name = variant ∧ i.opcode.toNat = n := by
  rw [Outline.toByte?, h.discriminants, lookup_eq_some_iff_mem]
  · simp
  · simpa [Function.comp_def] using hnodup

theorem mnemonic?_eq (h : o.Lists is) (hnodup : (is.map fun i => variantName i.name).Nodup)
    {i : Instruction} (hi : i ∈ is) : o.mnemonic? (variantName i.name) = some i.mnemonic := by
  rw [Outline.mnemonic?, h.mnemonicArms, lookup_eq_some_iff_mem]
  · exact List.mem_map_of_mem hi
  · simpa [Function.comp_def] using hnodup

/-! ### Outlines of formats -/

theorem lists_outline_of_ofFormat (h : ofFormat f source = .ok fe) : fe.outline.Lists f.ordered := by
  obtain ⟨-, rfl⟩ := ofFormat_eq_ok_iff.mp h
  exact lists_outline rfl

theorem nodup_variants_of_ofFormat (h : ofFormat f source = .ok fe) :
    (f.ordered.map fun i => variantName i.name).Nodup := by
  obtain ⟨hclash, -⟩ := ofFormat_eq_ok_iff.mp h
  have hnodup := (clash?_eq_none_iff.mp hclash).1
  rw [List.map_map] at hnodup
  exact (f.perm_ordered.map _).nodup_iff.mpr hnodup

/-- The outline of a front end is found in its text. -/
theorem read?_codeLines_text (hf : f.Identified) (hf' : f.WellNamed) (h : ofFormat f source = .ok fe)
    (htitle : '\n' ∉ f.title.toList) (hsource : '\n' ∉ source.toList) :
    Outline.read? (codeLines fe.text) = some fe.outline := by
  obtain ⟨-, rfl⟩ := ofFormat_eq_ok_iff.mp h
  have hspelled : ∀ e ∈ f.ordered.map Entry.ofInstruction, e.Spelled := by
    intro e he
    obtain ⟨i, hi, rfl⟩ := List.mem_map.mp he
    exact Entry.spelled_ofInstruction hf hf' (f.perm_ordered.mem_iff.mp hi)
  rw [codeLines_text hspelled htitle hsource]
  exact read?_code hspelled

end FrontEnd

open FrontEnd

/-! ### A sample -/

/-- A format with two instructions, as declared: the one with the larger opcode comes first. -/
def samplePair : Schema :=
  { header := []
    counters := []
    chunks := []
    commonArgs := [⟨"line", .u32⟩]
    instructions := [⟨"halt", some 3, some "Stops.\nNothing follows.", []⟩,
      ⟨"jump to", none, none, [⟨"address", .u32⟩]⟩] }

/-- The format of `samplePair`. -/
def samplePairFormat : Format :=
  { header := []
    counters := []
    chunks := []
    instructions := [⟨"halt", "HALT", 3, [⟨"line", .u32⟩], some "Stops.\nNothing follows."⟩,
      ⟨"jump to", "JUMP_TO", 0, [⟨"address", .u32⟩, ⟨"line", .u32⟩], none⟩] }

theorem clash?_samplePairFormat :
    clash? (samplePairFormat.instructions.map Entry.ofInstruction) = none :=
  clash?_eq_none_iff.mpr (by decide +kernel)

/-! ### Agreement -/

/-- **The source text of a front end says what the format says.** Its lines of code list the
instructions in the order of their opcodes, each of them once in each section. By its arms, a byte
is converted to the variant of the instruction that the format has under this opcode, and this undoes
the conversion of variants to their values. -/
theorem frontEnd_agrees {schema : Schema} {f : Format} {source text : String}
    (hload : schema.load = .ok f) (htitle : '\n' ∉ f.title.toList) (hsource : '\n' ∉ source.toList)
    (htext : sourceText f source = .ok text) :
    ∃ outline is, Outline.read? (codeLines text) = some outline ∧ is.Perm f.instructions ∧
      is.Pairwise (fun i j => i.opcode < j.opcode) ∧
      (is.map fun i => variantName i.name).Nodup ∧
      outline.Lists is ∧ outline.count = f.opcodeCount ∧
      (∀ b variant, outline.ofByte? b = some variant ↔
        ∃ i, f.indexedByOpcode? b = some i ∧ variantName i.name = variant) ∧
      (∀ b variant, outline.ofByte? b = some variant ↔ outline.toByte? variant = some b.toNat) ∧
      ∀ i ∈ is, outline.mnemonic? (variantName i.name) = some i.mnemonic := by
  have hf := Schema.wellFormed_of_load hload
  obtain ⟨fe, hfe, rfl⟩ := except_map_eq_ok_iff.mp htext
  have hread := read?_codeLines_text (Schema.identified_of_load hload)
    (Schema.wellNamed_of_load hload) hfe htitle hsource
  have hnodup := nodup_variants_of_ofFormat hfe
  have hlists := lists_outline_of_ofFormat hfe
  have hcount : fe.outline.count = f.opcodeCount := by
    obtain ⟨-, rfl⟩ := ofFormat_eq_ok_iff.mp hfe
    rfl
  have hbyte (b : UInt8) (variant : String) : fe.outline.ofByte? b = some variant ↔
      ∃ i, f.indexedByOpcode? b = some i ∧ variantName i.name = variant := by
    rw [ofByte?_eq hlists, Format.find?_ordered hf, Format.indexedByOpcode?_eq hf,
      Option.map_eq_some_iff]
  have hinverse (b : UInt8) (variant : String) :
      fe.outline.ofByte? b = some variant ↔ fe.outline.toByte? variant = some b.toNat := by
    rw [hbyte, toByte?_eq_some_iff hlists hnodup]
    refine exists_congr fun i => ?_
    rw [Format.indexedByOpcode?_eq hf, Format.byOpcode?_eq_some_iff hf, f.perm_ordered.mem_iff,
      UInt8.toNat_inj, and_assoc]
    exact and_congr_right fun _ => and_comm
  exact ⟨fe.outline, f.ordered, hread, f.perm_ordered, Format.pairwise_ordered hf, hnodup, hlists,
    hcount, hbyte, hinverse, fun _ hi => mnemonic?_eq hlists hnodup hi⟩

theorem frontEnd_agrees_of_sample : ∃ text outline is,
    sourceText samplePairFormat "pair.json" = .ok text ∧
      Outline.read? (codeLines text) = some outline ∧ outline.Lists is ∧
      outline.ofByte? 3 = some "Halt" ∧ outline.toByte? "Halt" = some 3 := by
  have hload : samplePair.load = .ok samplePairFormat := by decide +kernel
  obtain ⟨text, htext⟩ : ∃ text, sourceText samplePairFormat "pair.json" = .ok text :=
    ⟨_, except_map_eq_ok_iff.mpr ⟨_, ofFormat_eq_ok_iff.mpr ⟨clash?_samplePairFormat, rfl⟩, rfl⟩⟩
  obtain ⟨outline, is, hread, -, -, -, hlists, -, hbyte, hinverse, -⟩ :=
    frontEnd_agrees hload (by decide +kernel) (by decide +kernel) htext
  have hfound : samplePairFormat.indexedByOpcode? 3 = samplePairFormat.instructions[0]? := by
    rw [Format.indexedByOpcode?_eq (Schema.wellFormed_of_load hload)]
    decide +kernel
  have hhalt : outline.ofByte? 3 = some "Halt" :=
    (hbyte 3 "Halt").mpr ⟨_, hfound, by decide +kernel⟩
  exact ⟨text, outline, is, htext, hread, hlists, hhalt, (hinverse 3 "Halt").mp hhalt⟩

end Bytecode
