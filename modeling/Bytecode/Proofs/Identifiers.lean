import Bytecode.Proofs.Grammar
import Bytecode.Proofs.Naming

/-!
# Characters of names

Identifiers have few characters (`isNameChar_of_isIdentifier`), and to fold one leaves fewer, for
spaces are gone then (`isWordChar_of_mem_joinWords`). So nothing in the name or in the mnemonic of
an instruction can be mistaken for what stands around it in a text. All names in a loaded format
are identifiers (`Schema.identified_of_load`).
-/

namespace Bytecode

/-! ### Letters and digits -/

/-- A character of another class does not stand in a text. -/
theorem notMem_of_forall {p : Char → Bool} {text : String} (h : ∀ c ∈ text.toList, p c = true)
    {c : Char} (hc : p c = false) : c ∉ text.toList := fun hmem => by
  rw [h c hmem] at hc
  cases hc

theorem isAlphanum_toUpper {c : Char} (h : c.isAlphanum = true) : c.toUpper.isAlphanum = true := by
  rw [isAlphanum_iff] at h ⊢
  rw [toNat_toUpper]
  split <;> omega

/-! ### Identifiers -/

theorem isNameChar_of_isIdentifier {name : String} (h : isIdentifier name) {c : Char}
    (hc : c ∈ name.toList) : isNameChar c = true :=
  isNameChar_iff.mpr ((isIdentifier_iff_splitOn.mp h).1 c hc)

/-- Names keep to one line. -/
theorem lineFeed_notMem_of_isIdentifier {name : String} (h : isIdentifier name) :
    '\n' ∉ name.toList :=
  notMem_of_forall (fun _ => isNameChar_of_isIdentifier h) (by decide)

theorem mem_of_mem_words {cs w : List Char} (hw : w ∈ words cs) {c : Char} (hc : c ∈ w) :
    c ∈ cs := by
  have hmem : c ∈ (words cs).flatten := List.mem_flatten.mpr ⟨w, hw, hc⟩
  rw [flatten_words] at hmem
  exact List.mem_of_mem_filter hmem

/-- The words of an identifier are made of letters and digits. -/
theorem isAlphanum_of_mem_words {name : String} (h : isIdentifier name) {w : List Char}
    (hw : w ∈ words name.toList) {c : Char} (hc : c ∈ w) : c.isAlphanum = true := by
  have hname := isNameChar_of_isIdentifier h (mem_of_mem_words hw hc)
  have hbreak := (isWord_of_mem_words hw).not_isWordBreak c hc
  simp only [isNameChar, isWordBreak, Bool.or_eq_true, Bool.or_eq_false_iff] at hname hbreak
  simpa [hbreak] using hname

theorem isWordChar_of_mem_joinWords {respell : Char → Char}
    (hrespell : ∀ c, c.isAlphanum = true → (respell c).isAlphanum = true) {name : String}
    (h : isIdentifier name) {c : Char} (hc : c ∈ (joinWords respell name).toList) :
    isWordChar c = true := by
  rw [isWordChar_iff]
  rcases mem_joinWords hc with rfl | ⟨w, hw, d, hd, rfl⟩
  · exact Or.inr rfl
  · exact Or.inl (hrespell d (isAlphanum_of_mem_words h hw hd))

theorem isWordChar_of_mem_mnemonic {name : String} (h : isIdentifier name) {c : Char}
    (hc : c ∈ (mnemonic name).toList) : isWordChar c = true :=
  isWordChar_of_mem_joinWords (fun _ => isAlphanum_toUpper) h hc

/-! ### Loaded formats -/

/-- All names are identifiers. -/
structure Format.Identified (f : Format) : Prop where
  slots : ∀ s ∈ f.counters ++ f.chunks, isIdentifier s.name
  instructions : ∀ i ∈ f.instructions, isIdentifier i.name
  args : ∀ i ∈ f.instructions, ∀ arg ∈ i.args, isIdentifier arg.name

namespace Schema

variable {s : Schema} {f : Format}

/-- An instruction of a loaded format has been declared, with the names that it has. -/
theorem exists_decl_of_load (h : s.load = .ok f) {i : Instruction} (hi : i ∈ f.instructions) :
    ∃ decl ∈ s.instructions, i.name = decl.name ∧ i.args = decl.args ++ s.commonArgs := by
  obtain ⟨checked, -, -, -, -, hinstructions⟩ := load_eq_ok_iff.mp h
  rw [hinstructions] at hi
  obtain ⟨k, hk⟩ := List.mem_iff_getElem?.mp hi
  obtain ⟨decl, opcode, hdecl, -, rfl⟩ := List.getElem?_zipWith_eq_some.mp hk
  exact ⟨decl, List.mem_of_getElem? hdecl, rfl, rfl⟩

theorem identified_of_load (h : s.load = .ok f) : f.Identified := by
  obtain ⟨checked, hchecked, -, hcounters, hchunks, -⟩ := load_eq_ok_iff.mp h
  obtain ⟨-, hcounters', hchunks', hcheck, -⟩ := check_eq_ok_iff.mp hchecked
  obtain ⟨hnames, -, hargs⟩ := checkInstructions_eq_ok_iff.mp hcheck
  have hslots {seen : List String} {fields : List Field} {slots : List Slot}
      (hresolve : resolveSlots seen fields = .ok slots) : ∀ s ∈ slots, isIdentifier s.name := by
    obtain ⟨rfl, hfields, -⟩ := resolveSlots_eq_ok_iff.mp hresolve
    exact fun s hs => hfields s.field (List.mem_map_of_mem hs)
  constructor
  · rw [hcounters, hchunks, List.forall_mem_append]
    exact ⟨hslots hcounters', hslots hchunks'⟩
  · intro i hi
    obtain ⟨decl, hdecl, hname, -⟩ := exists_decl_of_load h hi
    exact hname ▸ hnames decl hdecl
  · intro i hi
    obtain ⟨decl, hdecl, -, hdeclared⟩ := exists_decl_of_load h hi
    exact hdeclared ▸ (hargs decl hdecl).1

end Schema

end Bytecode
