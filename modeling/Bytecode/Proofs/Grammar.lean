import Bytecode.Proofs.Words
import Mathlib.Tactic.Tauto

/-!
# The grammar of names

A name is made of parts with single spaces between them, and a part of letters, digits and
underscores (`MadeOf`). `isIdentifier` accepts the texts that are made in this way, and no others
(`isIdentifier_iff_madeOf`), although it never looks for parts: it tests the first character and the
last, looks for two spaces in a row, and tests every character by itself.

Between the two stands the text cut at every space. If a text is made of parts, then these are its
pieces (`MadeOf.splitOn_eq`); in particular they can be read off. Parts are not empty, and that no
piece is empty is just what the tests for spaces find out together (`isIdentifier_iff_splitOn`).
-/

namespace Bytecode

/-! ### Characters -/

theorem isUpper_iff {c : Char} : c.isUpper = true ↔ 65 ≤ c.toNat ∧ c.toNat ≤ 90 :=
  decide_eq_true_iff

theorem isLower_iff {c : Char} : c.isLower = true ↔ 97 ≤ c.toNat ∧ c.toNat ≤ 122 :=
  Bool.and_eq_true_iff.trans (and_congr decide_eq_true_iff decide_eq_true_iff)

theorem isDigit_iff {c : Char} : c.isDigit = true ↔ 48 ≤ c.toNat ∧ c.toNat ≤ 57 :=
  Char.isDigit_iff_toNat

theorem isAlpha_iff {c : Char} : c.isAlpha = true ↔
    (65 ≤ c.toNat ∧ c.toNat ≤ 90) ∨ (97 ≤ c.toNat ∧ c.toNat ≤ 122) :=
  Bool.or_eq_true_iff.trans (or_congr isUpper_iff isLower_iff)

/-- Letters and digits by their codes. -/
theorem isAlphanum_iff {c : Char} : c.isAlphanum = true ↔ (48 ≤ c.toNat ∧ c.toNat ≤ 57) ∨
    (65 ≤ c.toNat ∧ c.toNat ≤ 90) ∨ (97 ≤ c.toNat ∧ c.toNat ≤ 122) := by
  have hor : c.isAlphanum = true ↔ c.isAlpha = true ∨ c.isDigit = true := Bool.or_eq_true_iff
  rw [hor, isAlpha_iff, isDigit_iff, or_comm]

/-- Whether a character may stand in a folded name. -/
def isWordChar (c : Char) : Bool := c.isAlphanum || c == '_'

theorem isWordChar_iff {c : Char} : isWordChar c = true ↔ c.isAlphanum = true ∨ c = '_' := by
  rw [isWordChar, Bool.or_eq_true, beq_iff_eq]

theorem isLower_toUpper (c : Char) : c.toUpper.isLower = false := by
  rw [← Bool.not_eq_true, isLower_iff, toNat_toUpper]
  split <;> omega

/-! ### Ranges -/

/-- Letters, digits and underscores, by their ranges. -/
def IsNameLetter (c : Char) : Prop :=
  ('A' ≤ c ∧ c ≤ 'Z') ∨ ('a' ≤ c ∧ c ≤ 'z') ∨ ('0' ≤ c ∧ c ≤ '9') ∨ c = '_'

/-- The grammar of names: one or more parts with single spaces between them. Each part is made of
one or more letters, digits and underscores, and the very first character is not a digit. -/
structure MadeOf (name : String) (parts : List String) : Prop where
  parts_ne_nil : parts ≠ []
  part_ne_empty : ∀ part ∈ parts, part ≠ ""
  isNameLetter : ∀ part ∈ parts, ∀ c ∈ part.toList, IsNameLetter c
  eq_intercalate : name = " ".intercalate parts
  head_not_digit : ∀ c ∈ name.toList.head?, ¬ ('0' ≤ c ∧ c ≤ '9')

section

variable {c : Char} {cs : List Char} {name : String} {parts : List String}

theorem range_iff {lo hi c : Char} :
    lo ≤ c ∧ c ≤ hi ↔ lo.toNat ≤ c.toNat ∧ c.toNat ≤ hi.toNat :=
  and_congr UInt32.le_iff_toNat_le UInt32.le_iff_toNat_le

theorem range_isUpper_iff : 'A' ≤ c ∧ c ≤ 'Z' ↔ c.isUpper = true :=
  range_iff.trans isUpper_iff.symm

theorem range_isLower_iff : 'a' ≤ c ∧ c ≤ 'z' ↔ c.isLower = true :=
  range_iff.trans isLower_iff.symm

theorem range_isDigit_iff : '0' ≤ c ∧ c ≤ '9' ↔ c.isDigit = true :=
  range_iff.trans isDigit_iff.symm

theorem isNameLetter_iff : IsNameLetter c ↔ isWordChar c = true := by
  have halpha : c.isAlpha = true ↔ c.isUpper = true ∨ c.isLower = true := Bool.or_eq_true_iff
  have halphanum : c.isAlphanum = true ↔ c.isAlpha = true ∨ c.isDigit = true := Bool.or_eq_true_iff
  rw [IsNameLetter, range_isUpper_iff, range_isLower_iff, range_isDigit_iff, isWordChar_iff,
    halphanum, halpha, or_assoc, or_assoc]

theorem not_isNameLetter_space : ¬ IsNameLetter ' ' := by
  rw [isNameLetter_iff]
  decide

theorem isNameChar_iff : isNameChar c = true ↔ IsNameLetter c ∨ c = ' ' := by
  rw [isNameLetter_iff, isNameChar, isWordChar, Bool.or_eq_true, beq_iff_eq]

/-- What may start a name may also stand in a part, and is not a digit. -/
theorem isNameStart_iff_isNameLetter :
    isNameStart c = true ↔ IsNameLetter c ∧ ¬ ('0' ≤ c ∧ c ≤ '9') := by
  rw [range_isDigit_iff, isNameLetter_iff, isWordChar_iff, isNameStart, Bool.or_eq_true, beq_iff_eq]
  by_cases hc : c = '_'
  · rw [hc]
    decide
  · rw [or_iff_left hc, or_iff_left hc, isAlpha_iff, isAlphanum_iff, isDigit_iff]
    omega

/-! ### Spaces -/

/-- The search for two spaces in a row finds them wherever they stand. -/
theorem hasDoubleSpace_iff : hasDoubleSpace cs = true ↔ [' ', ' '] <:+: cs := by
  induction cs with
  | nil => simp [hasDoubleSpace]
  | cons c cs ih =>
    cases cs with
    | nil => simp [hasDoubleSpace, List.infix_cons_iff, List.cons_prefix_cons]
    | cons d cs =>
      have hfront : [' ', ' '] <+: c :: d :: cs ↔ (c == ' ' && d == ' ') = true := by
        simp [List.cons_prefix_cons, eq_comm (a := ' ')]
      rw [hasDoubleSpace, Bool.or_eq_true, ← hfront, ih]
      exact List.infix_cons_iff.symm

/-- The tests for spaces together say that no piece between spaces is empty. -/
theorem isIdentifier_iff_splitOn : isIdentifier name = true ↔
    (∀ c ∈ name.toList, IsNameLetter c ∨ c = ' ') ∧ [] ∉ name.toList.splitOn ' ' ∧
      ∀ c ∈ name.toList.head?, ¬ ('0' ≤ c ∧ c ≤ '9') := by
  unfold isIdentifier
  rw [nil_mem_splitOn_iff, ← hasDoubleSpace_iff]
  cases name.toList with
  | nil => simp
  | cons c cs =>
    -- a letter in front is no space in front, and all other tests stand on both sides
    have hspace (h : IsNameLetter c) : c ≠ ' ' := fun hc => not_isNameLetter_space (hc ▸ h)
    simp only [Bool.and_eq_true, isNameStart_iff_isNameLetter, bne_iff_ne, ne_eq,
      Bool.not_eq_true', List.all_eq_true, isNameChar_iff, List.forall_mem_cons, reduceCtorEq,
      List.head?_cons, Option.some.injEq, false_or, not_or, Bool.not_eq_true, Option.mem_some_iff,
      forall_eq']
    tauto

/-! ### Parts -/

theorem MadeOf.toList_eq (h : MadeOf name parts) :
    name.toList = [' '].intercalate (parts.map String.toList) := by
  rw [h.eq_intercalate, String.toList_intercalate]
  rfl

/-- The parts are what is between the spaces. -/
theorem MadeOf.splitOn_eq (h : MadeOf name parts) :
    name.toList.splitOn ' ' = parts.map String.toList := by
  rw [h.toList_eq]
  apply List.splitOn_intercalate
  · intro cs hcs hspace
    obtain ⟨part, hpart, rfl⟩ := List.mem_map.mp hcs
    exact not_isNameLetter_space (h.isNameLetter part hpart ' ' hspace)
  · rw [ne_eq, List.map_eq_nil_iff]
    exact h.parts_ne_nil

theorem isIdentifier_of_madeOf (h : MadeOf name parts) : isIdentifier name = true := by
  refine isIdentifier_iff_splitOn.mpr ⟨fun c hc => ?_, fun hnil => ?_, h.head_not_digit⟩
  · -- a character comes from a space between parts, or from a part
    rw [h.toList_eq] at hc
    rcases mem_of_mem_intercalate hc with hc | ⟨cs, hcs, hc⟩
    · exact Or.inr (List.mem_singleton.mp hc)
    · obtain ⟨part, hpart, rfl⟩ := List.mem_map.mp hcs
      exact Or.inl (h.isNameLetter part hpart c hc)
  · rw [h.splitOn_eq] at hnil
    obtain ⟨part, hpart, hempty⟩ := List.mem_map.mp hnil
    exact h.part_ne_empty part hpart (String.toList_eq_nil_iff.mp hempty)

theorem madeOf_of_isIdentifier (h : isIdentifier name = true) :
    MadeOf name ((name.toList.splitOn ' ').map String.ofList) := by
  obtain ⟨hchars, hnil, hdigit⟩ := isIdentifier_iff_splitOn.mp h
  constructor
  · rw [ne_eq, List.map_eq_nil_iff]
    exact List.splitOn_ne_nil ' ' name.toList
  · intro part hpart hempty
    obtain ⟨piece, hpiece, rfl⟩ := List.mem_map.mp hpart
    rw [String.ofList_eq_empty_iff] at hempty
    exact hnil (hempty ▸ hpiece)
  · intro part hpart c hc
    obtain ⟨piece, hpiece, rfl⟩ := List.mem_map.mp hpart
    rw [String.toList_ofList] at hc
    obtain ⟨hname, hspace⟩ := mem_of_mem_splitOn hpiece hc
    exact (hchars c hname).resolve_right hspace
  · have hpieces : ((name.toList.splitOn ' ').map String.ofList).map String.toList =
        name.toList.splitOn ' ' := by
      rw [List.map_map, String.toList_comp_ofList, List.map_id]
    rw [← String.toList_inj, String.toList_intercalate, hpieces]
    exact (List.intercalate_splitOn ' ').symm
  · exact hdigit

end

/-- **Identifiers are the texts that are made of parts.** -/
theorem isIdentifier_iff_madeOf (name : String) :
    isIdentifier name = true ↔ ∃ parts, MadeOf name parts :=
  ⟨fun h => ⟨_, madeOf_of_isIdentifier h⟩, fun ⟨_, h⟩ => isIdentifier_of_madeOf h⟩

/-- Between two spaces in a row there would be an empty part. -/
example : isIdentifier "get  local" = false := by decide

end Bytecode
