import Bytecode.FrontEnd.Casing
import Bytecode.Proofs.Grammar
import Bytecode.Speller
import Mathlib.Data.List.Forall2

/-!
# Folding names

Names are folded in two ways: to mnemonics, in upper case, and to the lower case of methods and
parameters. Either way the words of a name are written one after another, with an underscore before
each but the first (`Speller.spell_eq_joinWords`), and can be read off again from what is written.

So two names are folded to one text exactly if their words are the same up to case
(`joinWords_eq_iff_sameWords`). This does not depend on the case to which they are folded, for both
tell the same characters apart (`toUpper_eq_toUpper_iff`, `toLower_eq_toLower_iff`). It follows that
both ways fold the same names together, and that to fold a name in one way and then in the other is
to fold it in the second only (`folded_alike`).
-/

namespace Bytecode

/-! ### Word by word -/

namespace Speller

variable {respell : Char → Char} {text : String} {piece rest : List Char} {c : Char}

/-- A break leaves an empty piece in front of it, which is passed over. -/
theorem pieces_cons (hc : isWordBreak c = true) : pieces (c :: rest) = pieces rest := by
  rw [pieces, List.splitOnP_cons_eq_if_modifyHead, if_pos hc]
  rfl

/-- A word comes off the front as a piece where a break, or nothing, follows it. -/
theorem pieces_append (hpiece : IsWord piece) (hrest : ∀ c ∈ rest.head?, isWordBreak c = true) :
    pieces (piece ++ rest) = piece :: pieces rest := by
  have hkept (others : List (List Char)) : (piece :: others).filter (!·.isEmpty) =
      piece :: others.filter (!·.isEmpty) :=
    List.filter_cons_of_pos (by simpa using hpiece.ne_nil)
  have hone := List.splitOnP_eq_singleton hpiece.not_isWordBreak
  cases rest with
  | nil =>
    rw [List.append_nil, pieces, hone, hkept]
    rfl
  | cons d rest =>
    have hd : isWordBreak d = true := hrest d rfl
    rw [pieces_cons hd, pieces, List.splitOnP_append_cons _ _ hd, hone, List.singleton_append, hkept,
      pieces]

theorem pieces_eq_words (cs : List Char) : pieces cs = words cs := by
  induction cs using wordwise with
  | nil =>
    rw [words_nil, pieces, List.splitOnP_nil]
    rfl
  | skip c rest hc ih => rw [pieces_cons hc, ih, words_cons hc]
  | word w rest hw hrest ih => rw [pieces_append hw hrest, ih, words_append hw hrest]

theorem toList_foldl_push (respell : Char → Char) (text : String) (piece : List Char) :
    (piece.foldl (fun text c => text.push (respell c)) text).toList =
      text.toList ++ piece.map respell := by
  induction piece generalizing text with
  | nil => rw [List.foldl_nil, List.map_nil, List.append_nil]
  | cons c piece ih =>
    rw [List.foldl_cons, ih, String.toList_push, List.append_assoc, List.map_cons]
    rfl

theorem toList_write_empty (respell : Char → Char) (piece : List Char) :
    (write respell "" piece).toList = piece.map respell :=
  toList_foldl_push respell "" piece

theorem toList_write (h : text ≠ "") :
    (write respell text piece).toList = text.toList ++ (['_'] ++ piece.map respell) := by
  have hempty : text.isEmpty = false := String.isEmpty_eq_false_iff.mpr h
  rw [write, hempty, toList_foldl_push, if_neg Bool.false_ne_true, String.toList_push,
    List.append_assoc]

/-- Once something has been written, every further piece is written behind an underscore. -/
theorem toList_foldl_write (h : text ≠ "") (pieces : List (List Char)) :
    (pieces.foldl (write respell) text).toList =
      text.toList ++ pieces.flatMap fun piece => ['_'] ++ piece.map respell := by
  induction pieces generalizing text with
  | nil => rw [List.foldl_nil, List.flatMap_nil, List.append_nil]
  | cons piece pieces ih =>
    have hwritten : write respell text piece ≠ "" := by
      rw [ne_eq, ← String.toList_eq_nil_iff, toList_write h]
      simp
    rw [List.foldl_cons, ih hwritten, toList_write h, List.append_assoc, List.flatMap_cons]

/-- To write the pieces one after another is to join the words. -/
theorem spell_eq_joinWords (respell : Char → Char) (name : String) :
    spell respell name = joinWords respell name := by
  rw [← String.toList_inj, spell, pieces_eq_words, joinWords, String.toList_ofList]
  rcases words_eq_nil_or name.toList with hwords | ⟨c, w, ws, hwords⟩
  · rw [hwords]
    rfl
  · -- the first word is not empty, so something has been written before the others
    have hfirst : write respell "" (c :: w) ≠ "" := by
      rw [ne_eq, ← String.toList_eq_nil_iff, toList_write_empty]
      exact List.cons_ne_nil _ _
    rw [hwords, List.foldl_cons, toList_foldl_write hfirst, toList_write_empty]
    show _ = ['_'].intercalate ((c :: w).map respell :: ws.map (·.map respell))
    rw [intercalate_cons, List.flatMap_map]

end Speller

/-! ### Equality up to case -/

/-- Equality up to the case of ASCII letters: a capital letter is the same as the small letter 32
places behind it. -/
def SameLetter (c d : Char) : Prop :=
  c = d ∨ (('A' ≤ c ∧ c ≤ 'Z') ∧ d.toNat = c.toNat + 32) ∨
    (('A' ≤ d ∧ d ≤ 'Z') ∧ c.toNat = d.toNat + 32)

/-- Two names have the same words, up to the case of ASCII letters. -/
def SameWords (a b : String) : Prop :=
  List.Forall₂ (List.Forall₂ SameLetter) (Speller.pieces a.toList) (Speller.pieces b.toList)

theorem toUpper_eq_toUpper_iff (c d : Char) : c.toUpper = d.toUpper ↔ SameLetter c d := by
  rw [SameLetter, range_isUpper_iff, range_isUpper_iff, isUpper_iff, isUpper_iff,
    ← Char.toNat_inj, ← Char.toNat_inj, toNat_toUpper, toNat_toUpper]
  split_ifs <;> omega

theorem toLower_eq_toLower_iff (c d : Char) : c.toLower = d.toLower ↔ SameLetter c d := by
  rw [SameLetter, range_isUpper_iff, range_isUpper_iff, isUpper_iff, isUpper_iff,
    ← Char.toNat_inj, ← Char.toNat_inj, toNat_toLower, toNat_toLower]
  split_ifs <;> omega

theorem map_eq_map_iff_forall₂ {α β : Type} {f : α → β} {l l' : List α} :
    l.map f = l'.map f ↔ List.Forall₂ (fun a b => f a = f b) l l' := by
  rw [← List.forall₂_eq_eq_eq, List.forall₂_map_left_iff, List.forall₂_map_right_iff]

section

variable {respell : Char → Char} (hbreak : ∀ c, isWordBreak (respell c) = isWordBreak c)

include hbreak

/-- Names are folded to one text if their words are, since these can be read off. -/
theorem joinWords_eq_joinWords_iff (a b : String) : joinWords respell a = joinWords respell b ↔
    (words a.toList).map (·.map respell) = (words b.toList).map (·.map respell) := by
  constructor
  · intro h
    rw [← words_joinWords hbreak, h, words_joinWords hbreak]
  · intro h
    rw [joinWords, h, joinWords]

/-- A way of folding that tells characters apart up to case tells names apart by their words. -/
theorem joinWords_eq_iff_sameWords (hletter : ∀ c d, respell c = respell d ↔ SameLetter c d)
    (a b : String) : joinWords respell a = joinWords respell b ↔ SameWords a b := by
  simp only [joinWords_eq_joinWords_iff hbreak, map_eq_map_iff_forall₂, hletter, SameWords,
    Speller.pieces_eq_words]

/-! ### Underscores -/

theorem splitOn_joinWords {name : String} (hne : words name.toList ≠ []) :
    (joinWords respell name).toList.splitOn '_' = (words name.toList).map (·.map respell) := by
  rw [joinWords, String.toList_ofList]
  apply List.splitOn_intercalate
  · intro piece hpiece hunderscore
    obtain ⟨w, hw, rfl⟩ := List.mem_map.mp hpiece
    have hword := (isWord_of_mem_words hw).map hbreak
    exact absurd (hword.not_isWordBreak '_' hunderscore) (by decide)
  · simpa using hne

/-- Underscores divide words from words, so there is none in front, at the end or beside another. -/
theorem not_stray_joinWords (name : String) :
    ¬ ((joinWords respell name).toList.head? = some '_' ∨
      (joinWords respell name).toList.getLast? = some '_' ∨
      ['_', '_'] <:+: (joinWords respell name).toList) := by
  by_cases hne : words name.toList = []
  · simp [joinWords, hne]
  · -- an underscore without a word on both sides would leave an empty piece
    intro h
    have hnil : [] ∈ (joinWords respell name).toList.splitOn '_' :=
      nil_mem_splitOn_iff.mpr (Or.inr h)
    rw [splitOn_joinWords hbreak hne] at hnil
    obtain ⟨w, hw, hempty⟩ := List.mem_map.mp hnil
    exact (isWord_of_mem_words hw).ne_nil (List.map_eq_nil_iff.mp hempty)

theorem space_notMem_joinWords (name : String) : ' ' ∉ (joinWords respell name).toList := by
  intro hspace
  rcases mem_joinWords hspace with hunderscore | ⟨w, hw, d, hd, heq⟩
  · exact absurd hunderscore (by decide)
  · have hword := (isWord_of_mem_words hw).not_isWordBreak d hd
    rw [← hbreak, heq] at hword
    exact absurd hword (by decide)

end

/-- Single underscores divide the words of a text, and no letter is small. -/
structure Tidy (text : String) : Prop where
  no_space : ' ' ∉ text.toList
  head_ne : text.toList.head? ≠ some '_'
  getLast_ne : text.toList.getLast? ≠ some '_'
  no_double : ¬ ['_', '_'] <:+: text.toList
  no_small : ∀ c ∈ text.toList, ¬ ('a' ≤ c ∧ c ≤ 'z')

theorem tidy_mnemonic (name : String) : Tidy (mnemonic name) := by
  have hstray := not_stray_joinWords isWordBreak_toUpper name
  rw [not_or, not_or] at hstray
  obtain ⟨hhead, hlast, hdouble⟩ := hstray
  refine ⟨space_notMem_joinWords isWordBreak_toUpper name, hhead, hlast, hdouble, fun c hc => ?_⟩
  rcases mem_joinWords hc with rfl | ⟨w, hw, d, hd, rfl⟩
  · decide
  · rw [range_isLower_iff, isLower_toUpper]
    exact Bool.false_ne_true

open FrontEnd

theorem snakeCase_mnemonic (name : String) : snakeCase (mnemonic name) = snakeCase name := by
  have hcase : Char.toLower ∘ Char.toUpper = Char.toLower := funext toLower_toUpper
  rw [snakeCase, mnemonic, joinWords_joinWords isWordBreak_toUpper, hcase, ← snakeCase]

/-- **Mnemonics and the spellings in lower case fold the same names together,** namely those with
the same words up to case. Each is what a speller writes, and each is the same for a name and for
the other spelling of the name. A mnemonic has no spaces, no small letters, and single underscores
that have words on both sides. -/
theorem folded_alike (a b : String) :
    (mnemonic a = Speller.spell Char.toUpper a ∧ snakeCase a = Speller.spell Char.toLower a) ∧
      mnemonic (mnemonic a) = mnemonic a ∧
      (mnemonic a = mnemonic b ↔ snakeCase a = snakeCase b) ∧
      (snakeCase a = snakeCase b ↔ SameWords a b) ∧
      mnemonic (snakeCase a) = mnemonic a ∧ snakeCase (mnemonic a) = snakeCase a ∧
      Tidy (mnemonic a) := by
  have hupper : mnemonic a = mnemonic b ↔ SameWords a b :=
    joinWords_eq_iff_sameWords isWordBreak_toUpper toUpper_eq_toUpper_iff a b
  have hlower : snakeCase a = snakeCase b ↔ SameWords a b :=
    joinWords_eq_iff_sameWords isWordBreak_toLower toLower_eq_toLower_iff a b
  have hspelled (respell : Char → Char) := (Speller.spell_eq_joinWords respell a).symm
  exact ⟨⟨hspelled _, hspelled _⟩, mnemonic_mnemonic a, hupper.trans hlower.symm, hlower,
    mnemonic_joinWords_toLower a, snakeCase_mnemonic a, tidy_mnemonic a⟩

/-- Breaks in a row count as one, and only ASCII letters change case. -/
example : mnemonic " get__local é" = "GET_LOCAL_é" := by decide +kernel

end Bytecode
