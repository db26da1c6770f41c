import Bytecode.Name
import Mathlib.Data.List.TakeWhile

/-!
# Words of names

To fold a name is to divide it into words, respell these and join them again. A text is divided
from its front, where breaks and words come off (`wordwise`). Words that are joined come apart again
as they were (`words_intercalate`), so that folding a folded name respells the same words once more
(`joinWords_joinWords`). In particular mnemonics are their own mnemonics (`mnemonic_mnemonic`).

A text can also be cut at every separator, so that pieces may be empty. They are where a separator
has no neighbour to divide from something else (`nil_mem_splitOn_iff`).
-/

namespace Bytecode

/-! ### Pieces -/

section

variable {α : Type} [BEq α] [LawfulBEq α] {cs piece : List α} {sep : α}

/-- Pieces leave out separators and nothing else. -/
theorem flatten_splitOn (sep : α) (cs : List α) :
    (cs.splitOn sep).flatten = cs.filter (· != sep) := by
  induction cs with
  | nil => simp
  | cons c cs ih =>
    obtain ⟨first, pieces, hpieces⟩ := List.exists_cons_of_ne_nil (List.splitOn_ne_nil sep cs)
    rw [hpieces, List.flatten_cons] at ih
    rw [List.splitOn_cons_eq_if_modifyHead, hpieces]
    by_cases hc : c = sep
    · rw [if_pos (beq_iff_eq.mpr hc), List.filter_cons_of_neg (by simp [hc]), ← ih]
      rfl
    · rw [if_neg (mt beq_iff_eq.mp hc), List.filter_cons_of_pos (by simp [hc]), ← ih]
      rfl

theorem mem_of_mem_splitOn (h : piece ∈ cs.splitOn sep) {c : α} (hc : c ∈ piece) :
    c ∈ cs ∧ c ≠ sep := by
  have hmem : c ∈ (cs.splitOn sep).flatten := List.mem_flatten.mpr ⟨piece, h, hc⟩
  rw [flatten_splitOn, List.mem_filter, bne_iff_ne] at hmem
  exact hmem

theorem notMem_of_mem_splitOn (h : piece ∈ cs.splitOn sep) : sep ∉ piece := fun hmem =>
  (mem_of_mem_splitOn h hmem).2 rfl

/-- The first piece is empty if nothing, or a separator, comes first. -/
theorem nil_mem_splitOn_iff_tail : [] ∈ cs.splitOn sep ↔
    cs = [] ∨ cs.head? = some sep ∨ [] ∈ (cs.splitOn sep).tail := by
  cases cs with
  | nil => simp
  | cons c cs =>
    obtain ⟨first, pieces, hpieces⟩ := List.exists_cons_of_ne_nil (List.splitOn_ne_nil sep cs)
    by_cases hc : c = sep
    · simp [List.splitOn_cons_eq_if_modifyHead, hc]
    · simp [List.splitOn_cons_eq_if_modifyHead, hpieces, hc]

/-- One of the other pieces is empty if a separator comes last or two of them come in a row. -/
theorem nil_mem_tail_splitOn_iff :
    [] ∈ (cs.splitOn sep).tail ↔ cs.getLast? = some sep ∨ [sep, sep] <:+: cs := by
  induction cs with
  | nil => simp
  | cons c cs ih =>
    have hsingle : [sep] <+: cs ↔ cs.head? = some sep := by
      rw [List.cons_prefix_iff, List.head?_eq_some_iff]
      simp
    have hlast : (c :: cs).getLast? = some sep ↔ (cs = [] ∧ c = sep) ∨ cs.getLast? = some sep := by
      cases cs with
      | nil => simp
      | cons d cs => simp [List.getLast?_cons]
    rw [List.splitOn_cons_eq_if_modifyHead, List.infix_cons_iff, List.cons_prefix_cons, hsingle,
      hlast]
    by_cases hc : c = sep
    · -- what is left is cut as a whole, and its first piece may be empty as well
      rw [if_pos (beq_iff_eq.mpr hc), List.tail_cons, nil_mem_splitOn_iff_tail, ih]
      simp only [hc, and_true, true_and, or_assoc, or_left_comm]
    · rw [if_neg (mt beq_iff_eq.mp hc), List.tail_modifyHead, ih]
      simp only [hc, Ne.symm hc, and_false, false_and, false_or]

/-- Some piece is empty if there is nothing, if a separator comes first or last, or if two of them
come in a row. -/
theorem nil_mem_splitOn_iff : [] ∈ cs.splitOn sep ↔
    cs = [] ∨ cs.head? = some sep ∨ cs.getLast? = some sep ∨ [sep, sep] <:+: cs := by
  rw [nil_mem_splitOn_iff_tail, nil_mem_tail_splitOn_iff]

end

/-! ### Division and joining -/

/-- Something that names are divided into: characters without a break, and at least one. -/
structure IsWord (w : List Char) : Prop where
  ne_nil : w ≠ []
  not_isWordBreak : ∀ c ∈ w, isWordBreak c = false

theorem words_nil : words [] = [] := by rw [words]

theorem words_cons {c : Char} (hc : isWordBreak c = true) (rest : List Char) :
    words (c :: rest) = words rest := by
  rw [words, if_pos hc]

/-- A word comes off the front where a break, or nothing, follows it. -/
theorem words_append {w rest : List Char} (hw : IsWord w)
    (hrest : ∀ c ∈ rest.head?, isWordBreak c = true) : words (w ++ rest) = w :: words rest := by
  obtain ⟨c, w, rfl⟩ := List.exists_cons_of_ne_nil hw.ne_nil
  obtain ⟨hc, hw⟩ := List.forall_mem_cons.mp hw.not_isWordBreak
  have hall : ∀ d ∈ w, (!isWordBreak d) = true := fun d hd => by simp [hw d hd]
  -- behind the word there is a break or nothing, so nothing more is taken
  have htake : rest.takeWhile (fun d => !isWordBreak d) = [] := by
    cases rest with
    | nil => rfl
    | cons d rest => simp [hrest d rfl]
  have hdrop : rest.dropWhile (fun d => !isWordBreak d) = rest := by
    cases rest with
    | nil => rfl
    | cons d rest => simp [hrest d rfl]
  rw [List.cons_append, words, if_neg (by simp [hc]), List.takeWhile_append_of_pos hall,
    List.dropWhile_append_of_pos hall, htake, hdrop, List.append_nil]

/-- Every text is empty, or a break comes off its front, or a word does. -/
theorem wordwise {motive : List Char → Prop} (nil : motive [])
    (skip : ∀ c rest, isWordBreak c = true → motive rest → motive (c :: rest))
    (word : ∀ w rest, IsWord w → (∀ c ∈ rest.head?, isWordBreak c = true) → motive rest →
      motive (w ++ rest)) (cs : List Char) : motive cs := by
  induction cs using words.induct with
  | case1 => exact nil
  | case2 c cs hc ih => exact skip c cs hc ih
  | case3 c cs hc ih =>
    have hword : IsWord (c :: cs.takeWhile (!isWordBreak ·)) := by
      refine ⟨List.cons_ne_nil _ _, List.forall_mem_cons.mpr ⟨by simpa using hc, fun d hd => ?_⟩⟩
      simpa using List.mem_takeWhile_imp hd
    have hrest : ∀ d ∈ (cs.dropWhile (!isWordBreak ·)).head?, isWordBreak d = true := by
      intro d hd
      have hhead := List.head?_dropWhile_not (!isWordBreak ·) cs
      rw [hd] at hhead
      simpa using hhead
    rw [← List.takeWhile_append_dropWhile (p := (!isWordBreak ·)) (l := cs), ← List.cons_append]
    exact word _ _ hword hrest ih

theorem isWord_of_mem_words {cs w : List Char} (h : w ∈ words cs) : IsWord w := by
  induction cs using wordwise with
  | nil =>
    rw [words_nil] at h
    cases h
  | skip c rest hc ih =>
    rw [words_cons hc] at h
    exact ih h
  | word w' rest hw' hrest ih =>
    rw [words_append hw' hrest] at h
    rcases List.mem_cons.mp h with rfl | h
    · exact hw'
    · exact ih h

theorem words_eq_nil_or (cs : List Char) : words cs = [] ∨ ∃ c w ws, words cs = (c :: w) :: ws := by
  cases hwords : words cs with
  | nil => exact Or.inl rfl
  | cons w ws =>
    have hw : IsWord w := isWord_of_mem_words (hwords ▸ List.mem_cons_self)
    obtain ⟨c, w, rfl⟩ := List.exists_cons_of_ne_nil hw.ne_nil
    exact Or.inr ⟨c, w, ws, rfl⟩

/-- Words leave out breaks and nothing else. -/
theorem flatten_words (cs : List Char) : (words cs).flatten = cs.filter (!isWordBreak ·) := by
  induction cs using wordwise with
  | nil => rw [words_nil, List.flatten_nil, List.filter_nil]
  | skip c rest hc ih => rw [words_cons hc, ih, List.filter_cons_of_neg (by simp [hc])]
  | word w rest hw hrest ih =>
    have hkept : w.filter (!isWordBreak ·) = w :=
      List.filter_eq_self.mpr fun c hc => by simp [hw.not_isWordBreak c hc]
    rw [words_append hw hrest, List.flatten_cons, ih, List.filter_append, hkept]

/-- Words that are joined by underscores come apart again. -/
theorem words_intercalate {ws : List (List Char)} (h : ∀ w ∈ ws, IsWord w) :
    words (['_'].intercalate ws) = ws := by
  induction ws with
  | nil => exact words_nil
  | cons w ws ih =>
    obtain ⟨hw, hws⟩ := List.forall_mem_cons.mp h
    cases ws with
    | nil =>
      have hlast : words (w ++ []) = w :: words [] := words_append hw (by simp)
      rw [List.append_nil] at hlast
      rw [List.intercalate_singleton, hlast, words_nil]
    | cons w' ws =>
      rw [List.intercalate_cons_cons, List.append_assoc, List.singleton_append,
        words_append hw (by simp [isWordBreak]), words_cons (by decide), ih hws]

/-- What is joined is the first piece and then the others, each behind a separator. -/
theorem intercalate_cons {α : Type} (sep w : List α) (ws : List (List α)) :
    sep.intercalate (w :: ws) = w ++ ws.flatMap (sep ++ ·) := by
  induction ws generalizing w with
  | nil => rw [List.intercalate_singleton, List.flatMap_nil, List.append_nil]
  | cons w' ws ih =>
    rw [List.intercalate_cons_cons, ih, List.flatMap_cons, List.append_assoc, List.append_assoc]

theorem mem_of_mem_intercalate {α : Type} {sep : List α} {ws : List (List α)} {a : α}
    (h : a ∈ sep.intercalate ws) : a ∈ sep ∨ ∃ w ∈ ws, a ∈ w := by
  cases ws with
  | nil => cases h
  | cons w ws =>
    rw [intercalate_cons, List.mem_append, List.mem_flatMap] at h
    rcases h with h | ⟨w', hw', h⟩
    · exact Or.inr ⟨w, List.mem_cons_self, h⟩
    · exact (List.mem_append.mp h).imp_right fun h => ⟨w', List.mem_cons_of_mem w hw', h⟩

/-! ### Folding -/

/-- A respelling that turns no character into a break keeps words words. -/
theorem IsWord.map {w : List Char} (hw : IsWord w) {respell : Char → Char}
    (h : ∀ c, isWordBreak (respell c) = isWordBreak c) : IsWord (w.map respell) := by
  refine ⟨by simpa using hw.ne_nil, fun c hc => ?_⟩
  obtain ⟨d, hd, rfl⟩ := List.mem_map.mp hc
  rw [h, hw.not_isWordBreak d hd]

/-- The words of a folded name are those of the name, respelled. -/
theorem words_joinWords {respell : Char → Char} (h : ∀ c, isWordBreak (respell c) = isWordBreak c)
    (name : String) :
    words (joinWords respell name).toList = (words name.toList).map (·.map respell) := by
  rw [joinWords, String.toList_ofList]
  apply words_intercalate
  intro w hw
  obtain ⟨w', hw', rfl⟩ := List.mem_map.mp hw
  exact (isWord_of_mem_words hw').map h

/-- A folded name has underscores and respelled characters of its words. -/
theorem mem_joinWords {respell : Char → Char} {name : String} {c : Char}
    (hc : c ∈ (joinWords respell name).toList) :
    c = '_' ∨ ∃ w ∈ words name.toList, ∃ d ∈ w, respell d = c := by
  rw [joinWords, String.toList_ofList] at hc
  rcases mem_of_mem_intercalate hc with hc | ⟨w, hw, hc⟩
  · exact Or.inl (List.mem_singleton.mp hc)
  · obtain ⟨w', hw', rfl⟩ := List.mem_map.mp hw
    exact Or.inr ⟨w', hw', List.mem_map.mp hc⟩

theorem joinWords_joinWords {respell : Char → Char}
    (h : ∀ c, isWordBreak (respell c) = isWordBreak c) (respell' : Char → Char) (name : String) :
    joinWords respell' (joinWords respell name) = joinWords (respell' ∘ respell) name := by
  have hwords : ((·.map respell') ∘ (·.map respell) : List Char → List Char) =
      (·.map (respell' ∘ respell)) := funext fun _ => List.map_map
  rw [joinWords, words_joinWords h, List.map_map, hwords, ← joinWords]

/-! ### Upper and lower case -/

/-- Upper case changes the codes of the small letters, and only those. -/
theorem toNat_toUpper (c : Char) :
    c.toUpper.toNat = if 97 ≤ c.toNat ∧ c.toNat ≤ 122 then c.toNat - 32 else c.toNat := by
  unfold Char.toUpper
  by_cases h : 'a'.val ≤ c.val ∧ c.val ≤ 'z'.val
  · have hlo : 97 ≤ c.toNat := UInt32.le_iff_toNat_le.mp h.1
    have hhi : c.toNat ≤ 122 := UInt32.le_iff_toNat_le.mp h.2
    rw [dif_pos h, if_pos ⟨hlo, hhi⟩]
    show (c.val + ('A'.val - 'a'.val)).toNat = _
    rw [UInt32.toNat_add]
    have hshift : ('A'.val - 'a'.val).toNat = 2 ^ 32 - 32 := by decide
    have hc : c.val.toNat = c.toNat := rfl
    omega
  · have hnot : ¬ (97 ≤ c.toNat ∧ c.toNat ≤ 122) := fun h' =>
      h ⟨UInt32.le_iff_toNat_le.mpr h'.1, UInt32.le_iff_toNat_le.mpr h'.2⟩
    rw [dif_neg h, if_neg hnot]

/-- Lower case changes the codes of the capital letters, and only those. -/
theorem toNat_toLower (c : Char) :
    c.toLower.toNat = if 65 ≤ c.toNat ∧ c.toNat ≤ 90 then c.toNat + 32 else c.toNat := by
  unfold Char.toLower
  by_cases h : 'A'.val ≤ c.val ∧ c.val ≤ 'Z'.val
  · have hlo : 65 ≤ c.toNat := UInt32.le_iff_toNat_le.mp h.1
    have hhi : c.toNat ≤ 90 := UInt32.le_iff_toNat_le.mp h.2
    rw [dif_pos h, if_pos ⟨hlo, hhi⟩]
    show (c.val + ('a'.val - 'A'.val)).toNat = _
    rw [UInt32.toNat_add]
    have hshift : ('a'.val - 'A'.val).toNat = 32 := by decide
    have hc : c.val.toNat = c.toNat := rfl
    omega
  · have hnot : ¬ (65 ≤ c.toNat ∧ c.toNat ≤ 90) := fun h' =>
      h ⟨UInt32.le_iff_toNat_le.mpr h'.1, UInt32.le_iff_toNat_le.mpr h'.2⟩
    rw [dif_neg h, if_neg hnot]

theorem toUpper_toUpper (c : Char) : c.toUpper.toUpper = c.toUpper := by
  rw [← Char.toNat_inj]
  simp only [toNat_toUpper]
  split_ifs <;> omega

theorem toUpper_toLower (c : Char) : c.toLower.toUpper = c.toUpper := by
  rw [← Char.toNat_inj]
  simp only [toNat_toUpper, toNat_toLower]
  split_ifs <;> omega

theorem toLower_toLower (c : Char) : c.toLower.toLower = c.toLower := by
  rw [← Char.toNat_inj]
  simp only [toNat_toLower]
  split_ifs <;> omega

theorem toLower_toUpper (c : Char) : c.toUpper.toLower = c.toLower := by
  rw [← Char.toNat_inj]
  simp only [toNat_toUpper, toNat_toLower]
  split_ifs <;> omega

theorem isWordBreak_iff {c : Char} : isWordBreak c = true ↔ c.toNat = 32 ∨ c.toNat = 95 := by
  rw [isWordBreak, Bool.or_eq_true, beq_iff_eq, beq_iff_eq, ← Char.toNat_inj, ← Char.toNat_inj]
  rfl

theorem isWordBreak_toUpper (c : Char) : isWordBreak c.toUpper = isWordBreak c := by
  rw [Bool.eq_iff_iff, isWordBreak_iff, isWordBreak_iff, toNat_toUpper]
  split <;> omega

theorem isWordBreak_toLower (c : Char) : isWordBreak c.toLower = isWordBreak c := by
  rw [Bool.eq_iff_iff, isWordBreak_iff, isWordBreak_iff, toNat_toLower]
  split <;> omega

/-- A mnemonic is its own mnemonic. -/
theorem mnemonic_mnemonic (name : String) : mnemonic (mnemonic name) = mnemonic name := by
  have htwice : Char.toUpper ∘ Char.toUpper = Char.toUpper := funext toUpper_toUpper
  rw [mnemonic, mnemonic, joinWords_joinWords isWordBreak_toUpper, htwice]

/-- Names in lower case have the same mnemonics. -/
theorem mnemonic_joinWords_toLower (name : String) :
    mnemonic (joinWords Char.toLower name) = mnemonic name := by
  have hlower : Char.toUpper ∘ Char.toLower = Char.toUpper := funext toUpper_toLower
  rw [mnemonic, joinWords_joinWords isWordBreak_toLower, hlower, mnemonic]

end Bytecode
