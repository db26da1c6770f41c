import Bytecode.Proofs.Agreement

/-!
# Which names generated code can use

The names in a front end stand where code needs identifiers: texts of a certain form (`isLexeme`)
other than keywords. Names of a schema are respelled for this, but not always with success.

Respelling leaves out breaks and changes letters to letters. So a spelling begins with a digit where
the first word of a name does, behind underscores, and these names are the only ones whose
spellings have the wrong form (`lexemes_exactly`). Methods have their prefix in front and are always
right.

Of the keywords, those in lower case have no part in variants, which begin in upper case, nor in
methods; and parameters are marked or extended. What is left is the variant `Self`, which is spelled
by the instructions that are called `self` (`no_keyword_but_self`).
-/

namespace Bytecode

namespace FrontEnd

/-! ### First characters -/

/-- The first character of a name that is not a word break. -/
def initial? (name : String) : Option Char := name.toList.find? (!isWordBreak ·)

/-- Whether the first word of a name begins with a digit. -/
def beginsWithDigit (name : String) : Bool := (initial? name).any Char.isDigit

theorem initial?_eq (name : String) : initial? name = (words name.toList).flatten.head? := by
  rw [initial?, flatten_words, List.head?_filter]

theorem isAlphanum_of_initial? {name : String} (h : isIdentifier name) {c : Char}
    (hc : initial? name = some c) : c.isAlphanum = true := by
  rw [initial?_eq] at hc
  obtain ⟨w, hw, hc⟩ := List.mem_flatten.mp (List.mem_of_head? hc)
  exact isAlphanum_of_mem_words h hw hc

/-- A spelling begins with the first character of the first word, respelled. -/
theorem head?_joinWords (respell : Char → Char) (name : String) :
    (joinWords respell name).toList.head? = (initial? name).map respell := by
  rw [joinWords, String.toList_ofList, initial?_eq]
  rcases words_eq_nil_or name.toList with hwords | ⟨c, w, ws, hwords⟩
  · rw [hwords]
    rfl
  · rw [hwords, List.map_cons, intercalate_cons]
    rfl

theorem head?_variantName (name : String) :
    (variantName name).toList.head? = some ((initial? name).elim 'X' Char.toUpper) := by
  rw [variantName, initial?_eq]
  rcases words_eq_nil_or name.toList with hwords | ⟨c, w, ws, hwords⟩
  · rw [hwords]
    rfl
  · rw [hwords, List.flatMap_cons, capitalize, List.cons_append, String.toList_ofList]
    rfl

theorem snakeCase_eq_empty_iff {name : String} : snakeCase name = "" ↔ initial? name = none := by
  rw [← String.toList_eq_nil_iff, ← List.head?_eq_none_iff, snakeCase, head?_joinWords,
    Option.map_eq_none_iff]

/-- The keywords of the language. -/
def keywords : List String := reservedWords ++ pathWords

/-- A parameter is extended, made up, marked as raw, or left as it is. -/
theorem parameterName_cases (name : String) :
    (snakeCase name ∈ pathWords ∧ parameterName name = snakeCase name ++ "_") ∨
    (initial? name = none ∧ parameterName name = "arg") ∨
    (snakeCase name ∈ reservedWords ∧ parameterName name = "r#" ++ snakeCase name) ∨
    (snakeCase name ∉ keywords ∧ initial? name ≠ none ∧ parameterName name = snakeCase name) := by
  unfold parameterName
  dsimp only
  split_ifs with hpath hempty hreserved
  · exact Or.inl ⟨hpath, rfl⟩
  · rw [String.isEmpty_iff, snakeCase_eq_empty_iff] at hempty
    exact Or.inr (Or.inl ⟨hempty, rfl⟩)
  · exact Or.inr (Or.inr (Or.inl ⟨hreserved, rfl⟩))
  · rw [String.isEmpty_iff, snakeCase_eq_empty_iff] at hempty
    refine Or.inr (Or.inr (Or.inr ⟨fun hmem => ?_, hempty, rfl⟩))
    exact (List.mem_append.mp hmem).elim hreserved hpath

/-! ### The form of identifiers -/

/-- Whether a text has the form of an identifier: it starts with a letter or an underscore, goes on
with letters, digits and underscores, and is more than an underscore. -/
def isLexeme (text : String) : Bool :=
  match text.toList with
  | [] => false
  | c :: cs => isNameStart c && cs.all isWordChar && text != "_"

/-- A text with the form of an identifier, which may be marked as raw. -/
def IsParameter (text : String) : Prop :=
  ∃ word, isLexeme word ∧ (text = word ∨ text = "r#" ++ word)

section

variable {text name : String} {c : Char}

theorem isNameStart_iff (hc : c.isAlphanum = true) : isNameStart c = true ↔ c.isDigit = false := by
  have hletter : IsNameLetter c := isNameLetter_iff.mpr (isWordChar_iff.mpr (Or.inl hc))
  rw [isNameStart_iff_isNameLetter, and_iff_right hletter, range_isDigit_iff, Bool.not_eq_true]

theorem isDigit_toUpper (c : Char) : c.toUpper.isDigit = c.isDigit := by
  rw [Bool.eq_iff_iff, isDigit_iff, isDigit_iff, toNat_toUpper]
  split <;> omega

theorem isDigit_toLower (c : Char) : c.toLower.isDigit = c.isDigit := by
  rw [Bool.eq_iff_iff, isDigit_iff, isDigit_iff, toNat_toLower]
  split <;> omega

/-- Where the characters are right, only a digit in front keeps a text from being an identifier. -/
theorem isLexeme_iff (htext : ∀ c ∈ text.toList, isWordChar c = true)
    (hhead : text.toList.head? = some c) (hc : c.isAlphanum = true) :
    isLexeme text = true ↔ c.isDigit = false := by
  obtain ⟨cs, hcs⟩ := List.head?_eq_some_iff.mp hhead
  have hne : text ≠ "_" := by
    rintro rfl
    obtain rfl : '_' = c := Option.some.inj hhead
    exact absurd hc (by decide)
  have hrest : cs.all isWordChar = true := by
    rw [List.all_eq_true]
    exact fun d hd => htext d (hcs ▸ List.mem_cons_of_mem c hd)
  simp only [isLexeme, hcs, hrest, hne, bne_iff_ne, Bool.and_eq_true, ne_eq, not_false_eq_true,
    and_true]
  exact isNameStart_iff hc

theorem isLexeme_methodName (h : isIdentifier name) : isLexeme (methodName name) = true := by
  have hhead : (methodName name).toList.head? = some 'e' := by
    rw [methodName, String.toList_append]
    rfl
  exact (isLexeme_iff (fun _ => isWordChar_of_mem_methodName h) hhead (by decide)).mpr (by decide)

theorem isLexeme_variantName_iff (h : isIdentifier name) :
    isLexeme (variantName name) = true ↔ beginsWithDigit name = false := by
  have hchars : ∀ c ∈ (variantName name).toList, isWordChar c = true := fun c hc =>
    isWordChar_iff.mpr (Or.inl (isAlphanum_of_mem_variantName h hc))
  have hhead := head?_variantName name
  rw [beginsWithDigit]
  cases hinitial : initial? name with
  | none =>
    rw [hinitial] at hhead
    exact iff_of_true ((isLexeme_iff hchars hhead (by decide)).mpr (by decide)) rfl
  | some c =>
    rw [hinitial] at hhead
    rw [isLexeme_iff hchars hhead (isAlphanum_toUpper (isAlphanum_of_initial? h hinitial)),
      Option.elim_some, isDigit_toUpper, Option.any_some]

theorem isLexeme_snakeCase_iff (h : isIdentifier name) (hne : initial? name ≠ none) :
    isLexeme (snakeCase name) = true ↔ beginsWithDigit name = false := by
  obtain ⟨c, hinitial⟩ := Option.ne_none_iff_exists'.mp hne
  have hhead : (snakeCase name).toList.head? = some c.toLower := by
    rw [snakeCase, head?_joinWords, hinitial, Option.map_some]
  rw [isLexeme_iff (fun _ => isWordChar_of_mem_snakeCase h) hhead
    (isAlphanum_toLower (isAlphanum_of_initial? h hinitial)), isDigit_toLower, beginsWithDigit,
    hinitial, Option.any_some]

theorem notMem_snakeCase (h : isIdentifier name) : '#' ∉ (snakeCase name).toList :=
  notMem_of_forall (fun _ => isWordChar_of_mem_snakeCase h) (by decide)

theorem isParameter_parameterName_iff (h : isIdentifier name) :
    IsParameter (parameterName name) ↔ beginsWithDigit name = false := by
  have hwords : ∀ word ∈ keywords, isLexeme word = true := by decide +kernel
  have hpaths : ∀ word ∈ pathWords, isLexeme (word ++ "_") = true := by decide +kernel
  -- a name whose spelling is known to be an identifier
  have hdigit (hmem : snakeCase name ∈ keywords) : beginsWithDigit name = false := by
    refine (isLexeme_snakeCase_iff h fun hnone => ?_).mp (hwords _ hmem)
    rw [snakeCase_eq_empty_iff.mpr hnone] at hmem
    exact absurd hmem (by decide +kernel)
  rcases parameterName_cases name with
    ⟨hpath, heq⟩ | ⟨hnone, heq⟩ | ⟨hreserved, heq⟩ | ⟨-, hne, heq⟩
  · exact iff_of_true ⟨_, hpaths _ hpath, Or.inl heq⟩ (hdigit (List.mem_append_right _ hpath))
  · rw [beginsWithDigit, hnone]
    exact iff_of_true ⟨"arg", by decide, Or.inl heq⟩ rfl
  · have hmem : snakeCase name ∈ keywords := List.mem_append_left _ hreserved
    exact iff_of_true ⟨_, hwords _ hmem, Or.inr heq⟩ (hdigit hmem)
  · rw [heq, ← isLexeme_snakeCase_iff h hne]
    constructor
    · rintro ⟨word, hword, rfl | hraw⟩
      · exact hword
      · refine absurd ?_ (notMem_snakeCase h)
        rw [hraw, String.toList_append]
        exact List.mem_append_left _ (by decide)
    · exact fun hlexeme => ⟨_, hlexeme, Or.inl rfl⟩

end

/-- All names of an entry have the form of identifiers. -/
structure Entry.Lexical (e : Entry) : Prop where
  variant : isLexeme e.variant = true
  method : isLexeme e.method = true
  parameters : ∀ p ∈ e.parameters, IsParameter p.1

theorem Entry.lexical_ofInstruction_iff {f : Format} (hf : f.Identified) {i : Instruction}
    (hi : i ∈ f.instructions) : (Entry.ofInstruction i).Lexical ↔
      beginsWithDigit i.name = false ∧ ∀ arg ∈ i.args, beginsWithDigit arg.name = false := by
  have hname := hf.instructions i hi
  have hargs {arg : Field} (harg : arg ∈ i.args) :=
    isParameter_parameterName_iff (hf.args i hi arg harg)
  constructor
  · intro h
    refine ⟨(isLexeme_variantName_iff hname).mp h.variant, fun arg harg => ?_⟩
    exact (hargs harg).mp (h.parameters _ (List.mem_map_of_mem harg))
  · rintro ⟨hvariant, hparameters⟩
    refine ⟨(isLexeme_variantName_iff hname).mpr hvariant, isLexeme_methodName hname, ?_⟩
    intro p hp
    obtain ⟨arg, harg, rfl⟩ := List.mem_map.mp hp
    exact (hargs harg).mpr (hparameters arg harg)

/-! ### Keywords -/

/-- All keywords are made of letters. -/
theorem notMem_of_mem_keywords {word : String} (h : word ∈ keywords) {c : Char}
    (hc : c.isAlpha = false) : c ∉ word.toList := by
  have hletters : ∀ word ∈ keywords, word.toList.all Char.isAlpha = true := by decide +kernel
  exact notMem_of_forall (List.all_eq_true.mp (hletters word h)) hc

theorem methodName_notMem_keywords (name : String) : methodName name ∉ keywords := by
  intro h
  refine notMem_of_mem_keywords h (c := '_') (by decide) ?_
  rw [methodName, String.toList_append]
  exact List.mem_append_left _ (by decide)

theorem parameterName_notMem_keywords (name : String) : parameterName name ∉ keywords := by
  intro h
  rcases parameterName_cases name with ⟨-, heq⟩ | ⟨-, heq⟩ | ⟨-, heq⟩ | ⟨hplain, -, heq⟩
  · refine notMem_of_mem_keywords h (c := '_') (by decide) ?_
    rw [heq, String.toList_append]
    exact List.mem_append_right _ (by decide)
  · rw [heq] at h
    exact absurd h (by decide +kernel)
  · refine notMem_of_mem_keywords h (c := '#') (by decide) ?_
    rw [heq, String.toList_append]
    exact List.mem_append_left _ (by decide)
  · exact hplain (heq ▸ h)

/-- What is marked as raw is a keyword that can be raw. -/
theorem mem_reservedWords_of_parameterName {name : String} (h : isIdentifier name) {word : String}
    (hraw : parameterName name = "r#" ++ word) : word ∈ reservedWords := by
  have hmark : '#' ∈ (parameterName name).toList := by
    rw [hraw, String.toList_append]
    exact List.mem_append_left _ (by decide)
  rcases parameterName_cases name with ⟨-, heq⟩ | ⟨-, heq⟩ | ⟨hreserved, heq⟩ | ⟨-, -, heq⟩
  · rw [heq, String.toList_append, List.mem_append] at hmark
    exact hmark.elim (absurd · (notMem_snakeCase h)) (absurd · (by decide))
  · rw [heq] at hmark
    exact absurd hmark (by decide)
  · rw [heq, String.append_right_inj] at hraw
    exact hraw ▸ hreserved
  · rw [heq] at hmark
    exact absurd hmark (notMem_snakeCase h)

/-! ### Variants -/

theorem toLower_comp_toLower : Char.toLower ∘ Char.toLower = Char.toLower := funext toLower_toLower

theorem capitalize_map_toLower (w : List Char) :
    capitalize (w.map Char.toLower) = capitalize w := by
  cases w with
  | nil => rfl
  | cons c w =>
    rw [List.map_cons, capitalize, capitalize, toUpper_toLower, List.map_map, toLower_comp_toLower]

/-- Variants do not depend on case. -/
theorem variantName_snakeCase (name : String) :
    variantName (snakeCase name) = variantName name := by
  have hwords : (words (snakeCase name).toList).flatMap capitalize =
      (words name.toList).flatMap capitalize := by
    rw [snakeCase, words_joinWords isWordBreak_toLower, List.flatMap_map]
    simp only [capitalize_map_toLower]
  rw [variantName, hwords, variantName]

theorem map_toLower_capitalize (w : List Char) :
    (capitalize w).map Char.toLower = w.map Char.toLower := by
  cases w with
  | nil => rfl
  | cons c w =>
    rw [capitalize, List.map_cons, List.map_cons, toLower_toUpper, List.map_map,
      toLower_comp_toLower]

/-- Each word begins in a variant with a character that is not in lower case. -/
theorem exists_mem_flatMap_capitalize {ws : List (List Char)} (h : ∀ w ∈ ws, IsWord w)
    (hne : ws ≠ []) : ∃ c ∈ ws.flatMap capitalize, c.isLower = false := by
  obtain ⟨w, ws, rfl⟩ := List.exists_cons_of_ne_nil hne
  obtain ⟨c, cs, rfl⟩ := List.exists_cons_of_ne_nil (h _ List.mem_cons_self).ne_nil
  exact ⟨c.toUpper, List.mem_append_left _ List.mem_cons_self, isLower_toUpper c⟩

/-- A variant that goes on in lower case is spelled by one word. -/
theorem toList_snakeCase_of_variantName {name : String} (hne : initial? name ≠ none)
    (h : ∀ c ∈ (variantName name).toList.tail, c.isLower = true) :
    (snakeCase name).toList = (variantName name).toList.map Char.toLower := by
  rcases words_eq_nil_or name.toList with hnil | ⟨c, w, ws, hws⟩
  · exact absurd (by rw [initial?_eq, hnil]; rfl) hne
  have hothers : ∀ w' ∈ ws, IsWord w' := fun _ hw' =>
    isWord_of_mem_words (hws ▸ List.mem_cons_of_mem _ hw')
  have hvariant : (variantName name).toList = capitalize (c :: w) ++ ws.flatMap capitalize := by
    rw [variantName, hws, List.flatMap_cons, capitalize, List.cons_append, String.toList_ofList]
  -- another word would go on in upper case
  obtain rfl : ws = [] := by
    by_contra hmore
    obtain ⟨d, hd, hlower⟩ := exists_mem_flatMap_capitalize hothers hmore
    rw [hvariant, capitalize, List.cons_append, List.tail_cons] at h
    rw [h d (List.mem_append_right _ hd)] at hlower
    cases hlower
  rw [hvariant, List.flatMap_nil, List.append_nil, map_toLower_capitalize, snakeCase, joinWords,
    hws, String.toList_ofList, List.map_singleton, List.intercalate_singleton]

/-- The only keyword among variants is `Self`, since all others begin in lower case. -/
theorem eq_self_of_variantName {name : String} (h : variantName name ∈ keywords) :
    variantName name = "Self" := by
  have hlower : ∀ word ∈ keywords, word = "Self" ∨ word.toList.head?.all Char.isLower = true := by
    decide +kernel
  have hupper : ((initial? name).elim 'X' Char.toUpper).isLower = false := by
    cases initial? name with
    | none => decide
    | some c => exact isLower_toUpper c
  rcases hlower _ h with hself | hlower
  · exact hself
  · rw [head?_variantName, Option.all_some, hupper] at hlower
    cases hlower

theorem variantName_mem_keywords_iff {name : String} :
    variantName name ∈ keywords ↔ snakeCase name = "self" := by
  constructor
  · intro h
    have hself := eq_self_of_variantName h
    have hne : initial? name ≠ none := by
      intro hnone
      have hhead := head?_variantName name
      rw [hself, hnone] at hhead
      exact absurd hhead (by decide)
    have hsnake := toList_snakeCase_of_variantName hne (List.all_eq_true.mp (by rw [hself]; decide))
    rw [hself] at hsnake
    exact String.toList_inj.mp (hsnake.trans (by decide))
  · intro h
    rw [← variantName_snakeCase, h]
    decide +kernel

end FrontEnd

open FrontEnd

/-! ### Front ends of formats -/

/-- The entries of a front end are those of the instructions. -/
theorem forall_mem_entries_iff {f : Format} {source : String} {fe : FrontEnd}
    (h : ofFormat f source = .ok fe) {p : Entry → Prop} :
    (∀ e ∈ fe.entries, p e) ↔ ∀ i ∈ f.instructions, p (Entry.ofInstruction i) := by
  obtain ⟨-, rfl⟩ := ofFormat_eq_ok_iff.mp h
  rw [List.forall_mem_map]
  exact forall_congr' fun i => by rw [f.perm_ordered.mem_iff]

/-- **Only a digit in front keeps a name from being an identifier.** Methods are always named as
identifiers are; variants and parameters are iff the first word of their name does not begin with a
digit. So all names in a front end have the form of identifiers iff no instruction and no argument
of the format has a name that begins with such a word. -/
theorem lexemes_exactly {name : String} (h : isIdentifier name) :
    isLexeme (methodName name) ∧
    (isLexeme (variantName name) ↔ beginsWithDigit name = false) ∧
    (IsParameter (parameterName name) ↔ beginsWithDigit name = false) ∧
    ∀ (schema : Schema) (f : Format) (source text : String), schema.load = .ok f →
      sourceText f source = .ok text → ∃ fe, ofFormat f source = .ok fe ∧ fe.text = text ∧
        (∀ e ∈ fe.entries, isLexeme e.method) ∧
        ((∀ e ∈ fe.entries, e.Lexical) ↔ ∀ i ∈ f.instructions,
          beginsWithDigit i.name = false ∧ ∀ arg ∈ i.args, beginsWithDigit arg.name = false) := by
  refine ⟨isLexeme_methodName h, isLexeme_variantName_iff h, isParameter_parameterName_iff h, ?_⟩
  intro schema f source text hload htext
  have hf := Schema.identified_of_load hload
  obtain ⟨fe, hfe, hfetext⟩ := except_map_eq_ok_iff.mp htext
  refine ⟨fe, hfe, hfetext, ?_⟩
  rw [forall_mem_entries_iff hfe, forall_mem_entries_iff hfe]
  exact ⟨fun i hi => isLexeme_methodName (hf.instructions i hi),
    forall₂_congr fun i hi => Entry.lexical_ofInstruction_iff hf hi⟩

/-- A format with one instruction and one argument, as declared, which have the same name. -/
def sampleNamed (name : String) : Schema :=
  { header := []
    counters := []
    chunks := []
    commonArgs := []
    instructions := [⟨name, none, none, [⟨name, .u32⟩]⟩] }

/-- The format of `sampleNamed`. -/
def sampleNamedFormat (name : String) : Format :=
  { header := []
    counters := []
    chunks := []
    instructions := [⟨name, mnemonic name, 0, [⟨name, .u32⟩], none⟩] }

/-- The entry of the instruction in `sampleNamedFormat`. -/
def sampleEntry (name : String) : Entry :=
  .ofInstruction ⟨name, mnemonic name, 0, [⟨name, .u32⟩], none⟩

theorem ofFormat_sampleNamedFormat (name source : String) :
    ofFormat (sampleNamedFormat name) source =
      .ok ⟨source, (sampleNamedFormat name).title, 1, [sampleEntry name]⟩ := by
  have hclash : clash? [sampleEntry name] = none :=
    clash?_eq_none_iff.mpr (by simp [sampleEntry, Entry.ofInstruction])
  have hordered : (sampleNamedFormat name).ordered = (sampleNamedFormat name).instructions :=
    List.mergeSort_singleton _
  refine ofFormat_eq_ok_iff.mpr ⟨hclash, ?_⟩
  rw [hordered]
  rfl

theorem sourceText_sampleNamedFormat (name source : String) :
    ∃ text, sourceText (sampleNamedFormat name) source = .ok text :=
  ⟨_, except_map_eq_ok_iff.mpr ⟨_, ofFormat_sampleNamedFormat name source, rfl⟩⟩

/-- Digits that are not in front do no harm. -/
theorem lexemes_exactly_of_sample :
    isLexeme (variantName "_halt 2_3") ∧ (sampleEntry "_halt 2_3").Lexical := by
  have hname : isIdentifier "_halt 2_3" := by decide +kernel
  have hdigit : beginsWithDigit "_halt 2_3" = false := by decide +kernel
  have hload : (sampleNamed "_halt 2_3").load = .ok (sampleNamedFormat "_halt 2_3") := by
    decide +kernel
  obtain ⟨text, htext⟩ := sourceText_sampleNamedFormat "_halt 2_3" "halt.json"
  obtain ⟨-, hvariant, -, hformats⟩ := lexemes_exactly hname
  obtain ⟨fe, hfe, -, -, hlexical⟩ := hformats _ _ _ text hload htext
  obtain rfl := Except.ok.inj ((ofFormat_sampleNamedFormat _ _).symm.trans hfe)
  refine ⟨hvariant.mpr hdigit, hlexical.mpr ?_ _ List.mem_cons_self⟩
  exact List.forall_mem_singleton.mpr ⟨hdigit, List.forall_mem_singleton.mpr hdigit⟩

/-- Underscores in front of a digit leave the digit in front. -/
theorem underscore_digit_is_no_lexeme : isIdentifier "_1" ∧ ¬ isLexeme (variantName "_1") ∧
    ¬ IsParameter (parameterName "_1") ∧ (sampleNamed "_1").load = .ok (sampleNamedFormat "_1") ∧
    ∃ text, sourceText (sampleNamedFormat "_1") "one.json" = .ok text := by
  have hname : isIdentifier "_1" := by decide +kernel
  refine ⟨hname, by decide +kernel, ?_, by decide +kernel, sourceText_sampleNamedFormat _ _⟩
  rw [isParameter_parameterName_iff hname]
  decide +kernel

/-- **The only keyword that is used as a plain identifier is `Self`.** It is the variant of the
instructions that are spelled `self`. No other variant, no method and no parameter is a keyword, and
a parameter is marked as raw only if it is a keyword that can be raw. -/
theorem no_keyword_but_self {schema : Schema} {f : Format} {source text : String}
    (hload : schema.load = .ok f) (htext : sourceText f source = .ok text) :
    ∃ fe, ofFormat f source = .ok fe ∧ fe.text = text ∧ ∀ e ∈ fe.entries,
      e.method ∉ keywords ∧ (e.variant ∈ keywords ↔ snakeCase e.name = "self") ∧
      (e.variant ∈ keywords → e.variant = "Self") ∧
      ∀ p ∈ e.parameters, p.1 ∉ keywords ∧
        ∀ word, p.1 = "r#" ++ word → word ∈ reservedWords ∧ word ∉ pathWords ∧ word ≠ "_" := by
  have hf := Schema.identified_of_load hload
  have hraw : ∀ word ∈ reservedWords, word ∉ pathWords ∧ word ≠ "_" := by decide +kernel
  obtain ⟨fe, hfe, hfetext⟩ := except_map_eq_ok_iff.mp htext
  refine ⟨fe, hfe, hfetext, (forall_mem_entries_iff hfe).mpr fun i hi => ?_⟩
  refine ⟨methodName_notMem_keywords i.name, variantName_mem_keywords_iff, eq_self_of_variantName,
    fun p hp => ?_⟩
  obtain ⟨arg, harg, rfl⟩ := List.mem_map.mp hp
  refine ⟨parameterName_notMem_keywords arg.name, fun word hword => ?_⟩
  have hmem := mem_reservedWords_of_parameterName (hf.args i hi arg harg) hword
  exact ⟨hmem, hraw word hmem⟩

/-- A keyword is a parameter in raw form, and in no other. -/
theorem no_keyword_but_self_of_sample :
    (sampleEntry "type").parameters.map (·.1) = ["r#type"] ∧ "type" ∈ keywords ∧
      (sampleEntry "type").variant ∉ keywords := by
  have hload : (sampleNamed "type").load = .ok (sampleNamedFormat "type") := by decide +kernel
  obtain ⟨text, htext⟩ := sourceText_sampleNamedFormat "type" "type.json"
  obtain ⟨fe, hfe, -, hentries⟩ := no_keyword_but_self hload htext
  obtain rfl := Except.ok.inj ((ofFormat_sampleNamedFormat _ _).symm.trans hfe)
  obtain ⟨-, hvariant, -⟩ := hentries _ List.mem_cons_self
  exact ⟨by decide +kernel, by decide +kernel, fun h => absurd (hvariant.mp h) (by decide +kernel)⟩

/-- An instruction may be called `self`, and then its variant is a keyword. -/
theorem self_is_keyword_variant : (sampleNamed "self").load = .ok (sampleNamedFormat "self") ∧
    ofFormat (sampleNamedFormat "self") "self.json" =
      .ok ⟨"self.json", (sampleNamedFormat "self").title, 1, [sampleEntry "self"]⟩ ∧
    (sampleEntry "self").variant = "Self" ∧ "Self" ∈ keywords :=
  ⟨by decide +kernel, ofFormat_sampleNamedFormat _ _, by decide +kernel, by decide +kernel⟩

end Bytecode
