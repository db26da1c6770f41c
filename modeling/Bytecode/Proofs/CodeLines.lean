import Bytecode.FrontEnd.Outline
import Bytecode.Proofs.Legibility
import Bytecode.Proofs.Spelling

/-!
# The code in the text of a front end

`codeLines_text` lists the lines of code in the text of a front end, free of comments and of blank
lines. The text is made of lines, and apart from what comes out of a title, a source or a
description they have no line break inside, so that they are read as they were written. What does
come out of these stands in comments: a title and a source with no line feed do not leave theirs
(`yields_comment`), and the lines of a description have a comment each (`yields_commentLines`).
-/

namespace Bytecode

namespace FrontEnd

/-! ### Reading lines -/

/-- A line without the carriage return at its end. -/
def chomp : List Char → List Char
  | [] => []
  | ['\r'] => []
  | c :: cs => c :: chomp cs

theorem textLines_append_lineFeed {line : List Char} (h : '\n' ∉ line) (rest : List Char) :
    textLines (line ++ '\n' :: rest) = chomp line :: textLines rest := by
  fun_induction chomp line with
  | case1 => rw [List.nil_append, textLines]
  | case2 => rw [List.singleton_append, textLines]
  | case3 c cs hreturn ih =>
    rw [List.mem_cons, not_or] at h
    obtain ⟨hc, hcs⟩ := h
    rw [List.cons_append, textLines, ih hcs, pushFront]
    · exact fun heq => hc heq.symm
    · -- a carriage return does not stand before the line feed
      rintro rest' rfl heq
      cases cs with
      | nil => exact hreturn rfl rfl
      | cons d cs => exact hcs ((List.cons.inj heq).1 ▸ List.mem_cons_self)

theorem toList_unlines (lines : List String) :
    (unlines lines).toList = lines.flatMap fun line => line.toList ++ ['\n'] := by
  simp [unlines, String.toList_join, List.flatMap_map]

theorem textLines_unlines {lines : List String} (h : ∀ line ∈ lines, '\n' ∉ line.toList) :
    textLines (unlines lines).toList = lines.map fun line => chomp line.toList := by
  rw [toList_unlines]
  induction lines with
  | nil => rfl
  | cons line lines ih =>
    obtain ⟨hline, hlines⟩ := List.forall_mem_cons.mp h
    rw [List.flatMap_cons, List.append_assoc, List.singleton_append,
      textLines_append_lineFeed hline, ih hlines, List.map_cons]

theorem lineFeed_notMem_of_mem_textLines {cs line : List Char} (h : line ∈ textLines cs) :
    '\n' ∉ line := by
  induction cs using textLines.induct generalizing line with
  | case1 => cases h
  | case2 cs ih =>
    rw [textLines] at h
    rcases List.mem_cons.mp h with rfl | h
    · exact List.not_mem_nil
    · exact ih h
  | case3 cs ih =>
    rw [textLines] at h
    rcases List.mem_cons.mp h with rfl | h
    · exact List.not_mem_nil
    · exact ih h
  | case4 c cs hfeed hreturn ih =>
    rw [textLines] at h
    case x_1 => exact hfeed
    case x_2 => exact hreturn
    cases hlines : textLines cs with
    | nil =>
      rw [hlines, pushFront, List.mem_singleton] at h
      subst h
      exact fun hmem => hfeed (List.mem_singleton.mp hmem).symm
    | cons first lines =>
      rw [hlines, pushFront] at h
      rw [hlines] at ih
      rcases List.mem_cons.mp h with rfl | h
      · rw [List.mem_cons, not_or]
        exact ⟨fun heq => hfeed heq.symm, ih List.mem_cons_self⟩
      · exact ih (List.mem_cons_of_mem _ h)

theorem chomp_of_notMem {line : List Char} (h : '\r' ∉ line) : chomp line = line := by
  fun_induction chomp line with
  | case1 => rfl
  | case2 => exact absurd List.mem_cons_self h
  | case3 c cs _ ih => rw [ih fun hmem => h (List.mem_cons_of_mem c hmem)]

theorem chomp_cons {c : Char} (hc : c ≠ '\r') (cs : List Char) : chomp (c :: cs) = c :: chomp cs := by
  rw [chomp]
  exact fun heq _ => hc heq

theorem chomp_replicate_append (depth : ℕ) (cs : List Char) :
    chomp (List.replicate depth ' ' ++ cs) = List.replicate depth ' ' ++ chomp cs := by
  induction depth with
  | zero => rfl
  | succ depth ih =>
    rw [List.replicate_succ, List.cons_append, chomp_cons (by decide), ih, List.cons_append]

/-! ### Lines and their code -/

/-- The code in a line, if there is some. -/
def code? (line : String) : Option String :=
  if isCode (chomp line.toList) then some (String.ofList (chomp line.toList)) else none

/-- Lines have no line feed inside, and the lines of code among them are those given. -/
def Yields (lines code : List String) : Prop :=
  (∀ line ∈ lines, '\n' ∉ line.toList) ∧ lines.filterMap code? = code

instance (lines code : List String) : Decidable (Yields lines code) :=
  inferInstanceAs (Decidable (_ ∧ _))

section

variable {lines lines' code code' : List String} {line : String} {depth : ℕ}

/-- A text made of lines has the lines of code that these have. -/
theorem Yields.codeLines_unlines (h : Yields lines code) : codeLines (unlines lines) = code := by
  rw [codeLines, textLines_unlines h.1, ← h.2, List.filter_map, List.map_map,
    ← List.filterMap_eq_filter, ← List.filterMap_eq_map, List.filterMap_filterMap]
  apply List.filterMap_congr
  intro line _
  by_cases hcode : isCode (chomp line.toList) <;> simp [code?, hcode]

theorem Yields.append (h : Yields lines code) (h' : Yields lines' code') :
    Yields (lines ++ lines') (code ++ code') := by
  refine ⟨List.forall_mem_append.mpr ⟨h.1, h'.1⟩, ?_⟩
  rw [List.filterMap_append, h.2, h'.2]

theorem Yields.flatMap {α : Type} {items : List α} {lines code : α → List String}
    (h : ∀ item ∈ items, Yields (lines item) (code item)) :
    Yields (items.flatMap lines) (items.flatMap code) := by
  induction items with
  | nil => exact ⟨List.forall_mem_nil _, rfl⟩
  | cons item items ih =>
    obtain ⟨hitem, hitems⟩ := List.forall_mem_cons.mp h
    rw [List.flatMap_cons, List.flatMap_cons]
    exact hitem.append (ih hitems)

/-- Blank lines between blocks are no code. -/
theorem Yields.intercalate {blocks : List (List String)} (h : ∀ block ∈ blocks, Yields block block) :
    Yields ([""].intercalate blocks) blocks.flatten := by
  have hblank : Yields [""] [] := by decide
  induction blocks with
  | nil => exact ⟨List.forall_mem_nil _, rfl⟩
  | cons block blocks ih =>
    obtain ⟨hblock, hblocks⟩ := List.forall_mem_cons.mp h
    cases blocks with
    | nil =>
      rw [List.intercalate_singleton, List.flatten_singleton]
      exact hblock
    | cons block' blocks =>
      have hall := (hblock.append hblank).append (ih hblocks)
      rw [List.append_nil] at hall
      rw [List.intercalate_cons_cons, List.flatten_cons]
      exact hall

/-! ### Comments -/

theorem notMem_toList_append {c : Char} {text text' : String} (h : c ∉ text.toList)
    (h' : c ∉ text'.toList) : c ∉ (text ++ text').toList := by
  rw [String.toList_append, List.mem_append, not_or]
  exact ⟨h, h'⟩

theorem isCode_replicate_append (depth : ℕ) (cs : List Char) :
    isCode (List.replicate depth ' ' ++ cs) = isCode cs := by
  have hspace : ∀ c ∈ List.replicate depth ' ', (c == ' ') = true := fun c hc =>
    beq_iff_eq.mpr (List.eq_of_mem_replicate hc)
  rw [isCode, isCode, List.dropWhile_append_of_pos hspace]

/-- A comment on one line is no code, whatever it says. -/
theorem yields_comment {behind : List Char}
    (h : line.toList = List.replicate depth ' ' ++ '/' :: '/' :: behind) (hfeed : '\n' ∉ line.toList) :
    Yields [line] [] := by
  refine ⟨List.forall_mem_singleton.mpr hfeed, ?_⟩
  have hcode : isCode (chomp line.toList) = false := by
    rw [h, chomp_replicate_append, chomp_cons (by decide), chomp_cons (by decide),
      isCode_replicate_append]
    rfl
  rw [List.filterMap_cons_none (by rw [code?, hcode]; rfl), List.filterMap_nil]

/-- A comment that mentions a text is no code if it stays on one line. -/
theorem yields_mention {opening text closing : String} {behind : List Char}
    (hopening : opening.toList = List.replicate depth ' ' ++ '/' :: '/' :: behind)
    (hfeed : '\n' ∉ opening.toList) (htext : '\n' ∉ text.toList) (hclosing : '\n' ∉ closing.toList) :
    Yields [opening ++ text ++ closing] [] := by
  have hstart : (opening ++ text ++ closing).toList =
      List.replicate depth ' ' ++ '/' :: '/' :: (behind ++ (text.toList ++ closing.toList)) := by
    rw [String.toList_append, String.toList_append, hopening, List.append_assoc, List.append_assoc]
    rfl
  exact yields_comment hstart (notMem_toList_append (notMem_toList_append hfeed htext) hclosing)

/-- A line of a documentation comment starts with the indentation and the mark of the comment, and
nothing in a description ends it early. -/
theorem exists_of_mem_commentLines {indent text : String} (h : line ∈ commentLines indent text) :
    ∃ rest, line = indent ++ "///" ++ rest ∧ '\n' ∉ rest.toList := by
  obtain ⟨cs, hcs, rfl⟩ := List.mem_map.mp h
  have hfeed := lineFeed_notMem_of_mem_textLines hcs
  split
  · exact ⟨"", by rw [String.append_empty], List.not_mem_nil⟩
  · have hmark : "/// " = "///" ++ " " := by decide
    exact ⟨" " ++ String.ofList cs, by simp only [hmark, String.append_assoc],
      notMem_toList_append (by decide) (by simpa using hfeed)⟩

/-- The lines of a documentation comment are no code, whatever they say. -/
theorem yields_commentLines {indent : String} (hindent : indent.toList = List.replicate depth ' ')
    (text : String) : Yields (commentLines indent text) [] := by
  have hspaces : '\n' ∉ indent.toList := fun hmem =>
    absurd (List.eq_of_mem_replicate (hindent ▸ hmem)) (by decide)
  have hline : ∀ line ∈ commentLines indent text, Yields [line] [] := by
    intro line hline
    obtain ⟨rest, rfl, hfeed⟩ := exists_of_mem_commentLines hline
    have hstart : (indent ++ "///" ++ rest).toList =
        List.replicate depth ' ' ++ '/' :: '/' :: '/' :: rest.toList := by
      simp [hindent]
    exact yields_comment hstart
      (notMem_toList_append (notMem_toList_append hspaces (by decide)) hfeed)
  have hall := Yields.flatMap hline
  rwa [List.flatMap_singleton', List.flatMap_eq_nil_iff.mpr fun _ _ => rfl] at hall

/-! ### Code -/

/-- A text without line breaks. -/
def Unbroken (text : String) : Prop := ∀ c ∈ text.toList, c ≠ '\n' ∧ c ≠ '\r'

instance (text : String) : Decidable (Unbroken text) := List.decidableBAll _ _

theorem Unbroken.append {text text' : String} (h : Unbroken text) (h' : Unbroken text') :
    Unbroken (text ++ text') := by
  intro c hc
  rw [String.toList_append, List.mem_append] at hc
  exact hc.elim (h c) (h' c)

theorem Unbroken.join {texts : List String} (h : ∀ text ∈ texts, Unbroken text) :
    Unbroken (String.join texts) := by
  intro c hc
  rw [String.toList_join] at hc
  obtain ⟨text, htext, hc⟩ := List.mem_flatMap.mp hc
  exact h text htext c hc

theorem Unbroken.intercalate {sep : String} {texts : List String} (hsep : Unbroken sep)
    (h : ∀ text ∈ texts, Unbroken text) : Unbroken (sep.intercalate texts) := by
  intro c hc
  rw [String.toList_intercalate] at hc
  rcases mem_of_mem_intercalate hc with hc | ⟨cs, hcs, hc⟩
  · exact hsep c hc
  · obtain ⟨text, htext, rfl⟩ := List.mem_map.mp hcs
    exact h text htext c hc

/-- A class of characters without line breaks makes texts without line breaks. -/
theorem unbroken_of_forall {p : Char → Bool} {text : String} (h : ∀ c ∈ text.toList, p c = true)
    (hfeed : p '\n' = false) (hreturn : p '\r' = false) : Unbroken text := fun _ hc =>
  ⟨ne_of_mem_of_not_mem hc (notMem_of_forall h hfeed),
    ne_of_mem_of_not_mem hc (notMem_of_forall h hreturn)⟩

theorem unbroken_of_isWordChar {text : String} (h : ∀ c ∈ text.toList, isWordChar c = true) :
    Unbroken text :=
  unbroken_of_forall h (by decide) (by decide)

theorem unbroken_toString (n : ℕ) : Unbroken (toString n) :=
  unbroken_of_forall (fun _ => isDigit_of_mem_repr) (by decide) (by decide)

/-- A line without breaks, with an indentation of a given depth and something behind that does not
begin like a comment. -/
structure IsCodeLine (depth : ℕ) (line : String) : Prop where
  unbroken : Unbroken line
  exists_start : ∃ c behind, line.toList = List.replicate depth ' ' ++ c :: behind ∧ c ≠ ' ' ∧ c ≠ '/'

theorem IsCodeLine.append {text : String} (h : IsCodeLine depth line) (htext : Unbroken text) :
    IsCodeLine depth (line ++ text) := by
  obtain ⟨c, behind, hline, hc⟩ := h.exists_start
  refine ⟨h.unbroken.append htext, c, behind ++ text.toList, ?_, hc⟩
  rw [String.toList_append, hline, List.append_assoc, List.cons_append]

theorem isCodeLine_append {indent text : String} (hindent : indent.toList = List.replicate depth ' ')
    (htext : Unbroken text) (hstart : ∃ c cs, text.toList = c :: cs ∧ c ≠ ' ' ∧ c ≠ '/') :
    IsCodeLine depth (indent ++ text) := by
  obtain ⟨c, cs, heq, hc⟩ := hstart
  refine ⟨Unbroken.append (fun c hc => ?_) htext, c, cs, ?_, hc⟩
  · rw [hindent] at hc
    rw [List.eq_of_mem_replicate hc]
    decide
  · rw [String.toList_append, hindent, heq]

theorem IsCodeLine.yields (h : IsCodeLine depth line) : Yields [line] [line] := by
  obtain ⟨c, behind, hline, hspace, hslash⟩ := h.exists_start
  have hreturn : '\r' ∉ line.toList := fun hmem => (h.unbroken _ hmem).2 rfl
  have hcode : isCode (chomp line.toList) = true := by
    rw [chomp_of_notMem hreturn, hline, isCode_replicate_append, isCode,
      List.dropWhile_cons_of_neg (by simpa using hspace)]
    split
    · rename_i hnil
      cases hnil
    · rename_i hcomment
      exact absurd (List.cons.inj hcomment).1 hslash
    · rfl
  refine ⟨List.forall_mem_singleton.mpr fun hmem => (h.unbroken _ hmem).1 rfl, ?_⟩
  rw [List.filterMap_cons_some (by rw [code?, if_pos hcode]), List.filterMap_nil,
    chomp_of_notMem hreturn, String.ofList_toList]

end

/-! ### Entries -/

/-- The enum variant of an entry. -/
def variantLine (e : Entry) : String :=
  "    " ++ e.variant ++ " = " ++ toString e.opcode.toNat ++ ","

/-- The declaration of an entry's method. -/
def declarationLine (e : Entry) : String := "    " ++ signature e ++ ";"

section

variable {e : Entry}

theorem Entry.Spelled.unbroken_variant (h : e.Spelled) : Unbroken e.variant :=
  unbroken_of_isWordChar h.variant

theorem Entry.Spelled.unbroken_mnemonic (h : e.Spelled) : Unbroken e.mnemonic :=
  unbroken_of_isWordChar h.mnemonic

theorem Entry.Spelled.unbroken_parameter (h : e.Spelled) {p : String × Kind}
    (hp : p ∈ e.parameters) : Unbroken p.1 := by
  have hchars : ∀ c ∈ p.1.toList, (isWordChar c || c == '#') = true := fun c hc => by
    simpa using h.parameters p hp c hc
  exact unbroken_of_forall hchars (by decide) (by decide)

theorem Entry.Spelled.unbroken_signature (h : e.Spelled) : Unbroken (signature e) := by
  have hmethod : Unbroken e.method := unbroken_of_isWordChar h.method
  have htype (k : Kind) : Unbroken (parameterType k) := by cases k <;> decide
  have hparameters : ∀ text ∈ e.parameters.map fun p => ", " ++ p.1 ++ ": " ++ parameterType p.2,
      Unbroken text := by
    intro text htext
    obtain ⟨p, hp, rfl⟩ := List.mem_map.mp htext
    exact ((Unbroken.append (by decide) (h.unbroken_parameter hp)).append (by decide)).append (htype p.2)
  exact (((Unbroken.append (by decide) hmethod).append (by decide)).append
    (Unbroken.join hparameters)).append (by decide)

/-- What is made of letters, digits and underscores does not begin like an indentation or a
comment. -/
theorem exists_start_of_isWordChar {text : String} (hne : text.toList ≠ [])
    (h : ∀ c ∈ text.toList, isWordChar c = true) :
    ∃ c cs, text.toList = c :: cs ∧ c ≠ ' ' ∧ c ≠ '/' := by
  obtain ⟨c, cs, heq⟩ := List.exists_cons_of_ne_nil hne
  have hc : c ∈ text.toList := heq ▸ List.mem_cons_self
  exact ⟨c, cs, heq, ne_of_mem_of_not_mem hc (notMem_of_forall h (by decide)),
    ne_of_mem_of_not_mem hc (notMem_of_forall h (by decide))⟩

theorem exists_start_signature (e : Entry) :
    ∃ c cs, (signature e).toList = c :: cs ∧ c ≠ ' ' ∧ c ≠ '/' := by
  simp only [signature, String.toList_append, List.append_assoc]
  exact ⟨'f', _, rfl, by decide, by decide⟩

theorem isCodeLine_variantLine (h : e.Spelled) : IsCodeLine 4 (variantLine e) := by
  have hvariant : IsCodeLine 4 ("    " ++ e.variant) :=
    isCodeLine_append rfl h.unbroken_variant
      (exists_start_of_isWordChar h.variant_ne_nil h.variant)
  exact ((hvariant.append (by decide)).append (unbroken_toString _)).append (by decide)

theorem isCodeLine_opcodeArm (h : e.Spelled) : IsCodeLine 12 (opcodeArm e) := by
  have hne : (toString e.opcode.toNat).toList ≠ [] := by
    rw [Nat.toString_eq_ofList_toDigits, String.toList_ofList]
    exact Nat.toDigits_ne_nil
  have hdigits : ∀ c ∈ (toString e.opcode.toNat).toList, isWordChar c = true := by
    intro c hc
    have hdigit : c.isDigit = true := isDigit_of_mem_repr hc
    simp [isWordChar, Char.isAlphanum, hdigit]
  have hopcode : IsCodeLine 12 ("            " ++ toString e.opcode.toNat) :=
    isCodeLine_append rfl (unbroken_toString _) (exists_start_of_isWordChar hne hdigits)
  exact ((hopcode.append (by decide)).append h.unbroken_variant).append (by decide)

theorem isCodeLine_mnemonicArm (h : e.Spelled) : IsCodeLine 12 (mnemonicArm e) := by
  have hopening : IsCodeLine 12 "            Self::" :=
    ⟨by decide, 'S', ['e', 'l', 'f', ':', ':'], rfl, by decide, by decide⟩
  exact (((hopening.append h.unbroken_variant).append (by decide)).append
    h.unbroken_mnemonic).append (by decide)

theorem isCodeLine_declarationLine (h : e.Spelled) : IsCodeLine 4 (declarationLine e) := by
  have hsignature : IsCodeLine 4 ("    " ++ signature e) :=
    isCodeLine_append rfl h.unbroken_signature (exists_start_signature e)
  exact hsignature.append (by decide)

theorem exists_isCodeLine_of_mem_definitionLines (h : e.Spelled) {line : String}
    (hline : line ∈ definitionLines e) : ∃ depth, IsCodeLine (depth + 1) line := by
  have hvalues : ∀ text ∈ e.parameters.map fun p => "Value::from(" ++ p.1 ++ ")", Unbroken text := by
    intro text htext
    obtain ⟨p, hp, rfl⟩ := List.mem_map.mp htext
    exact (Unbroken.append (by decide) (h.unbroken_parameter hp)).append (by decide)
  simp only [definitionLines, List.mem_cons, List.not_mem_nil, or_false] at hline
  rcases hline with rfl | rfl | rfl
  · have hsignature : IsCodeLine 4 ("    " ++ signature e) :=
      isCodeLine_append rfl h.unbroken_signature (exists_start_signature e)
    exact ⟨3, hsignature.append (by decide)⟩
  · have hopening : IsCodeLine 8 "        self.emit_opcode(Opcode::" :=
      ⟨by decide, 's', "elf.emit_opcode(Opcode::".toList, rfl, by decide, by decide⟩
    exact ⟨7, (((hopening.append h.unbroken_variant).append (by decide)).append
      (Unbroken.intercalate (by decide) hvalues)).append (by decide)⟩
  · exact ⟨3, by decide, '\x7d', [], rfl, by decide, by decide⟩

theorem yields_variantLines (h : e.Spelled) : Yields (variantLines e) [variantLine e] := by
  have hindent : "    ".toList = List.replicate 4 ' ' := rfl
  have hcode := (isCodeLine_variantLine h).yields
  cases hdoc : e.doc with
  | none =>
    rw [variantLines, hdoc]
    exact hcode
  | some doc =>
    rw [variantLines, hdoc]
    exact (yields_commentLines hindent (sentence doc)).append hcode

theorem yields_declarationLines (h : e.Spelled) :
    Yields (declarationLines e) [declarationLine e] := by
  have hindent : "    ".toList = List.replicate 4 ' ' := rfl
  have hcode := (isCodeLine_declarationLine h).yields
  cases hdoc : e.doc with
  | none =>
    have hopening : "    /// Emits `".toList =
        List.replicate 4 ' ' ++ '/' :: '/' :: "/ Emits `".toList := rfl
    have hmnemonic : '\n' ∉ e.mnemonic.toList := fun hmem => (h.unbroken_mnemonic _ hmem).1 rfl
    rw [declarationLines, hdoc]
    exact (yields_mention hopening (by decide) hmnemonic (by decide)).append hcode
  | some doc =>
    rw [declarationLines, hdoc]
    exact (yields_commentLines hindent _).append hcode

end

/-! ### The whole text -/

/-- The count of the opcodes. -/
def countLine (count : ℕ) : String := "    pub const COUNT: usize = " ++ toString count ++ ";"

/-- A section with the lines that open and close it. -/
def block (opening : String) (entries : List String) (closing : String) : List String :=
  opening :: (entries ++ [closing])

/-- The lines of code in the text of a front end. -/
def code (fe : FrontEnd) : List String :=
  ["use cartridge::encoder::\x7bEncodeError, Encoder\x7d;", "use cartridge::types::Value;",
    "#[derive(Copy, Clone, Debug, PartialEq, Eq, Hash)]", "#[repr(u8)]"] ++
  (block "pub enum Opcode \x7b" (fe.entries.map variantLine) "\x7d" ++
  (block "impl Opcode \x7b" [countLine fe.opcodeCount] "    #[must_use]" ++
  (["    pub fn from_u8(b: u8) -> Option<Self> \x7b"] ++
  (block "        match b \x7b" (fe.entries.map opcodeArm ++ ["            _ => None,"])
    "        \x7d" ++
  (["    \x7d", "    #[must_use]", "    pub fn mnemonic(self) -> &'static str \x7b"] ++
  (block "        match self \x7b" (fe.entries.map mnemonicArm) "        \x7d" ++
  (["    \x7d", "\x7d"] ++
  (block "pub trait Emit \x7b" (fe.entries.map declarationLine) "\x7d" ++
  block "impl Emit for Encoder<'_> \x7b" (fe.entries.flatMap definitionLines) "\x7d"))))))))

theorem isCodeLine_countLine (count : ℕ) : IsCodeLine 4 (countLine count) := by
  have hopening : IsCodeLine 4 "    pub const COUNT: usize = " :=
    ⟨by decide, 'p', "ub const COUNT: usize = ".toList, rfl, by decide, by decide⟩
  exact (hopening.append (unbroken_toString count)).append (by decide)

variable {fe : FrontEnd}

theorem yields_preambleLines (hsource : '\n' ∉ fe.source.toList) :
    Yields fe.preambleLines
      ["use cartridge::encoder::\x7bEncodeError, Encoder\x7d;", "use cartridge::types::Value;"] := by
  have hopening : "// Generated by cartridge_codegen from ".toList =
      List.replicate 0 ' ' ++ '/' :: '/' :: " Generated by cartridge_codegen from ".toList := rfl
  exact (yields_mention hopening (by decide) hsource (by decide)).append (by decide +kernel)

theorem yields_enumLines (hspelled : ∀ e ∈ fe.entries, e.Spelled)
    (htitle : '\n' ∉ fe.title.toList) :
    Yields fe.enumLines
      (["#[derive(Copy, Clone, Debug, PartialEq, Eq, Hash)]", "#[repr(u8)]",
        "pub enum Opcode \x7b"] ++ fe.entries.map variantLine ++ ["\x7d"]) := by
  have hopening : "/// Opcodes of the `".toList =
      List.replicate 0 ' ' ++ '/' :: '/' :: "/ Opcodes of the `".toList := rfl
  rw [List.map_eq_flatMap]
  refine Yields.append (Yields.append ?_ ?_) ?_
  · exact (yields_mention hopening (by decide) htitle (by decide)).append (by decide +kernel)
  · exact Yields.flatMap fun e he => yields_variantLines (hspelled e he)
  · decide +kernel

theorem yields_conversionLines (hspelled : ∀ e ∈ fe.entries, e.Spelled) :
    Yields fe.conversionLines
      (["impl Opcode \x7b", countLine fe.opcodeCount, "    #[must_use]",
        "    pub fn from_u8(b: u8) -> Option<Self> \x7b", "        match b \x7b"] ++
      fe.entries.map opcodeArm ++
      ["            _ => None,", "        \x7d", "    \x7d", "    #[must_use]",
        "    pub fn mnemonic(self) -> &'static str \x7b", "        match self \x7b"] ++
      fe.entries.map mnemonicArm ++ ["        \x7d", "    \x7d", "\x7d"]) := by
  rw [conversionLines, List.map_eq_flatMap, List.map_eq_flatMap]
  refine Yields.append (Yields.append (Yields.append (Yields.append ?_ ?_) ?_) ?_) ?_
  · have hopening : Yields ["impl Opcode \x7b", "    /// One past the largest opcode."]
      ["impl Opcode \x7b"] := by decide +kernel
    exact (hopening.append (isCodeLine_countLine fe.opcodeCount).yields).append (by decide +kernel)
  · exact Yields.flatMap fun e he => (isCodeLine_opcodeArm (hspelled e he)).yields
  · decide +kernel
  · exact Yields.flatMap fun e he => (isCodeLine_mnemonicArm (hspelled e he)).yields
  · decide +kernel

theorem yields_traitLines (hspelled : ∀ e ∈ fe.entries, e.Spelled)
    (htitle : '\n' ∉ fe.title.toList) :
    Yields fe.traitLines
      (["pub trait Emit \x7b"] ++ fe.entries.map declarationLine ++ ["\x7d"]) := by
  have hopening : "/// Typed emitters for the `".toList =
      List.replicate 0 ' ' ++ '/' :: '/' :: "/ Typed emitters for the `".toList := rfl
  rw [List.map_eq_flatMap]
  refine Yields.append (Yields.append ?_ ?_) ?_
  · exact (yields_mention hopening (by decide) htitle (by decide)).append (by decide +kernel)
  · exact Yields.flatMap fun e he => yields_declarationLines (hspelled e he)
  · decide +kernel

theorem yields_implementationLines (hspelled : ∀ e ∈ fe.entries, e.Spelled) :
    Yields fe.implementationLines
      (["impl Emit for Encoder<'_> \x7b"] ++ fe.entries.flatMap definitionLines ++
        ["\x7d"]) := by
  rw [List.flatMap_def]
  refine Yields.append (Yields.append (by decide) (Yields.intercalate ?_)) (by decide)
  intro block hblock
  obtain ⟨e, he, rfl⟩ := List.mem_map.mp hblock
  have hline : ∀ line ∈ definitionLines e, Yields [line] [line] := by
    intro line hline
    obtain ⟨depth, hcode⟩ := exists_isCodeLine_of_mem_definitionLines (hspelled e he) hline
    exact hcode.yields
  have hall := Yields.flatMap hline
  rwa [List.flatMap_singleton'] at hall

/-- The lines of code in the text of a front end, whatever its entries are said to do. -/
theorem codeLines_text (hspelled : ∀ e ∈ fe.entries, e.Spelled) (htitle : '\n' ∉ fe.title.toList)
    (hsource : '\n' ∉ fe.source.toList) : codeLines fe.text = fe.code := by
  have hall := ((((yields_preambleLines hsource).append (yields_enumLines hspelled htitle)).append
    (yields_conversionLines hspelled)).append (yields_traitLines hspelled htitle)).append
    (yields_implementationLines hspelled)
  rw [text, hall.codeLines_unlines]
  simp only [code, block, List.append_assoc, List.cons_append, List.nil_append]

end FrontEnd

end Bytecode
