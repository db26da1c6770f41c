import Bytecode.Proofs.Agreement

/-!
# What comments keep out of code

Formats hold texts that are for readers only: descriptions of instructions, and a title. In a front
end they are put into comments. Two formats that differ in such texts have front ends which are the
same apart from comments, if no text leaves the comment that it is put into.

A description never does (`descriptions_stay_in_comments`), since each of its lines gets a mark of
its own (`exists_of_mem_commentLines`). A title has one mark before it and none inside. So what
stands behind a line feed in it is taken for code (`spilledLines`), and front ends for two titles are
the same exactly if the same code comes out of both (`titles_spill_exactly`).

Both statements come from one equation (`withoutComments_text_eq_iff`): apart from comments, a front
end is made of its title's spilled lines, twice, and of lines that its entries have without their
descriptions.
-/

namespace Bytecode

namespace FrontEnd

/-! ### Texts without comments -/

/-- Whether a line has the mark of a comment in front, spaces apart. -/
def isComment (line : List Char) : Bool := ['/', '/'].isPrefixOf (line.dropWhile (· == ' '))

/-- The lines of a text that are no comments. -/
def bareLines (cs : List Char) : List (List Char) := (cs.splitOn '\n').filter (!isComment ·)

/-- A text with all comment lines removed. -/
def withoutComments (text : String) : String :=
  String.ofList (['\n'].intercalate (bareLines text.toList))

/-- What is left of some texts, each of which ends its last line, when comments are removed. -/
def remains (lines : List String) : List (List Char) := lines.flatMap (bareLines ·.toList)

section

variable {lines lines' : List String} {opening : List Char} {depth : ℕ}

theorem remains_append : remains (lines ++ lines') = remains lines ++ remains lines' :=
  List.flatMap_append

theorem remains_cons (line : String) (lines : List String) :
    remains (line :: lines) = bareLines line.toList ++ remains lines :=
  List.flatMap_cons

theorem bareLines_append_lineFeed (cs cs' : List Char) :
    bareLines (cs ++ '\n' :: cs') = bareLines cs ++ bareLines cs' := by
  rw [bareLines, List.splitOn_append_cons_self, List.filter_append, bareLines, bareLines]

/-- Behind the last line feed there is one more line, which is empty. -/
theorem bareLines_unlines (lines : List String) :
    bareLines (unlines lines).toList = remains lines ++ [[]] := by
  rw [toList_unlines]
  induction lines with
  | nil => rfl
  | cons line lines ih =>
    rw [List.flatMap_cons, List.append_assoc, List.singleton_append, bareLines_append_lineFeed, ih,
      remains_cons, List.append_assoc]

/-- A text without the separator goes in front of the first piece. -/
theorem splitOn_append_of_notMem {cs : List Char} {sep : Char} (h : sep ∉ cs) (cs' : List Char) :
    (cs ++ cs').splitOn sep = (cs'.splitOn sep).modifyHead (cs ++ ·) := by
  induction cs with
  | nil =>
    rw [List.nil_append]
    cases cs'.splitOn sep <;> rfl
  | cons c cs ih =>
    rw [List.mem_cons, not_or] at h
    rw [List.cons_append, List.splitOn_cons_eq_if_modifyHead, if_neg (by simpa using Ne.symm h.1),
      ih h.2, List.modifyHead_modifyHead]
    rfl

/-- Texts made of lines are the same without their comments if the same lines remain. -/
theorem withoutComments_unlines_eq_iff :
    withoutComments (unlines lines) = withoutComments (unlines lines') ↔
      remains lines = remains lines' := by
  have hsplit (lines : List String) :
      (withoutComments (unlines lines)).toList.splitOn '\n' = remains lines ++ [[]] := by
    rw [withoutComments, String.toList_ofList, ← bareLines_unlines]
    refine List.splitOn_intercalate '\n' (fun line hline => ?_) (by simp [bareLines_unlines])
    exact notMem_of_mem_splitOn (List.mem_of_mem_filter hline)
  constructor
  · intro h
    have hlines := hsplit lines
    rw [h, hsplit] at hlines
    exact (List.append_cancel_right hlines).symm
  · intro h
    rw [withoutComments, withoutComments, bareLines_unlines, bareLines_unlines, h]

/-! ### Comments -/

theorem isComment_replicate_append (depth : ℕ) (behind : List Char) :
    isComment (List.replicate depth ' ' ++ '/' :: '/' :: behind) = true := by
  have hspace : ∀ c ∈ List.replicate depth ' ', (c == ' ') = true := fun c hc =>
    beq_iff_eq.mpr (List.eq_of_mem_replicate hc)
  rw [isComment, List.dropWhile_append_of_pos hspace]
  rfl

/-- Of a text that begins as a comment there remains what stands behind its first line feed. -/
theorem bareLines_comment {behind : List Char}
    (h : opening = List.replicate depth ' ' ++ '/' :: '/' :: behind) (hfeed : '\n' ∉ opening)
    (rest : List Char) :
    bareLines (opening ++ rest) = (rest.splitOn '\n').tail.filter (!isComment ·) := by
  obtain ⟨first, lines, hlines⟩ := List.exists_cons_of_ne_nil (List.splitOn_ne_nil '\n' rest)
  have hcomment : isComment (opening ++ first) = true := by
    rw [h, List.append_assoc]
    exact isComment_replicate_append depth (behind ++ first)
  rw [bareLines, splitOn_append_of_notMem hfeed, hlines, List.modifyHead_cons,
    List.filter_cons_of_neg (by simp [hcomment]), List.tail_cons]

/-- Nothing remains of a documentation comment, whatever it says. -/
theorem remains_commentLines {indent : String} (hindent : indent.toList = List.replicate depth ' ')
    (text : String) : remains (commentLines indent text) = [] := by
  rw [remains, List.flatMap_eq_nil_iff]
  intro line hline
  obtain ⟨rest, rfl, hfeed⟩ := exists_of_mem_commentLines hline
  have hspaces : '\n' ∉ indent.toList := fun hmem =>
    absurd (List.eq_of_mem_replicate (hindent ▸ hmem)) (by decide)
  have hopening : (indent ++ "///").toList = List.replicate depth ' ' ++ '/' :: '/' :: ['/'] := by
    rw [String.toList_append, hindent]
    rfl
  rw [String.toList_append,
    bareLines_comment hopening (notMem_toList_append hspaces (by decide)),
    List.splitOn_eq_singleton hfeed]
  rfl

/-- What comes out of the comments that mention a title: the lines behind its first line feed and the
end of the comment, unless they are comments themselves. -/
def spilledLines (title : String) : List (List Char) :=
  ((title ++ "` format.").toList.splitOn '\n').tail.filter (!isComment ·)

/-- Titles on one line do not come out of comments. -/
theorem spilledLines_eq_nil {title : String} (h : '\n' ∉ title.toList) :
    spilledLines title = [] := by
  rw [spilledLines, List.splitOn_eq_singleton (notMem_toList_append h (by decide))]
  rfl

end

/-! ### Entries without descriptions -/

/-- An entry without its description. -/
def Entry.undocumented (e : Entry) : Entry := { e with doc := none }

theorem remains_variantLines (e : Entry) : remains (variantLines e) = remains [variantLine e] := by
  have hindent : "    ".toList = List.replicate 4 ' ' := rfl
  rw [variantLines, remains_append]
  cases e.doc with
  | none => rfl
  | some doc => rw [remains_commentLines hindent, List.nil_append, variantLine]

theorem remains_declarationLines {e : Entry} (h : '\n' ∉ e.mnemonic.toList) :
    remains (declarationLines e) = remains [declarationLine e] := by
  have hindent : "    ".toList = List.replicate 4 ' ' := rfl
  rw [declarationLines, remains_append]
  cases e.doc with
  | none =>
    have hopening : "    /// Emits `".toList =
        List.replicate 4 ' ' ++ '/' :: '/' :: "/ Emits `".toList := rfl
    rw [remains_cons, String.append_assoc, String.toList_append,
      bareLines_comment hopening (by decide),
      List.splitOn_eq_singleton (notMem_toList_append h (by decide))]
    rfl
  | some doc => rw [remains_commentLines hindent, List.nil_append, declarationLine]

theorem remains_flatMap {entries : List Entry} {write : Entry → List String} {code : Entry → String}
    (h : ∀ e ∈ entries, remains (write e) = remains [code e]) :
    remains (entries.flatMap write) = remains (entries.map code) := by
  induction entries with
  | nil => rfl
  | cons e entries ih =>
    obtain ⟨he, hentries⟩ := List.forall_mem_cons.mp h
    rw [List.flatMap_cons, remains_append, he, ih hentries, List.map_cons, ← remains_append]
    rfl

variable {fe fe' : FrontEnd}

/-- The enum without comments. -/
def enumCode (fe : FrontEnd) : List String :=
  ["#[derive(Copy, Clone, Debug, PartialEq, Eq, Hash)]", "#[repr(u8)]", "pub enum Opcode \x7b"] ++
    (fe.entries.map variantLine ++ ["\x7d", ""])

/-- The trait without comments. -/
def traitCode (fe : FrontEnd) : List String :=
  ["pub trait Emit \x7b"] ++ (fe.entries.map declarationLine ++ ["\x7d", ""])

theorem remains_enumLines (fe : FrontEnd) :
    remains fe.enumLines = spilledLines fe.title ++ remains fe.enumCode := by
  have hopening : "/// Opcodes of the `".toList =
      List.replicate 0 ' ' ++ '/' :: '/' :: "/ Opcodes of the `".toList := rfl
  rw [enumLines, remains_append, remains_append, remains_cons, String.append_assoc,
    String.toList_append, bareLines_comment hopening (by decide), ← spilledLines,
    remains_flatMap fun e _ => remains_variantLines e, enumCode, remains_append, remains_append,
    List.append_assoc, List.append_assoc]

theorem remains_traitLines (h : ∀ e ∈ fe.entries, '\n' ∉ e.mnemonic.toList) :
    remains fe.traitLines = spilledLines fe.title ++ remains fe.traitCode := by
  have hopening : "/// Typed emitters for the `".toList =
      List.replicate 0 ' ' ++ '/' :: '/' :: "/ Typed emitters for the `".toList := rfl
  rw [traitLines, remains_append, remains_append, remains_cons, String.append_assoc,
    String.toList_append, bareLines_comment hopening (by decide), ← spilledLines,
    remains_flatMap fun e he => remains_declarationLines (h e he), traitCode, remains_append,
    remains_append, List.append_assoc, List.append_assoc]

/-- The lines of a title come out of a front end in two places. -/
theorem remains_lines (h : ∀ e ∈ fe.entries, '\n' ∉ e.mnemonic.toList) :
    remains (fe.preambleLines ++ fe.enumLines ++ fe.conversionLines ++ fe.traitLines ++
        fe.implementationLines) =
      remains fe.preambleLines ++ (spilledLines fe.title ++
        ((remains fe.enumCode ++ remains fe.conversionLines) ++ (spilledLines fe.title ++
          (remains fe.traitCode ++ remains fe.implementationLines)))) := by
  simp only [remains_append, remains_enumLines, remains_traitLines h, List.append_assoc]

/-- What entries are written as without their descriptions is the same for entries that are the same
without their descriptions. -/
theorem map_eq_of_undocumented {α : Type} {write : Entry → α} {entries entries' : List Entry}
    (hwrite : ∀ e, write e.undocumented = write e)
    (h : entries.map Entry.undocumented = entries'.map Entry.undocumented) :
    entries.map write = entries'.map write := by
  have hmap (entries : List Entry) :
      entries.map write = (entries.map Entry.undocumented).map write := by
    rw [List.map_map]
    exact (List.map_congr_left fun e _ => hwrite e).symm
  rw [hmap entries, h, ← hmap]

/-- Something that is put in two places is determined by the result. -/
theorem append_twice_inj {α : Type} {before between behind x y : List α} :
    before ++ (x ++ (between ++ (x ++ behind))) = before ++ (y ++ (between ++ (y ++ behind))) ↔
      x = y := by
  refine ⟨fun h => ?_, fun h => h ▸ rfl⟩
  -- it is as long in both, so the results can be taken apart at the same place
  have hlength := congrArg List.length h
  simp only [List.length_append] at hlength
  exact (List.append_inj (List.append_cancel_left h) (by omega)).1

/-- Front ends with the same entries, apart from descriptions, are the same without comments iff the
same lines come out of their titles. -/
theorem withoutComments_text_eq_iff (hsource : fe.source = fe'.source)
    (hcount : fe.opcodeCount = fe'.opcodeCount)
    (hentries : fe.entries.map Entry.undocumented = fe'.entries.map Entry.undocumented)
    (h : ∀ e ∈ fe.entries, '\n' ∉ e.mnemonic.toList)
    (h' : ∀ e ∈ fe'.entries, '\n' ∉ e.mnemonic.toList) :
    withoutComments fe.text = withoutComments fe'.text ↔
      spilledLines fe.title = spilledLines fe'.title := by
  have hpreamble : fe.preambleLines = fe'.preambleLines := by
    rw [preambleLines, hsource, ← preambleLines]
  have hopcodes : fe.entries.map opcodeArm = fe'.entries.map opcodeArm :=
    map_eq_of_undocumented (fun _ => rfl) hentries
  have hmnemonics : fe.entries.map mnemonicArm = fe'.entries.map mnemonicArm :=
    map_eq_of_undocumented (fun _ => rfl) hentries
  have hconversions : fe.conversionLines = fe'.conversionLines := by
    rw [conversionLines, hcount, hopcodes, hmnemonics, ← conversionLines]
  have himplementation : fe.implementationLines = fe'.implementationLines := by
    rw [implementationLines, map_eq_of_undocumented (fun _ => rfl) hentries, ← implementationLines]
  have henum : fe.enumCode = fe'.enumCode := by
    rw [enumCode, map_eq_of_undocumented (fun _ => rfl) hentries, ← enumCode]
  have htrait : fe.traitCode = fe'.traitCode := by
    rw [traitCode, map_eq_of_undocumented (fun _ => rfl) hentries, ← traitCode]
  rw [text, text, withoutComments_unlines_eq_iff, remains_lines h, remains_lines h', hpreamble,
    hconversions, himplementation, henum, htrait]
  exact append_twice_inj

/-! ### Clashes -/

theorem neighbours?_map {α : Type} {agree : α → α → Bool} {g : α → α}
    (hagree : ∀ a b, agree (g a) (g b) = agree a b) (l : List α) :
    neighbours? agree (l.map g) = (neighbours? agree l).map (Prod.map g g) := by
  induction l with
  | nil => rfl
  | cons a l ih =>
    cases l with
    | nil => rfl
    | cons b l =>
      rw [List.map_cons, List.map_cons, neighbours?, hagree, ← List.map_cons, ih, neighbours?]
      split <;> rfl

/-- Descriptions have no part in clashes. -/
theorem clash?_undocumented (entries : List Entry) :
    clash? (entries.map Entry.undocumented) = clash? entries := by
  have hsort : (entries.mergeSort variantLE).map Entry.undocumented =
      (entries.map Entry.undocumented).mergeSort variantLE :=
    List.map_mergeSort fun _ _ _ _ => rfl
  have hvariant : variantClash? (entries.map Entry.undocumented) = variantClash? entries := by
    rw [variantClash?, ← hsort, neighbours?_map (g := Entry.undocumented) fun _ _ => rfl,
      Option.map_map]
    rfl
  rw [clash?, hvariant, List.findSome?_map]
  rfl

end FrontEnd

/-! ### Formats without descriptions -/

/-- An instruction without its description. -/
def Instruction.undocumented (i : Instruction) : Instruction := { i with doc := none }

/-- A format without the descriptions of its instructions. -/
def Format.undocumented (f : Format) : Format :=
  { f with instructions := f.instructions.map Instruction.undocumented }

open FrontEnd

variable {f f' : Format} {source : String}

theorem map_ofInstruction_undocumented (f : Format) :
    f.undocumented.instructions.map Entry.ofInstruction =
      (f.instructions.map Entry.ofInstruction).map Entry.undocumented := by
  rw [Format.undocumented, List.map_map, List.map_map]
  rfl

theorem clash?_eq_of_undocumented (h : f.undocumented.instructions = f'.undocumented.instructions) :
    clash? (f.instructions.map Entry.ofInstruction) =
      clash? (f'.instructions.map Entry.ofInstruction) := by
  rw [← clash?_undocumented, ← map_ofInstruction_undocumented, h, map_ofInstruction_undocumented,
    clash?_undocumented]

theorem ordered_undocumented (f : Format) :
    f.ordered.map Instruction.undocumented = f.undocumented.ordered :=
  List.map_mergeSort fun _ _ _ _ => rfl

theorem opcodeCount_undocumented (f : Format) : f.undocumented.opcodeCount = f.opcodeCount := by
  rw [Format.opcodeCount, Format.undocumented, List.foldl_map]
  rfl

theorem lineFeed_notMem_mnemonic {schema : Schema} (hload : schema.load = .ok f) {e : Entry}
    (he : e ∈ f.ordered.map Entry.ofInstruction) : '\n' ∉ e.mnemonic.toList := by
  obtain ⟨i, hi, rfl⟩ := List.mem_map.mp he
  have hspelled := Entry.spelled_ofInstruction (Schema.identified_of_load hload)
    (Schema.wellNamed_of_load hload) (f.perm_ordered.mem_iff.mp hi)
  exact fun hmem => (hspelled.unbroken_mnemonic _ hmem).1 rfl

/-- The front end that a format has if no names clash in it. -/
def Format.frontEnd (f : Format) (source : String) : FrontEnd :=
  ⟨source, f.title, f.opcodeCount, f.ordered.map Entry.ofInstruction⟩

theorem sourceText_eq (f : Format) (source : String) : sourceText f source =
    match clash? (f.instructions.map Entry.ofInstruction) with
    | some clash => .error clash
    | none => .ok (f.frontEnd source).text := by
  cases hclash : clash? (f.instructions.map Entry.ofInstruction) with
  | none =>
    rw [sourceText, ofFormat_eq_ok_iff.mpr ⟨hclash, rfl⟩]
    rfl
  | some clash =>
    rw [sourceText, ofFormat, hclash]
    rfl

/-- Formats with the same instructions, apart from descriptions, are refused alike, and their front
ends differ outside comments only by what comes out of their titles. -/
theorem sourceText_of_undocumented {schema schema' : Schema} (hload : schema.load = .ok f)
    (hload' : schema'.load = .ok f')
    (h : f.undocumented.instructions = f'.undocumented.instructions) (source : String) :
    (∀ clash, sourceText f source = .error clash ↔ sourceText f' source = .error clash) ∧
    ∀ text text', sourceText f source = .ok text → sourceText f' source = .ok text' →
      (withoutComments text = withoutComments text' ↔
        spilledLines f.title = spilledLines f'.title) := by
  have hcount : f.opcodeCount = f'.opcodeCount := by
    rw [← opcodeCount_undocumented, Format.opcodeCount, h, ← Format.opcodeCount,
      opcodeCount_undocumented]
  have hordered : f.undocumented.ordered = f'.undocumented.ordered := by
    rw [Format.ordered, h, ← Format.ordered]
  have hentries : (f.ordered.map Entry.ofInstruction).map Entry.undocumented =
      (f'.ordered.map Entry.ofInstruction).map Entry.undocumented := by
    have hmap (f : Format) : (f.ordered.map Entry.ofInstruction).map Entry.undocumented =
        f.undocumented.ordered.map Entry.ofInstruction := by
      rw [← ordered_undocumented, List.map_map, List.map_map]
      rfl
    rw [hmap, hordered, ← hmap]
  have htexts : withoutComments (f.frontEnd source).text =
      withoutComments (f'.frontEnd source).text ↔ spilledLines f.title = spilledLines f'.title :=
    withoutComments_text_eq_iff rfl hcount hentries (fun _ => lineFeed_notMem_mnemonic hload)
      fun _ => lineFeed_notMem_mnemonic hload'
  rw [sourceText_eq f, sourceText_eq f', ← clash?_eq_of_undocumented h]
  cases clash? (f.instructions.map Entry.ofInstruction) with
  | none => simpa using htexts
  | some clash => simp

/-! ### Two runs -/

/-- **Descriptions do not reach code.** Formats that differ in descriptions only have front ends which
are the same when comments are removed, or both have none, for the same clash. Each line that a
description gives starts with the indentation and the mark of a comment. -/
theorem descriptions_stay_in_comments {schema schema' : Schema} (hload : schema.load = .ok f)
    (hload' : schema'.load = .ok f') (h : f.undocumented = f'.undocumented) (source : String) :
    withoutComments <$> sourceText f source = withoutComments <$> sourceText f' source ∧
    ∀ indent text, ∀ line ∈ commentLines indent text,
      ∃ rest, line = indent ++ "///" ++ rest ∧ '\n' ∉ rest.toList := by
  refine ⟨?_, fun _ _ _ => exists_of_mem_commentLines⟩
  obtain ⟨herror, hok⟩ :=
    sourceText_of_undocumented hload hload' (congrArg Format.instructions h) source
  have htitle : f.title = f'.title := by
    show f.undocumented.title = f'.undocumented.title
    rw [h]
  cases htext : sourceText f source with
  | error clash => rw [(herror clash).mp htext]
  | ok text =>
    cases htext' : sourceText f' source with
    | error clash =>
      rw [(herror clash).mpr htext'] at htext
      cases htext
    | ok text' => exact congrArg Except.ok ((hok text text' htext htext').mpr (by rw [htitle]))

/-- A format with one instruction, as declared, with a given title and a given description. -/
def sampleHalt (title : String) (doc : Option String) : Schema :=
  { header := [⟨"title", .string, .text title⟩]
    counters := []
    chunks := []
    commonArgs := []
    instructions := [⟨"halt", none, doc, []⟩] }

/-- The format of `sampleHalt`. -/
def sampleHaltFormat (title : String) (doc : Option String) : Format :=
  { header := [⟨"title", .string title⟩]
    counters := []
    chunks := []
    instructions := [⟨"halt", "HALT", 0, [], doc⟩] }

theorem sourceText_sampleHalt (title source : String) :
    sourceText (sampleHaltFormat title none) source =
      .ok ((sampleHaltFormat title none).frontEnd source).text := by
  have hclash : clash? [Entry.ofInstruction ⟨"halt", "HALT", 0, [], none⟩] = none := by
    decide +kernel
  rw [sourceText_eq, sampleHaltFormat, List.map_singleton, hclash]

/-- Code in a description is none. -/
theorem descriptions_stay_in_comments_of_sample :
    let f := sampleHaltFormat "HALT" (some "Stops.\n\x7d\r\nfn main() \x7b \x7d")
    let f' := sampleHaltFormat "HALT" none
    sourceText f "halt.json" ≠ sourceText f' "halt.json" ∧
      withoutComments <$> sourceText f "halt.json" =
        withoutComments <$> sourceText f' "halt.json" := by
  have hload : (sampleHalt "HALT" (some "Stops.\n\x7d\r\nfn main() \x7b \x7d")).load =
      .ok (sampleHaltFormat "HALT" (some "Stops.\n\x7d\r\nfn main() \x7b \x7d")) := by
    decide +kernel
  have hload' : (sampleHalt "HALT" none).load = .ok (sampleHaltFormat "HALT" none) := by
    decide +kernel
  exact ⟨by decide +kernel, (descriptions_stay_in_comments hload hload' rfl "halt.json").1⟩

/-- **A title reaches code by its line feeds only.** Formats with the same instructions are refused
alike, and their front ends are the same without comments iff the same lines come out of their
titles. No lines come out of titles on one line. -/
theorem titles_spill_exactly {schema schema' : Schema} (hload : schema.load = .ok f)
    (hload' : schema'.load = .ok f') (h : f.instructions = f'.instructions) (source : String) :
    (∀ clash, sourceText f source = .error clash ↔ sourceText f' source = .error clash) ∧
    (∀ text text', sourceText f source = .ok text → sourceText f' source = .ok text' →
      (withoutComments text = withoutComments text' ↔
        spilledLines f.title = spilledLines f'.title)) ∧
    ∀ title, '\n' ∉ String.toList title → spilledLines title = [] := by
  have hundocumented : f.undocumented.instructions = f'.undocumented.instructions :=
    congrArg (List.map Instruction.undocumented) h
  obtain ⟨herror, hok⟩ := sourceText_of_undocumented hload hload' hundocumented source
  exact ⟨herror, hok, fun _ => spilledLines_eq_nil⟩

/-- What differs in front of the first line feeds of two titles does not matter. -/
theorem titles_spill_exactly_of_sample : ∃ text text',
    sourceText (sampleHaltFormat "HALT\nfn main() \x7b \x7d" none) "halt.json" = .ok text ∧
      sourceText (sampleHaltFormat "Stop\nfn main() \x7b \x7d" none) "halt.json" = .ok text' ∧
      text ≠ text' ∧ withoutComments text = withoutComments text' := by
  have hload : (sampleHalt "HALT\nfn main() \x7b \x7d" none).load =
      .ok (sampleHaltFormat "HALT\nfn main() \x7b \x7d" none) := by decide +kernel
  have hload' : (sampleHalt "Stop\nfn main() \x7b \x7d" none).load =
      .ok (sampleHaltFormat "Stop\nfn main() \x7b \x7d" none) := by decide +kernel
  obtain ⟨-, htexts, -⟩ := titles_spill_exactly hload hload' rfl "halt.json"
  have hok := sourceText_sampleHalt "HALT\nfn main() \x7b \x7d" "halt.json"
  have hok' := sourceText_sampleHalt "Stop\nfn main() \x7b \x7d" "halt.json"
  exact ⟨_, _, hok, hok', by decide +kernel, (htexts _ _ hok hok').mpr (by decide +kernel)⟩

/-- A title with a line feed changes the code of a front end. -/
theorem title_with_lineFeed_changes_code : ∃ text text',
    (sampleHalt "HALT" none).load = .ok (sampleHaltFormat "HALT" none) ∧
      (sampleHalt "HALT\nfn main() \x7b \x7d" none).load =
        .ok (sampleHaltFormat "HALT\nfn main() \x7b \x7d" none) ∧
      (sampleHaltFormat "HALT" none).instructions =
        (sampleHaltFormat "HALT\nfn main() \x7b \x7d" none).instructions ∧
      sourceText (sampleHaltFormat "HALT" none) "halt.json" = .ok text ∧
      sourceText (sampleHaltFormat "HALT\nfn main() \x7b \x7d" none) "halt.json" = .ok text' ∧
      withoutComments text ≠ withoutComments text' := by
  have hload : (sampleHalt "HALT" none).load = .ok (sampleHaltFormat "HALT" none) := by
    decide +kernel
  have hload' : (sampleHalt "HALT\nfn main() \x7b \x7d" none).load =
      .ok (sampleHaltFormat "HALT\nfn main() \x7b \x7d" none) := by decide +kernel
  obtain ⟨-, htexts⟩ := sourceText_of_undocumented hload hload' rfl "halt.json"
  have hok := sourceText_sampleHalt "HALT" "halt.json"
  have hok' := sourceText_sampleHalt "HALT\nfn main() \x7b \x7d" "halt.json"
  have hspilled : spilledLines "HALT" ≠ spilledLines "HALT\nfn main() \x7b \x7d" := by
    decide +kernel
  exact ⟨_, _, hload, hload', rfl, hok, hok', fun h => hspilled ((htexts _ _ hok hok').mp h)⟩

end Bytecode
