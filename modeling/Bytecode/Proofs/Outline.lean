import Bytecode.Proofs.CodeLines

/-!
# The outline of a front end

What is read from the lines of code of a front end is what its entries say (`read?_code`). A line is
taken apart where it was put together, since no name in it has the character with which the next
mark begins (`parts?_cons`); the items of a list come apart at its commas (`items_append_comma`). A
section ends where it was closed (`sections_block`), since its entries are indented otherwise than
the closing line (`notMem_map_of_isCodeLine`).
-/

namespace Bytecode

namespace FrontEnd

/-! ### Parts -/

theorem cut?_append {m : Char} {ms before : List Char} (h : m ∉ before) (behind : List Char) :
    cut? (m :: ms) (before ++ (m :: ms ++ behind)) = some (before, behind) := by
  induction before with
  | nil =>
    have hstart : (m :: ms).isPrefixOf? (m :: ms ++ behind) = some behind :=
      List.isPrefixOf?_eq_some_iff_append_eq.mpr rfl
    rw [List.nil_append, List.cons_append, cut?, ← List.cons_append, hstart]
  | cons c before ih =>
    rw [List.mem_cons, not_or] at h
    have hstart (cs : List Char) : (m :: ms).isPrefixOf? (c :: cs) = none := by
      rw [List.isPrefixOf?, beq_false_of_ne h.1]
      rfl
    rw [List.cons_append, cut?, hstart, ih h.2]
    rfl

section

variable {mark mark' mark'' part part' rest : String} {marks parts : List String}

/-- A part ends at the first occurrence of the character with which the mark behind it begins. -/
theorem parts?_cons (m : Char) (hmark : mark.toList.head? = some m) (hpart : m ∉ part.toList)
    (h : parts? marks rest.toList = some parts) :
    parts? (mark :: marks) (part ++ (mark ++ rest)).toList = some (part :: parts) := by
  obtain ⟨ms, hmark⟩ := List.head?_eq_some_iff.mp hmark
  rw [String.toList_append, String.toList_append, parts?, hmark, cut?_append hpart,
    Option.bind_eq_bind, Option.bind_some]
  dsimp only
  rw [h, String.ofList_toList]
  rfl

/-- Nothing stands before a mark with which a text begins. -/
theorem parts?_opening (hmark : mark.toList ≠ []) (h : parts? marks rest.toList = some parts) :
    parts? (mark :: marks) (mark ++ rest).toList = some ("" :: parts) := by
  obtain ⟨m, ms, hmark⟩ := List.exists_cons_of_ne_nil hmark
  have hparts : parts? (mark :: marks) ("" ++ (mark ++ rest)).toList = some ("" :: parts) :=
    parts?_cons m (by rw [hmark]; rfl) List.not_mem_nil h
  rwa [String.empty_append] at hparts

theorem parts?_one (m : Char) (hmark : mark.toList.head? = some m) (hpart : m ∉ part.toList) :
    parts? [mark] (part ++ mark ++ rest).toList = some [part, rest] := by
  rw [String.append_assoc]
  exact parts?_cons m hmark hpart (by rw [parts?, String.ofList_toList])

/-- Nothing stands behind a mark with which a text ends. -/
theorem parts?_closing (m : Char) (hmark : mark.toList.head? = some m) (hpart : m ∉ part.toList) :
    parts? [mark] (part ++ mark).toList = some [part, ""] := by
  have hparts : parts? [mark] (part ++ mark ++ "").toList = some [part, ""] :=
    parts?_one m hmark hpart
  rwa [String.append_empty] at hparts

theorem parts?_two (m : Char) (hmark : mark.toList ≠ []) (hmark' : mark'.toList.head? = some m)
    (hpart : m ∉ part.toList) :
    parts? [mark, mark'] (mark ++ part ++ mark').toList = some ["", part, ""] := by
  rw [String.append_assoc]
  exact parts?_opening hmark (parts?_closing m hmark' hpart)

theorem parts?_three (m m' : Char) (hmark : mark.toList ≠ [])
    (hmark' : mark'.toList.head? = some m) (hmark'' : mark''.toList.head? = some m')
    (hpart : m ∉ part.toList) (hpart' : m' ∉ part'.toList) :
    parts? [mark, mark', mark''] (mark ++ part ++ mark' ++ part' ++ mark'').toList =
      some ["", part, part', ""] := by
  rw [String.append_assoc, String.append_assoc, String.append_assoc]
  exact parts?_opening hmark (parts?_cons m hmark' hpart (parts?_closing m' hmark'' hpart'))

/-- The last mark stands right behind the one before it, and the second right behind the first. -/
theorem parts?_enclosed {opening opening' closing closing' : String} (m m' : Char)
    (hopening : opening.toList ≠ []) (hopening' : opening'.toList ≠ [])
    (hmark : mark.toList.head? = some m) (hclosing : closing.toList.head? = some m')
    (hclosing' : closing'.toList ≠ []) (hpart : m ∉ part.toList) (hpart' : m' ∉ part'.toList) :
    parts? [opening, opening', mark, closing, closing']
        (opening ++ (opening' ++ part ++ mark ++ part' ++ closing) ++ closing').toList =
      some ["", "", part, part', "", ""] := by
  have hend : parts? [closing'] closing'.toList = some ["", ""] := by
    have hparts : parts? [closing'] (closing' ++ "").toList = some ["", ""] :=
      parts?_opening hclosing' (by rw [parts?, String.ofList_toList])
    rwa [String.append_empty] at hparts
  simp only [String.append_assoc]
  exact parts?_opening hopening (parts?_opening hopening'
    (parts?_cons m hmark hpart (parts?_cons m' hclosing hpart' hend)))

end

theorem number?_toString (n : ℕ) : number? (toString n) = some n := by
  have hdigits : (toString n).toList = Nat.toDigits 10 n := by
    rw [Nat.toString_eq_ofList_toDigits, String.toList_ofList]
  have hall : (toString n).toList.all Char.isDigit = true :=
    List.all_eq_true.mpr fun c hc => isDigit_of_mem_repr hc
  have hne : (toString n != "") = true := by
    rw [bne_iff_ne, ne_eq, ← String.toList_inj, hdigits]
    exact Nat.toDigits_ne_nil
  rw [number?, hne, hall, hdigits, Nat.ofDigitChars_ten_toDigits]
  rfl

/-! ### Items -/

theorem items_append_comma (cs cs' : List Char) :
    items (String.ofList (cs ++ ',' :: cs')) =
      items (String.ofList cs) ++ items (String.ofList cs') := by
  simp only [items, String.toList_ofList, List.splitOn_append_cons_self, List.map_append,
    List.filter_append]

/-- Something that can be an item by itself: no comma in it, and no space at its start. -/
structure IsItem (item : String) : Prop where
  comma_notMem : ',' ∉ item.toList
  exists_start : ∃ c cs, item.toList = c :: cs ∧ c ≠ ' '

variable {item : String} {rest : List String}

/-- An item is read with a space before it and without. -/
theorem IsItem.items_eq (h : IsItem item) (spaces : ℕ) :
    items (String.ofList (List.replicate spaces ' ' ++ item.toList)) = [item] := by
  obtain ⟨c, cs, hitem, hc⟩ := h.exists_start
  have hcomma : ',' ∉ List.replicate spaces ' ' ++ item.toList := by
    rw [List.mem_append, not_or]
    exact ⟨fun hmem => absurd (List.eq_of_mem_replicate hmem) (by decide), h.comma_notMem⟩
  have hspaces : ∀ c ∈ List.replicate spaces ' ', (c == ' ') = true := fun c hc =>
    beq_iff_eq.mpr (List.eq_of_mem_replicate hc)
  have hdrop : (List.replicate spaces ' ' ++ item.toList).dropWhile (· == ' ') = item.toList := by
    rw [List.dropWhile_append_of_pos hspaces, hitem,
      List.dropWhile_cons_of_neg (by simpa using hc)]
  have hfilter : [item.toList].filter (!·.isEmpty) = [item.toList] := by
    simp [hitem]
  rw [items, String.toList_ofList, List.splitOn_eq_singleton hcomma, List.map_singleton, hdrop,
    hfilter, List.map_singleton, String.ofList_toList]

/-- Items are read from a list in which each is behind a comma and a space. -/
theorem items_flatMap (h : ∀ item ∈ rest, IsItem item) (cs : List Char) :
    items (String.ofList (cs ++ rest.flatMap fun item => ", ".toList ++ item.toList)) =
      items (String.ofList cs) ++ rest := by
  induction rest generalizing cs with
  | nil => rw [List.flatMap_nil, List.append_nil, List.append_nil]
  | cons item rest ih =>
    obtain ⟨hitem, hrest⟩ := List.forall_mem_cons.mp h
    have hspace := hitem.items_eq 1
    have hcomma : ", ".toList = [',', ' '] := rfl
    rw [List.flatMap_cons, hcomma, List.append_assoc, List.cons_append, items_append_comma,
      List.singleton_append, ← List.cons_append, ← hcomma, ih hrest]
    rw [← List.singleton_append, ← List.replicate_one, hspace, List.singleton_append]

theorem items_join (h : ∀ item ∈ rest, IsItem item) :
    items (String.join (rest.map (", " ++ ·))) = rest := by
  have htext : (String.join (rest.map (", " ++ ·))).toList =
      [] ++ rest.flatMap fun item => ", ".toList ++ item.toList := by
    simp only [String.toList_join, List.flatMap_map, String.toList_append, List.nil_append]
  rw [← String.ofList_toList (s := String.join _), htext, items_flatMap h]
  rfl

theorem items_intercalate (h : ∀ item ∈ rest, IsItem item) :
    items (", ".intercalate rest) = rest := by
  cases rest with
  | nil => rfl
  | cons item rest =>
    obtain ⟨hitem, hrest⟩ := List.forall_mem_cons.mp h
    have hfirst := hitem.items_eq 0
    rw [List.replicate_zero, List.nil_append] at hfirst
    have htext : (", ".intercalate (item :: rest)).toList =
        item.toList ++ rest.flatMap fun item => ", ".toList ++ item.toList := by
      rw [String.toList_intercalate, List.map_cons, intercalate_cons, List.flatMap_map]
    rw [← String.ofList_toList (s := ", ".intercalate _), htext, items_flatMap hrest, hfirst,
      List.singleton_append]

/-! ### Entries -/

theorem mapM_map_eq_some {α β γ : Type} {parse : β → Option γ} {write : α → β} {meaning : α → γ}
    {xs : List α} (h : ∀ x ∈ xs, parse (write x) = some (meaning x)) :
    (xs.map write).mapM parse = some (xs.map meaning) := by
  induction xs with
  | nil => rfl
  | cons x xs ih =>
    obtain ⟨hx, hxs⟩ := List.forall_mem_cons.mp h
    rw [List.map_cons, List.mapM_cons, hx, ih hxs]
    rfl

variable {e : Entry}

/-- No name of a parameter has a character that is not made for names, but for the raw mark. -/
theorem Entry.Spelled.notMem_parameter (h : e.Spelled) {p : String × Kind} (hp : p ∈ e.parameters)
    {c : Char} (hc : isWordChar c = false) (hraw : c ≠ '#') : c ∉ p.1.toList := fun hmem => by
  rcases h.parameters p hp c hmem with hword | heq
  · rw [hword] at hc
    cases hc
  · exact hraw heq

theorem notMem_toString {n : ℕ} {c : Char} (hc : c.isDigit = false) : c ∉ (toString n).toList :=
  notMem_of_forall (fun _ => isDigit_of_mem_repr) hc

theorem discriminant?_variantLine (h : e.Spelled) :
    discriminant? (variantLine e) = some (e.variant, e.opcode.toNat) := by
  have hparts : parts? ["    ", " = ", ","] (variantLine e).toList =
      some ["", e.variant, toString e.opcode.toNat, ""] :=
    parts?_three ' ' ',' (by decide) (by decide) (by decide) (notMem_of_forall h.variant (by decide))
      (notMem_toString (by decide))
  rw [discriminant?, hparts]
  simp only [number?_toString, Option.map_some]

theorem count?_countLine (count : ℕ) : count? (countLine count) = some count := by
  have hparts : parts? ["    pub const COUNT: usize = ", ";"] (countLine count).toList =
      some ["", toString count, ""] :=
    parts?_two ';' (by decide) (by decide) (notMem_toString (by decide))
  rw [count?, hparts]
  exact number?_toString count

theorem opcodeArm?_opcodeArm (h : e.Spelled) :
    opcodeArm? (opcodeArm e) = some (some e.opcode.toNat, some e.variant) := by
  have hparts : parts? ["            ", " => Some(Self::", "),"] (opcodeArm e).toList =
      some ["", toString e.opcode.toNat, e.variant, ""] :=
    parts?_three ' ' ')' (by decide) (by decide) (by decide) (notMem_toString (by decide))
      (notMem_of_forall h.variant (by decide))
  rw [opcodeArm?, hparts]
  simp only [number?_toString, Option.map_some]

theorem mnemonicArm?_mnemonicArm (h : e.Spelled) :
    mnemonicArm? (mnemonicArm e) = some (e.variant, e.mnemonic) := by
  have hparts : parts? ["            Self::", " => \"", "\","] (mnemonicArm e).toList =
      some ["", e.variant, e.mnemonic, ""] :=
    parts?_three ' ' '"' (by decide) (by decide) (by decide) (notMem_of_forall h.variant (by decide))
      (notMem_of_forall h.mnemonic (by decide))
  rw [mnemonicArm?, hparts]
  rfl

/-! ### Methods -/

/-- The method of an entry. -/
def Method.ofEntry (e : Entry) : Method :=
  ⟨e.method, e.parameters.map fun p => (p.1, parameterType p.2)⟩

/-- The definition of an entry's method, which emits the entry with all that it is given. -/
def Definition.ofEntry (e : Entry) : Definition :=
  ⟨Method.ofEntry e, e.variant, e.parameters.map (·.1)⟩

theorem isItem_parameter (h : e.Spelled) {p : String × Kind} (hp : p ∈ e.parameters) :
    IsItem (p.1 ++ ": " ++ parameterType p.2) := by
  constructor
  · have htype : ',' ∉ (parameterType p.2).toList := by cases p.2 <;> decide
    exact notMem_toList_append (notMem_toList_append
      (h.notMem_parameter hp (by decide) (by decide)) (by decide)) htype
  · have hspace := h.notMem_parameter hp (c := ' ') (by decide) (by decide)
    rw [String.toList_append, String.toList_append]
    cases hname : p.1.toList with
    | nil => exact ⟨':', _, rfl, by decide⟩
    | cons c cs =>
      rw [hname, List.mem_cons, not_or] at hspace
      exact ⟨c, _, rfl, fun heq => hspace.1 heq.symm⟩

theorem isItem_argument (h : e.Spelled) {p : String × Kind} (hp : p ∈ e.parameters) :
    IsItem ("Value::from(" ++ p.1 ++ ")") := by
  constructor
  · exact notMem_toList_append (notMem_toList_append (by decide)
      (h.notMem_parameter hp (by decide) (by decide))) (by decide)
  · rw [String.toList_append, String.toList_append, List.append_assoc]
    exact ⟨'V', _, rfl, by decide⟩

theorem parameter?_eq (h : e.Spelled) {p : String × Kind} (hp : p ∈ e.parameters) :
    parameter? (p.1 ++ ": " ++ parameterType p.2) = some (p.1, parameterType p.2) := by
  rw [parameter?, parts?_one ':' (by decide) (h.notMem_parameter hp (by decide) (by decide))]

theorem argument?_eq (h : e.Spelled) {p : String × Kind} (hp : p ∈ e.parameters) :
    argument? ("Value::from(" ++ p.1 ++ ")") = some p.1 := by
  rw [argument?,
    parts?_two ')' (by decide) (by decide) (h.notMem_parameter hp (by decide) (by decide))]
  rfl

/-- The parameters of an entry's method, as they stand behind the receiver. -/
def parametersText (e : Entry) : String :=
  String.join (e.parameters.map fun p => ", " ++ p.1 ++ ": " ++ parameterType p.2)

theorem items_parametersText (h : e.Spelled) :
    items (parametersText e) = e.parameters.map fun p => p.1 ++ ": " ++ parameterType p.2 := by
  have hassoc (s t u v : String) : s ++ t ++ u ++ v = s ++ (t ++ u ++ v) := by
    simp only [String.append_assoc]
  have htext : parametersText e =
      String.join ((e.parameters.map fun p => p.1 ++ ": " ++ parameterType p.2).map (", " ++ ·)) := by
    rw [parametersText, List.map_map]
    exact congrArg String.join (List.map_congr_left fun p _ => hassoc _ _ _ _)
  rw [htext]
  apply items_join
  intro item hitem
  obtain ⟨p, hp, rfl⟩ := List.mem_map.mp hitem
  exact isItem_parameter h hp

theorem notMem_parametersText (h : e.Spelled) : ')' ∉ (parametersText e).toList := by
  intro hmem
  rw [parametersText, String.toList_join, List.mem_flatMap] at hmem
  obtain ⟨text, htext, hmem⟩ := hmem
  obtain ⟨p, hp, rfl⟩ := List.mem_map.mp htext
  have hname := h.notMem_parameter hp (c := ')') (by decide) (by decide)
  have htype : ')' ∉ (parameterType p.2).toList := by cases p.2 <;> decide
  simp [hname, htype] at hmem

/-- The signature of an entry's method is read from a line with any ending. -/
theorem method?_signature (h : e.Spelled) {ending : String} (hending : ending.toList ≠ []) :
    method? ending ("    " ++ signature e ++ ending) = some (Method.ofEntry e) := by
  have hparts : parts? ["    ", "fn ", "(&mut self", ") -> Result<(), EncodeError>", ending]
      ("    " ++ signature e ++ ending).toList =
      some ["", "", e.method, parametersText e, "", ""] :=
    parts?_enclosed '(' ')' (by decide) (by decide) (by decide) (by decide) hending
      (notMem_of_forall h.method (by decide)) (notMem_parametersText h)
  have hparameters := mapM_map_eq_some fun p hp => parameter?_eq h hp
  rw [method?, hparts]
  simp only [items_parametersText h, hparameters, Option.map_some]
  rfl

theorem method?_declarationLine (h : e.Spelled) :
    method? ";" (declarationLine e) = some (Method.ofEntry e) :=
  method?_signature h (by decide)

/-- The values that an entry's method passes on. -/
def valuesText (e : Entry) : String :=
  ", ".intercalate (e.parameters.map fun p => "Value::from(" ++ p.1 ++ ")")

theorem items_valuesText (h : e.Spelled) :
    items (valuesText e) = e.parameters.map fun p => "Value::from(" ++ p.1 ++ ")" := by
  apply items_intercalate
  intro item hitem
  obtain ⟨p, hp, rfl⟩ := List.mem_map.mp hitem
  exact isItem_argument h hp

theorem notMem_valuesText (h : e.Spelled) : ']' ∉ (valuesText e).toList := by
  intro hmem
  rw [valuesText, String.toList_intercalate] at hmem
  rcases mem_of_mem_intercalate hmem with hmem | ⟨cs, hcs, hmem⟩
  · exact absurd hmem (by decide)
  · obtain ⟨text, htext, rfl⟩ := List.mem_map.mp hcs
    obtain ⟨p, hp, rfl⟩ := List.mem_map.mp htext
    have hname := h.notMem_parameter hp (c := ']') (by decide) (by decide)
    simp [hname] at hmem

theorem call?_eq (h : e.Spelled) :
    call? ("        self.emit_opcode(Opcode::" ++ e.variant ++ " as u8, &[" ++ valuesText e ++ "])") =
      some (e.variant, e.parameters.map (·.1)) := by
  have hparts : parts? ["        self.emit_opcode(Opcode::", " as u8, &[", "])"]
      ("        self.emit_opcode(Opcode::" ++ e.variant ++ " as u8, &[" ++ valuesText e ++
        "])").toList = some ["", e.variant, valuesText e, ""] :=
    parts?_three ' ' ']' (by decide) (by decide) (by decide) (notMem_of_forall h.variant (by decide))
      (notMem_valuesText h)
  have harguments := mapM_map_eq_some fun p hp => argument?_eq h hp
  rw [call?, hparts]
  simp only [items_valuesText h, harguments, Option.map_some]

theorem definitions?_flatMap {entries : List Entry} (h : ∀ e ∈ entries, e.Spelled) :
    definitions? (entries.flatMap definitionLines) = some (entries.map Definition.ofEntry) := by
  induction entries with
  | nil => rfl
  | cons e entries ih =>
    obtain ⟨he, hentries⟩ := List.forall_mem_cons.mp h
    have hlines : (e :: entries).flatMap definitionLines =
        ("    " ++ signature e ++ " \x7b") ::
        ("        self.emit_opcode(Opcode::" ++ e.variant ++ " as u8, &[" ++ valuesText e ++ "])") ::
        "    \x7d" :: entries.flatMap definitionLines := rfl
    rw [hlines, definitions?, method?_signature he (by decide), call?_eq he, ih hentries]
    rfl

/-! ### Sections -/

section

variable {opening closing : String} {marks : List (String × String)} {skipped entries : List String}

theorem sections_append (h : opening ∉ skipped) (lines : List String) :
    sections ((opening, closing) :: marks) (skipped ++ lines) =
      sections ((opening, closing) :: marks) lines := by
  have hskipped : ∀ line ∈ skipped, (line != opening) = true := fun line hline =>
    bne_iff_ne.mpr fun heq => h (heq ▸ hline)
  rw [sections, sections, List.dropWhile_append_of_pos hskipped]

/-- A section has the entries between its opening and its closing line. -/
theorem sections_block (h : closing ∉ entries) (lines : List String) :
    sections ((opening, closing) :: marks) (block opening entries closing ++ lines) =
      entries :: sections marks lines := by
  have hentries : ∀ line ∈ entries, (line != closing) = true := fun line hline =>
    bne_iff_ne.mpr fun heq => h (heq ▸ hline)
  have hrest : ((block opening entries closing ++ lines).dropWhile (· != opening)).drop 1 =
      entries ++ closing :: lines := by
    rw [block, List.cons_append, List.append_assoc, List.dropWhile_cons_of_neg (by simp),
      List.drop_one, List.tail_cons, List.singleton_append]
  rw [sections, hrest, List.takeWhile_append_of_pos hentries,
    List.takeWhile_cons_of_neg (by simp), List.append_nil, List.dropWhile_append_of_pos hentries,
    List.dropWhile_cons_of_neg (by simp), List.drop_one, List.tail_cons]

theorem sections_last (h : closing ∉ entries) :
    sections [(opening, closing)] (block opening entries closing) = [entries] := by
  rw [← List.append_nil (block opening entries closing), sections_block h, sections]

end

/-- The number of spaces at the start of a line. -/
def indentation (line : String) : ℕ := (line.toList.takeWhile (· == ' ')).length

theorem IsCodeLine.indentation_eq {depth : ℕ} {line : String} (h : IsCodeLine depth line) :
    indentation line = depth := by
  obtain ⟨c, behind, hline, hspace, -⟩ := h.exists_start
  have hspaces : ∀ c ∈ List.replicate depth ' ', (c == ' ') = true := fun c hc =>
    beq_iff_eq.mpr (List.eq_of_mem_replicate hc)
  rw [indentation, hline, List.takeWhile_append_of_pos hspaces,
    List.takeWhile_cons_of_neg (by simpa using hspace), List.append_nil, List.length_replicate]

/-- A line is not among lines that are indented otherwise. -/
theorem notMem_map_of_isCodeLine {entries : List Entry} {write : Entry → String} {depth : ℕ}
    (h : ∀ e ∈ entries, IsCodeLine depth (write e)) {line : String}
    (hne : indentation line ≠ depth) : line ∉ entries.map write := by
  intro hmem
  obtain ⟨e, he, rfl⟩ := List.mem_map.mp hmem
  exact hne (h e he).indentation_eq

theorem notMem_definitionLines {entries : List Entry} (h : ∀ e ∈ entries, e.Spelled) {line : String}
    (hzero : indentation line = 0) : line ∉ entries.flatMap definitionLines := by
  intro hmem
  obtain ⟨e, he, hline⟩ := List.mem_flatMap.mp hmem
  obtain ⟨depth, hcode⟩ := exists_isCodeLine_of_mem_definitionLines (h e he) hline
  have hdepth := hcode.indentation_eq
  omega

theorem ne_countLine {count : ℕ} {line : String} (h : '[' ∈ line.toList) : line ≠ countLine count := by
  rintro rfl
  exact notMem_toList_append (notMem_toList_append (by decide) (notMem_toString (by decide)))
    (by decide) h

variable {fe : FrontEnd}

/-- The outline of a front end says of every entry what it is. -/
def outline (fe : FrontEnd) : Outline where
  discriminants := fe.entries.map fun e => (e.variant, e.opcode.toNat)
  count := fe.opcodeCount
  opcodeArms := fe.entries.map (fun e => (some e.opcode.toNat, some e.variant)) ++ [(none, none)]
  mnemonicArms := fe.entries.map fun e => (e.variant, e.mnemonic)
  declarations := fe.entries.map Method.ofEntry
  definitions := fe.entries.map Definition.ofEntry

theorem mapM_opcodeArm? (h : ∀ e ∈ fe.entries, e.Spelled) :
    (fe.entries.map opcodeArm ++ ["            _ => None,"]).mapM opcodeArm? =
      some fe.outline.opcodeArms := by
  have hlast : opcodeArm? "            _ => None," = some (none, none) := by decide +kernel
  rw [List.mapM_append, mapM_map_eq_some fun e he => opcodeArm?_opcodeArm (h e he),
    List.mapM_cons, hlast]
  rfl

/-- The outline is found in the lines of code. -/
theorem read?_code (h : ∀ e ∈ fe.entries, e.Spelled) : Outline.read? fe.code = some fe.outline := by
  -- no section is closed before its end
  have hvariants : "\x7d" ∉ fe.entries.map variantLine :=
    notMem_map_of_isCodeLine (fun e he => isCodeLine_variantLine (h e he)) (by decide)
  have hcount : "    #[must_use]" ∉ [countLine fe.opcodeCount] := fun hmem =>
    ne_countLine (by decide) (List.mem_singleton.mp hmem)
  have hopcodes : "        \x7d" ∉ fe.entries.map opcodeArm ++ ["            _ => None,"] := by
    rw [List.mem_append, not_or]
    exact ⟨notMem_map_of_isCodeLine (fun e he => isCodeLine_opcodeArm (h e he)) (by decide),
      by decide⟩
  have hmnemonics : "        \x7d" ∉ fe.entries.map mnemonicArm :=
    notMem_map_of_isCodeLine (fun e he => isCodeLine_mnemonicArm (h e he)) (by decide)
  have hdeclarations : "\x7d" ∉ fe.entries.map declarationLine :=
    notMem_map_of_isCodeLine (fun e he => isCodeLine_declarationLine (h e he)) (by decide)
  have hdefinitions : "\x7d" ∉ fe.entries.flatMap definitionLines :=
    notMem_definitionLines h (by decide)
  have hsections : sections Outline.marks fe.code = [fe.entries.map variantLine,
      [countLine fe.opcodeCount], fe.entries.map opcodeArm ++ ["            _ => None,"],
      fe.entries.map mnemonicArm, fe.entries.map declarationLine,
      fe.entries.flatMap definitionLines] := by
    rw [Outline.marks, code, sections_append (by decide), sections_block hvariants,
      sections_block hcount, sections_append (by decide), sections_block hopcodes,
      sections_append (by decide), sections_block hmnemonics, sections_append (by decide),
      sections_block hdeclarations, sections_last hdefinitions]
  rw [Outline.read?, hsections]
  dsimp only
  rw [mapM_map_eq_some fun e he => discriminant?_variantLine (h e he),
    mapM_map_eq_some fun e he => mnemonicArm?_mnemonicArm (h e he),
    mapM_map_eq_some fun e he => method?_declarationLine (h e he), mapM_opcodeArm? h,
    definitions?_flatMap h, List.mapM_cons, count?_countLine]
  rfl

end FrontEnd

end Bytecode
