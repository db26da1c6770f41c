/-!
# Names

Everything a format declares has a name: words of ASCII letters, digits and underscores, separated
by single spaces. `isIdentifier` says which texts are names. Spaces and underscores both separate
words when a name is folded to another spelling; `words` is that division, and `mnemonic` joins the
words, in upper case, by underscores.
-/

namespace Bytecode

/-! ### Words -/

/-- Whether a character separates words. -/
def isWordBreak (c : Char) : Bool := c == ' ' || c == '_'

/-- The non-empty stretches between word breaks. -/
def words : List Char → List (List Char)
  | [] => []
  | c :: cs =>
    if isWordBreak c then words cs
    else
      (c :: cs.takeWhile fun d => !isWordBreak d) :: words (cs.dropWhile fun d => !isWordBreak d)
termination_by cs => cs.length
decreasing_by
  · simp
  · have := (List.dropWhile_sublist (l := cs) fun d => !isWordBreak d).length_le
    simp
    omega

/-- The words of a name, each respelled, joined by underscores. -/
def joinWords (respell : Char → Char) (name : String) : String :=
  String.ofList (['_'].intercalate ((words name.toList).map (·.map respell)))

/-- The mnemonic of an instruction name: its words in upper case, joined by underscores. Only ASCII
letters change. -/
def mnemonic (name : String) : String := joinWords Char.toUpper name

/-! ### Identifiers -/

/-- Whether a character may start a name. -/
def isNameStart (c : Char) : Bool := c.isAlpha || c == '_'

/-- Whether a character may stand inside a name. -/
def isNameChar (c : Char) : Bool := c.isAlphanum || c == '_' || c == ' '

/-- Whether two spaces follow each other. -/
def hasDoubleSpace : List Char → Bool
  | c :: d :: cs => (c == ' ' && d == ' ') || hasDoubleSpace (d :: cs)
  | _ => false

/-- Whether a text is a name: it starts with a letter or an underscore, goes on with letters, digits
and underscores, and may separate words by single spaces. -/
def isIdentifier (name : String) : Bool :=
  match name.toList with
  | [] => false
  | c :: cs =>
    isNameStart c && (c :: cs).getLast? != some ' ' && !hasDoubleSpace (c :: cs) &&
      cs.all isNameChar

end Bytecode
