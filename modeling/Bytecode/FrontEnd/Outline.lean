import Bytecode.FrontEnd.Comment

/-!
# Reading front ends

The outline of a front end is what its source text says to a reader who does not know how it came
about: the table of the enum, the arms of its two conversions, the methods of the trait, and for
each method of the implementation what it calls. `Outline.read?` finds it in the lines of code,
that is, in the lines that are neither blank nor comments. The sections of the text are found one
after another, each by the line that opens it and the line that closes it, and everything in a
section has to be an entry; a line is taken apart by the marks between its parts.
-/

namespace Bytecode.FrontEnd

/-! ### Lines of code -/

/-- Whether a line has something behind the indentation that is no comment. -/
def isCode (line : List Char) : Bool :=
  match line.dropWhile (· == ' ') with
  | [] => false
  | '/' :: '/' :: _ => false
  | _ => true

/-- The lines of code of a text. -/
def codeLines (text : String) : List String :=
  ((textLines text.toList).filter isCode).map String.ofList

/-- The sections of a text, one for each pair of an opening and a closing line: the lines between the
first opening line and the first closing line behind it. The next section is behind that. -/
def sections : (marks : List (String × String)) → List String → List (List String)
  | [], _ => []
  | (opening, closing) :: marks, lines =>
    let lines := (lines.dropWhile (· != opening)).drop 1
    lines.takeWhile (· != closing) :: sections marks ((lines.dropWhile (· != closing)).drop 1)

/-! ### Parts of lines -/

/-- What stands before and behind the first occurrence of a mark. -/
def cut? (mark : List Char) : List Char → Option (List Char × List Char)
  | [] => none
  | c :: cs =>
    match mark.isPrefixOf? (c :: cs) with
    | some rest => some ([], rest)
    | none => (cut? mark cs).map fun (before, behind) => (c :: before, behind)

/-- What stands before, between and behind marks that follow one another in a text. -/
def parts? : (marks : List String) → List Char → Option (List String)
  | [], cs => some [String.ofList cs]
  | mark :: marks, cs => do
    let (part, rest) ← cut? mark.toList cs
    let parts ← parts? marks rest
    return String.ofList part :: parts

/-- The items between commas, without spaces before them. -/
def items (text : String) : List String :=
  let pieces := (text.toList.splitOn ',').map (List.dropWhile (· == ' '))
  (pieces.filter (!·.isEmpty)).map String.ofList

/-- The number that decimal digits denote. -/
def number? (text : String) : Option Nat :=
  if text != "" && text.toList.all Char.isDigit then some (Nat.ofDigitChars 10 text.toList 0)
  else none

/-! ### Entries -/

/-- A variant of the enum with its value. -/
def discriminant? (line : String) : Option (String × Nat) :=
  match parts? ["    ", " = ", ","] line.toList with
  | some ["", variant, value, ""] => (number? value).map fun n => (variant, n)
  | _ => none

/-- The count of the opcodes. -/
def count? (line : String) : Option Nat :=
  match parts? ["    pub const COUNT: usize = ", ";"] line.toList with
  | some ["", count, ""] => number? count
  | _ => none

/-- An arm of the conversion from bytes: a byte, or none for any byte, and the variant that comes of
it, if any. -/
def opcodeArm? (line : String) : Option (Option Nat × Option String) :=
  match parts? ["            ", " => Some(Self::", "),"] line.toList with
  | some ["", value, variant, ""] => (number? value).map fun n => (some n, some variant)
  | _ => if line = "            _ => None," then some (none, none) else none

/-- An arm of the conversion to mnemonics. -/
def mnemonicArm? (line : String) : Option (String × String) :=
  match parts? ["            Self::", " => \"", "\","] line.toList with
  | some ["", variant, mnemonic, ""] => some (variant, mnemonic)
  | _ => none

/-- The signature of a method, apart from what all of them share. -/
structure Method where
  name : String
  /-- The parameters in order, with their types. -/
  parameters : List (String × String)
deriving DecidableEq, Repr, Inhabited

/-- A parameter with its type. -/
def parameter? (item : String) : Option (String × String) :=
  match parts? [": "] item.toList with
  | some [name, type] => some (name, type)
  | _ => none

/-- The signature in a line that has a given ending. -/
def method? (ending line : String) : Option Method :=
  match parts? ["    ", "fn ", "(&mut self", ") -> Result<(), EncodeError>", ending] line.toList with
  | some ["", "", name, parameters, "", ""] =>
    ((items parameters).mapM parameter?).map fun parameters => ⟨name, parameters⟩
  | _ => none

/-- A parameter that is passed on as a value. -/
def argument? (item : String) : Option String :=
  match parts? ["Value::from(", ")"] item.toList with
  | some ["", name, ""] => some name
  | _ => none

/-- The call of a method's body: the variant and the values that are passed on. -/
def call? (line : String) : Option (String × List String) :=
  match parts? ["        self.emit_opcode(Opcode::", " as u8, &[", "])"] line.toList with
  | some ["", variant, values, ""] => ((items values).mapM argument?).map (Prod.mk variant)
  | _ => none

/-- A method of the implementation. -/
structure Definition where
  method : Method
  /-- The variant whose opcode is emitted. -/
  variant : String
  /-- The parameters that are passed on as arguments. -/
  arguments : List String
deriving DecidableEq, Repr, Inhabited

/-- The methods of the implementation, of three lines each. -/
def definitions? : List String → Option (List Definition)
  | [] => some []
  | head :: body :: last :: lines => do
    let method ← method? " \x7b" head
    let (variant, arguments) ← call? body
    guard (last = "    \x7d")
    let definitions ← definitions? lines
    return ⟨method, variant, arguments⟩ :: definitions
  | _ => none

/-! ### Outlines -/

/-- What the source text of a front end says. -/
structure Outline where
  /-- The variants of the enum, with their values. -/
  discriminants : List (String × Nat)
  /-- The count of the opcodes. -/
  count : Nat
  /-- The arms of the conversion from bytes. -/
  opcodeArms : List (Option Nat × Option String)
  /-- The arms of the conversion to mnemonics. -/
  mnemonicArms : List (String × String)
  /-- The methods of the trait. -/
  declarations : List Method
  /-- The methods of the implementation. -/
  definitions : List Definition
deriving DecidableEq, Repr, Inhabited

namespace Outline

/-- The lines around the sections of a front end. -/
def marks : List (String × String) :=
  [("pub enum Opcode \x7b", "\x7d"), ("impl Opcode \x7b", "    #[must_use]"),
    ("        match b \x7b", "        \x7d"), ("        match self \x7b", "        \x7d"),
    ("pub trait Emit \x7b", "\x7d"), ("impl Emit for Encoder<'_> \x7b", "\x7d")]

/-- The outline that is found in lines of code. -/
def read? (lines : List String) : Option Outline := do
  let [variants, counts, opcodes, mnemonics, signatures, bodies] := sections marks lines | none
  let discriminants ← variants.mapM discriminant?
  let [count] ← counts.mapM count? | none
  let opcodeArms ← opcodes.mapM opcodeArm?
  let mnemonicArms ← mnemonics.mapM mnemonicArm?
  let declarations ← signatures.mapM (method? ";")
  let definitions ← definitions? bodies
  return ⟨discriminants, count, opcodeArms, mnemonicArms, declarations, definitions⟩

/-- The variant that comes of a byte, by the first arm that it matches. -/
def ofByte? (o : Outline) (b : UInt8) : Option String :=
  (o.opcodeArms.find? fun arm => arm.1.all (· == b.toNat)).bind (·.2)

/-- The value of a variant. -/
def toByte? (o : Outline) (variant : String) : Option Nat := o.discriminants.lookup variant

/-- The mnemonic of a variant. -/
def mnemonic? (o : Outline) (variant : String) : Option String := o.mnemonicArms.lookup variant

end Outline

end Bytecode.FrontEnd
