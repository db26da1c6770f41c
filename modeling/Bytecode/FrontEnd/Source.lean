import Bytecode.FrontEnd.Comment
import Bytecode.FrontEnd.Entry

/-!
# The source text of a front end

`FrontEnd.sourceText` gives the Rust source of a typed front end for a format: an enum of the opcodes
with conversions, and a trait with one method per instruction that checks argument types at compile
time, implemented for the encoder. Entries come in the order of their opcodes.

The text is laid out line by line. Descriptions appear in comments only, and so does the title of the
format as far as its first line goes.
-/

namespace Bytecode

/-- A typed front end for a format. -/
structure FrontEnd where
  /-- Where the format was read from. -/
  source : String
  title : String
  /-- One more than the largest opcode. -/
  opcodeCount : Nat
  /-- The entries, in the order of their opcodes. -/
  entries : List FrontEnd.Entry
deriving Repr, Inhabited

namespace FrontEnd

/-- The front end for a format, unless names clash in it. -/
def ofFormat (f : Format) (source : String) : Except Clash FrontEnd :=
  let entries := f.instructions.map Entry.ofInstruction
  match clash? entries with
  | some clash => .error clash
  | none =>
    .ok ⟨source, f.title, f.opcodeCount, entries.mergeSort fun a b => a.opcode ≤ b.opcode⟩

/-! ### Entries in code -/

/-- The parameter type that carries a kind. -/
def parameterType : Kind → String
  | .i32 => "i32"
  | .u32 => "u32"
  | .f64 => "f64"
  | .u8 => "u8"
  | .bytes => "&[u8]"
  | .string => "&str"

/-- The signature of an entry's method. -/
def signature (e : Entry) : String :=
  let parameters := e.parameters.map fun p => ", " ++ p.1 ++ ": " ++ parameterType p.2
  "fn " ++ e.method ++ "(&mut self" ++ String.join parameters ++ ") -> Result<(), EncodeError>"

/-- The enum variant of an entry, under its description. -/
def variantLines (e : Entry) : List String :=
  (match e.doc with
    | some doc => commentLines "    " (sentence doc)
    | none => []) ++
  ["    " ++ e.variant ++ " = " ++ toString e.opcode.toNat ++ ","]

/-- The match arm from an entry's opcode to its variant. -/
def opcodeArm (e : Entry) : String :=
  "            " ++ toString e.opcode.toNat ++ " => Some(Self::" ++ e.variant ++ "),"

/-- The match arm from an entry's variant to its mnemonic. -/
def mnemonicArm (e : Entry) : String :=
  "            Self::" ++ e.variant ++ " => \"" ++ e.mnemonic ++ "\","

/-- The declaration of an entry's method, under a comment. -/
def declarationLines (e : Entry) : List String :=
  (match e.doc with
    | some doc =>
      commentLines "    " ("Emits an instruction to " ++ String.ofList (stripSentence doc) ++ ".")
    | none => ["    /// Emits `" ++ e.mnemonic ++ "`."]) ++
  ["    " ++ signature e ++ ";"]

/-- The definition of an entry's method. -/
def definitionLines (e : Entry) : List String :=
  let values := e.parameters.map fun p => "Value::from(" ++ p.1 ++ ")"
  ["    " ++ signature e ++ " \x7b",
   "        self.emit_opcode(Opcode::" ++ e.variant ++ " as u8, &[" ++ ", ".intercalate values ++
     "])",
   "    \x7d"]

/-! ### The whole text -/

/-- The lines before the first item. -/
def preambleLines (fe : FrontEnd) : List String :=
  ["// Generated by cartridge_codegen from " ++ fe.source ++ ". Do not edit.",
   "",
   "use cartridge::encoder::\x7bEncodeError, Encoder\x7d;",
   "use cartridge::types::Value;",
   ""]

/-- The enum of the opcodes. -/
def enumLines (fe : FrontEnd) : List String :=
  ["/// Opcodes of the `" ++ fe.title ++ "` format.",
   "#[derive(Copy, Clone, Debug, PartialEq, Eq, Hash)]",
   "#[repr(u8)]",
   "pub enum Opcode \x7b"] ++
  fe.entries.flatMap variantLines ++
  ["\x7d",
   ""]

/-- The conversions of the enum. -/
def conversionLines (fe : FrontEnd) : List String :=
  ["impl Opcode \x7b",
   "    /// One past the largest opcode.",
   "    pub const COUNT: usize = " ++ toString fe.opcodeCount ++ ";",
   "",
   "    /// Returns the opcode with byte value `b`.",
   "    #[must_use]",
   "    pub fn from_u8(b: u8) -> Option<Self> \x7b",
   "        match b \x7b"] ++
  fe.entries.map opcodeArm ++
  ["            _ => None,",
   "        \x7d",
   "    \x7d",
   "",
   "    /// Returns the disassembly mnemonic.",
   "    #[must_use]",
   "    pub fn mnemonic(self) -> &'static str \x7b",
   "        match self \x7b"] ++
  fe.entries.map mnemonicArm ++
  ["        \x7d",
   "    \x7d",
   "\x7d",
   ""]

/-- The trait of the emitters. -/
def traitLines (fe : FrontEnd) : List String :=
  ["/// Typed emitters for the `" ++ fe.title ++ "` format.",
   "pub trait Emit \x7b"] ++
  fe.entries.flatMap declarationLines ++
  ["\x7d",
   ""]

/-- The implementation of the trait. -/
def implementationLines (fe : FrontEnd) : List String :=
  ["impl Emit for Encoder<'_> \x7b"] ++
  [""].intercalate (fe.entries.map definitionLines) ++
  ["\x7d"]

/-- The source text of a front end. -/
def text (fe : FrontEnd) : String :=
  unlines (fe.preambleLines ++ fe.enumLines ++ fe.conversionLines ++ fe.traitLines ++
    fe.implementationLines)

/-- The source text of a front end for a format, unless names clash in it. -/
def sourceText (f : Format) (source : String) : Except Clash String := text <$> ofFormat f source

end FrontEnd

end Bytecode
