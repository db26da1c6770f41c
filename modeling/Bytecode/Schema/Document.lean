import Bytecode.Json.Text
import Bytecode.Schema

/-!
# Schema documents

A schema is written down as a JSON text. `Schema.ofText?` reads one; it refuses a text that is not
JSON and a document with a missing, repeated or ill-typed field, without saying which.

Every record (the document, a constant, a field, an instruction) is an object, or an array of its
fields in order. Unknown keys of objects are skipped with whatever they hold.
-/

namespace Bytecode

namespace Json

/-- The kind with a given spelling; two kinds have a second spelling. -/
def spelledKind? (s : String) : Option Kind :=
  match s with
  | "number" => some .f64
  | "bool" => some .u8
  | s => Kind.ofName? s

/-- The kind that a value names: a string, or an object whose one key is the name. -/
def toKind? : Json → Option Kind
  | string text => text.bind spelledKind?
  | object [(text, null)] => text.bind spelledKind?
  | _ => none

/-- The literal that a value spells: an integer of 64 bits, any other number, a text, or an array of
bytes. -/
def toLiteral? : Json → Option Literal
  | number token =>
    match (number token).toIntIn? (-2 ^ 63) (2 ^ 63 - 1) with
    | some i => some (.int (Int64.ofInt i))
    -- Fractions, written exponents, minus zero and integers of more than 64 bits.
    | none => token.toDouble?.map .float
  | string text => text.map .text
  | array items =>
    (items.mapM (toIntIn? 0 255)).map fun bytes => .bytes (bytes.map fun i => UInt8.ofNat i.toNat)
  | _ => none

/-- A value that may be absent or null, and is converted otherwise. -/
def toOption? {α : Type} (convert : Json → Option α) : Option Json → Option (Option α)
  | none | some null => some none
  | some value => (convert value).map some

/-- A list that may be absent, which makes it empty. -/
def toListOrEmpty? {α : Type} (convert : Json → Option α) : Option Json → Option (List α)
  | none => some []
  | some value => value.toListOf? convert

/-- A field. -/
def toField? (value : Json) : Option Field := do
  let [some name, some kind] ← value.fields? ["name", "type"] | none
  return ⟨← name.toText?, ← kind.toKind?⟩

/-- A header constant. -/
def toConstantDecl? (value : Json) : Option ConstantDecl := do
  let [some name, some kind, some literal] ← value.fields? ["name", "type", "value"] | none
  return ⟨← name.toText?, ← kind.toKind?, ← literal.toLiteral?⟩

/-- A declared opcode, of which any unsigned 32-bit integer is well-formed. -/
def toCode? (value : Json) : Option UInt32 :=
  (value.toIntIn? 0 (2 ^ 32 - 1)).map fun i => UInt32.ofNat i.toNat

/-- An instruction. -/
def toInstructionDecl? (value : Json) : Option InstructionDecl := do
  let [some name, code, doc, args] ← value.fields? ["name", "code", "desc", "args"] | none
  return {
    name := ← name.toText?
    code := ← toOption? toCode? code
    doc := ← toOption? toText? doc
    args := ← toListOrEmpty? toField? args }

/-- A schema. -/
def toSchema? (value : Json) : Option Schema := do
  let keys := ["header", "counters", "chunks", "commonArgs", "instructions"]
  let [header, counters, chunks, commonArgs, instructions] ← value.fields? keys | none
  return {
    header := ← toListOrEmpty? toConstantDecl? header
    counters := ← toListOrEmpty? toField? counters
    chunks := ← toListOrEmpty? toField? chunks
    commonArgs := ← toListOrEmpty? toField? commonArgs
    instructions := ← toListOrEmpty? toInstructionDecl? instructions }

end Json

/-- The schema that a text describes. -/
def Schema.ofText? (text : String) : Option Schema := (Json.ofText? text).bind Json.toSchema?

end Bytecode
