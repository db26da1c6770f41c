import Bytecode.Name

/-!
# Names in generated code

A front end is Rust source, so the names of instructions and arguments are respelled as Rust
identifiers there: an instruction as an enum variant (`PushConst`) and as a method
(`emit_push_const`), an argument as a parameter (`arg_count`). Only ASCII letters change case.
-/

namespace Bytecode.FrontEnd

/-- A word with its first letter in upper case and the others in lower case. -/
def capitalize : List Char → List Char
  | [] => []
  | c :: cs => c.toUpper :: cs.map Char.toLower

/-- The enum variant of an instruction: its words capitalized and run together. -/
def variantName (name : String) : String :=
  match (words name.toList).flatMap capitalize with
  | [] => "X"
  | cs => String.ofList cs

/-- The words of a name in lower case, joined by underscores. -/
def snakeCase (name : String) : String := joinWords Char.toLower name

/-- The method that emits an instruction. -/
def methodName (name : String) : String := "emit_" ++ snakeCase name

/-- The reserved words that can be used as identifiers in raw form. -/
def reservedWords : List String := [
  "abstract", "as", "async", "await", "become", "box", "break", "const", "continue", "do", "dyn",
  "else", "enum", "extern", "false", "final", "fn", "for", "gen", "if", "impl", "in", "let", "loop",
  "macro", "match", "mod", "move", "mut", "override", "priv", "pub", "ref", "return", "static",
  "struct", "trait", "true", "try", "type", "typeof", "unsafe", "unsized", "use", "virtual",
  "where", "while", "yield"]

/-- The reserved words that have no raw form. -/
def pathWords : List String := ["self", "Self", "super", "crate"]

/-- The parameter of an argument: its words in lower case, marked as raw or extended when they make
up a reserved word; a name without words is called `arg`. -/
def parameterName (name : String) : String :=
  let plain := snakeCase name
  if plain ∈ pathWords then plain ++ "_"
  else if plain.isEmpty then "arg"
  else if plain ∈ reservedWords then "r#" ++ plain
  else plain

end Bytecode.FrontEnd
