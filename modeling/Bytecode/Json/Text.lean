import Bytecode.Json

/-!
# JSON texts

`Json.ofText?` is the JSON value that a text denotes, and nothing unless the whole text is one
value, with blanks around it, in the strict grammar: no leading zeros, no bare points, no raw control
characters, no trailing commas, no comments.

Every reader below takes a text and gives what it read with the rest of the text.
-/

namespace Bytecode.Json

/-- What is read at the start of a text, and the rest of the text. -/
abbrev Scan (α : Type) := List Char → Option (α × List Char)

/-! ### Blanks and words -/

/-- Whether a character is blank between tokens. -/
def isSpace (c : Char) : Bool := c == ' ' || c == '\n' || c == '\t' || c == '\r'

/-- Drops blanks. -/
def skipSpace (cs : List Char) : List Char := cs.dropWhile isSpace

/-- Reads a fixed word as a value. -/
def scanWord (word : String) (value : Json) : Scan Json := fun cs =>
  if word.toList.isPrefixOf cs then some (value, cs.drop word.length) else none

/-! ### Numbers -/

/-- Reads as many digits as there are. -/
def scanDigits (cs : List Char) : List Nat × List Char :=
  ((cs.takeWhile Char.isDigit).map fun c => c.toNat - '0'.toNat, cs.dropWhile Char.isDigit)

/-- Reads digits, at least one. -/
def scanDigits1 : Scan (List Nat) := fun cs =>
  match scanDigits cs with
  | ([], _) => none
  | result => some result

/-- Reads the digits before the point: a lone zero, or digits that do not start with zero. -/
def scanWhole : Scan (List Nat)
  | '0' :: cs => some ([0], cs)
  | cs => scanDigits1 cs

/-- Reads the point and the digits after it, if there is a point. -/
def scanFraction : Scan (Option (List Nat))
  | '.' :: cs => (scanDigits1 cs).map fun (digits, cs) => (some digits, cs)
  | cs => some (none, cs)

/-- Reads the digits of an exponent with their sign. -/
def scanSigned : Scan (Bool × List Nat)
  | '-' :: cs => (scanDigits1 cs).map fun (digits, cs) => ((true, digits), cs)
  | '+' :: cs => (scanDigits1 cs).map fun (digits, cs) => ((false, digits), cs)
  | cs => (scanDigits1 cs).map fun (digits, cs) => ((false, digits), cs)

/-- Reads an exponent, if there is one. -/
def scanExponent : Scan (Option (Bool × List Nat))
  | c :: cs =>
    if c == 'e' || c == 'E' then (scanSigned cs).map fun (e, cs) => (some e, cs)
    else some (none, c :: cs)
  | [] => some (none, [])

/-- Reads a number without its sign. -/
def scanUnsigned (negative : Bool) : Scan Number := fun cs => do
  let (whole, cs) ← scanWhole cs
  let (fraction, cs) ← scanFraction cs
  let (exponent, cs) ← scanExponent cs
  return (⟨negative, whole, fraction, exponent⟩, cs)

/-- Reads a number. -/
def scanNumber : Scan Number
  | '-' :: cs => scanUnsigned true cs
  | cs => scanUnsigned false cs

/-! ### Strings -/

/-- A piece of a string: a character, or a code unit that is half of a surrogate pair. -/
inductive Piece where
  | char (c : Char)
  /-- A code unit from `0xD800` to `0xDFFF`. -/
  | half (unit : Nat)

/-- Joins halves of surrogate pairs to characters; a half that stands alone makes no text. -/
def joinPieces : List Piece → Option (List Char)
  | [] => some []
  | .char c :: pieces => (c :: ·) <$> joinPieces pieces
  | .half high :: .half low :: pieces =>
    if high < 0xDC00 && 0xDC00 ≤ low then
      (Char.ofNat (0x10000 + (high - 0xD800) * 0x400 + (low - 0xDC00)) :: ·) <$> joinPieces pieces
    else none
  | .half _ :: _ => none

/-- The value of a hexadecimal digit. -/
def hexValue? (c : Char) : Option Nat :=
  if c.isDigit then some (c.toNat - '0'.toNat)
  else if 'a' ≤ c && c ≤ 'f' then some (c.toNat - 'a'.toNat + 10)
  else if 'A' ≤ c && c ≤ 'F' then some (c.toNat - 'A'.toNat + 10)
  else none

/-- Reads the four hexadecimal digits of an escaped code unit. -/
def scanUnit : Scan Piece
  | a :: b :: c :: d :: cs => do
    let digits ← [a, b, c, d].mapM hexValue?
    let unit := digits.foldl (fun n d => 16 * n + d) 0
    return (if 0xD800 ≤ unit && unit < 0xE000 then .half unit else .char (Char.ofNat unit), cs)
  | _ => none

/-- Reads what follows a backslash. -/
def scanEscape : Scan Piece
  | '"' :: cs => some (.char '"', cs)
  | '\\' :: cs => some (.char '\\', cs)
  | '/' :: cs => some (.char '/', cs)
  | 'b' :: cs => some (.char '\x08', cs)
  | 'f' :: cs => some (.char '\x0c', cs)
  | 'n' :: cs => some (.char '\n', cs)
  | 'r' :: cs => some (.char '\r', cs)
  | 't' :: cs => some (.char '\t', cs)
  | 'u' :: cs => scanUnit cs
  | _ => none

/-- Reads a string up to its closing quote, after pieces read before; the fuel bounds the number of
pieces. -/
def scanPieces : (fuel : Nat) → (read : List Piece) → Scan (List Piece)
  | 0, _, _ => none
  | _ + 1, _, [] => none
  | fuel + 1, read, c :: cs =>
    if c == '"' then some (read.reverse, cs)
    else if c == '\\' then
      match scanEscape cs with
      | some (piece, cs) => scanPieces fuel (piece :: read) cs
      | none => none
    -- Control characters must be escaped.
    else if c.toNat < 0x20 then none
    else scanPieces fuel (.char c :: read) cs

/-- Reads a string after its opening quote. -/
def scanString : Scan (Option String) := fun cs => do
  let (pieces, cs) ← scanPieces (cs.length + 1) [] cs
  return ((joinPieces pieces).map String.ofList, cs)

/-! ### Values -/

mutual

/-- Reads a value, blanks before it skipped; the fuel bounds the number of steps. -/
def scanValue : (fuel : Nat) → Scan Json
  | 0, _ => none
  | fuel + 1, cs =>
    match skipSpace cs with
    | '{' :: cs =>
      match skipSpace cs with
      | '}' :: cs => some (.object [], cs)
      | cs => scanMembers fuel [] cs
    | '[' :: cs =>
      match skipSpace cs with
      | ']' :: cs => some (.array [], cs)
      | cs => scanItems fuel [] cs
    | '"' :: cs => (scanString cs).map fun (text, cs) => (.string text, cs)
    | 'n' :: cs => scanWord "null" .null ('n' :: cs)
    | 't' :: cs => scanWord "true" (.bool true) ('t' :: cs)
    | 'f' :: cs => scanWord "false" (.bool false) ('f' :: cs)
    | cs => (scanNumber cs).map fun (token, cs) => (.number token, cs)

/-- Reads the items of an array up to its end, after items read before. -/
def scanItems : (fuel : Nat) → (read : List Json) → Scan Json
  | 0, _, _ => none
  | fuel + 1, read, cs =>
    match scanValue fuel cs with
    | none => none
    | some (item, cs) =>
      match skipSpace cs with
      | ',' :: cs => scanItems fuel (item :: read) cs
      | ']' :: cs => some (.array (item :: read).reverse, cs)
      | _ => none

/-- Reads the members of an object up to its end, after members read before. -/
def scanMembers : (fuel : Nat) → (read : List (Option String × Json)) → Scan Json
  | 0, _, _ => none
  | fuel + 1, read, cs =>
    match skipSpace cs with
    | '"' :: cs =>
      match scanString cs with
      | none => none
      | some (key, cs) =>
        match skipSpace cs with
        | ':' :: cs =>
          match scanValue fuel cs with
          | none => none
          | some (value, cs) =>
            match skipSpace cs with
            | ',' :: cs => scanMembers fuel ((key, value) :: read) cs
            | '}' :: cs => some (.object ((key, value) :: read).reverse, cs)
            | _ => none
        | _ => none
    | _ => none

end

/-- The value that a text denotes. Every two steps of reading take at least one character, which
bounds the fuel. -/
def ofText? (text : String) : Option Json :=
  let cs := text.toList
  match scanValue (2 * cs.length + 2) cs with
  | some (value, rest) => if (skipSpace rest).isEmpty then some value else none
  | none => none

end Bytecode.Json
