import Bytecode.Text.Blank
import Bytecode.Text.Uppercase

/-!
# Documentation comments

The description of an instruction is put into documentation comments: as a sentence of its own, or
as the end of one. A comment of several lines has the comment mark on every line, so that no part of
a description ever stands outside a comment.
-/

namespace Bytecode.FrontEnd

/-- Puts a character in front of the first line. -/
def pushFront (c : Char) : List (List Char) → List (List Char)
  | [] => [[c]]
  | line :: lines => (c :: line) :: lines

/-- The lines of a text. Each ends with a line feed, before which one carriage return belongs to the
line end; the last line may lack its end, and then a carriage return belongs to the line. -/
def textLines : List Char → List (List Char)
  | [] => []
  | '\n' :: cs => [] :: textLines cs
  | '\r' :: '\n' :: cs => [] :: textLines cs
  | c :: cs => pushFront c (textLines cs)

/-- A text without white space around it and without full stops at its end. -/
def stripSentence (text : String) : List Char :=
  Text.dropEndWhile (· == '.') (Text.trim text.toList)

/-- A text as a sentence: its first letter in upper case, a full stop at its end. -/
def sentence (text : String) : String :=
  match stripSentence text with
  | [] => ""
  | c :: cs => String.ofList (Text.uppercase c ++ cs ++ ['.'])

/-- The lines of a documentation comment. -/
def commentLines (indent text : String) : List String :=
  (textLines text.toList).map fun line =>
    if line.isEmpty then indent ++ "///" else indent ++ "/// " ++ String.ofList line

/-- A text made of lines, each with its line feed. -/
def unlines (lines : List String) : String := String.join (lines.map (· ++ "\n"))

end Bytecode.FrontEnd
