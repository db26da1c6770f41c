import Bytecode.Name

/-!
# Spelling names out

A speller folds a name as `joinWords` does, but writes the new text while it goes through the name:
it cuts the name at every word break, passes over the pieces that are empty, and puts the others
behind what it has written. An underscore goes in front of a piece unless nothing has been written
yet.
-/

namespace Bytecode.Speller

/-- What is between word breaks, empty pieces left out. -/
def pieces (cs : List Char) : List (List Char) :=
  (cs.splitOnP isWordBreak).filter (!·.isEmpty)

/-- Writes a piece behind a text, character by character. -/
def write (respell : Char → Char) (text : String) (piece : List Char) : String :=
  let opened := if text.isEmpty then text else text.push '_'
  piece.foldl (fun text c => text.push (respell c)) opened

/-- Writes all pieces of a name, one after another. -/
def spell (respell : Char → Char) (name : String) : String :=
  (pieces name.toList).foldl (write respell) ""

end Bytecode.Speller
