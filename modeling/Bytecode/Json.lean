import Bytecode.Json.Number

/-!
# JSON values

A JSON text as a tree. Nothing is interpreted that a reader might want to skip: numbers are tokens,
a string knows whether its escapes make up a text at all, and an object keeps all its members in
order.
-/

namespace Bytecode

/-- A JSON value. -/
inductive Json where
  | null
  | bool (value : Bool)
  | number (token : Json.Number)
  /-- A string, with its text unless an escape of half a surrogate pair stands alone. -/
  | string (text : Option String)
  | array (items : List Json)
  /-- An object, with its members in order. -/
  | object (members : List (Option String × Json))
deriving Inhabited

namespace Json

/-- The text of a string. -/
def toText? : Json → Option String
  | string text => text
  | _ => none

/-- The integer of a number that is an integer token, if it is from `low` to `high`. -/
def toIntIn? (low high : Int) : Json → Option Int
  | number token => token.toInt?.filter fun i => low ≤ i && i ≤ high
  | _ => none

/-- The items of an array, each converted. -/
def toListOf? {α : Type} (convert : Json → Option α) : Json → Option (List α)
  | array items => items.mapM convert
  | _ => none

/-- The members of an object whose keys are known, in a fixed order of keys. Every key must be a
text, and none of the known keys may occur twice; members with other keys are skipped. -/
def knownMembers? (keys : List String) (members : List (Option String × Json)) :
    Option (List (Option Json)) := do
  let members ← members.mapM fun member => member.1.map fun key => (key, member.2)
  if keys.all fun key => (members.filter (·.1 == key)).length ≤ 1 then
    return keys.map fun key => members.lookup key
  else none

/-- The fields of a record. A record is an object with known keys, or an array of the fields in
order, of which those at the end may be missing. -/
def fields? (keys : List String) : Json → Option (List (Option Json))
  | object members => knownMembers? keys members
  | array items =>
    if items.length ≤ keys.length then
      some (items.map some ++ List.replicate (keys.length - items.length) none)
    else none
  | _ => none

end Json

end Bytecode
