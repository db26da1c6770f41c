/-!
# Sets of characters

A set of characters given by its boundaries: the code points at which membership changes, in
increasing order, starting from outside. So a code point belongs to the set exactly when an odd
number of boundaries lie at or below it.
-/

namespace Bytecode.Text

/-- A set of characters, as the increasing list of the code points where membership changes. -/
structure CharSet where
  /-- The boundaries, in increasing order. -/
  bounds : List Nat

/-- Whether a character belongs to the set. -/
def CharSet.contains (s : CharSet) (c : Char) : Bool :=
  (s.bounds.takeWhile (· ≤ c.toNat)).length % 2 == 1

end Bytecode.Text
