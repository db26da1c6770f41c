import Bytecode.Wire.Value

/-!
# Literals

A literal is a constant as a document spells it, before it is given a kind. `Literal.toValue?` is
the value of a kind that the literal stands for.
-/

namespace Bytecode

/-- A constant as it is spelled in a document. -/
inductive Literal where
  /-- An integer of at most 64 bits with sign. -/
  | int (v : Int64)
  /-- A number that is not spelled as such an integer. -/
  | float (v : Double)
  | text (v : String)
  | bytes (v : List UInt8)
deriving DecidableEq, Repr, Inhabited

namespace Literal

/-- The value of a kind that the literal stands for, if the kind can hold it exactly. -/
def toValue? (k : Kind) : Literal → Option Value
  | int v =>
    match k with
    | .f64 => (Double.exactInt? v.toInt).map .f64
    | _ => k.ofInt? v.toInt
  | float v => k.coerce (.f64 v)
  | text v => k.coerce (.string v)
  | bytes v => k.coerce (.bytes v)

end Literal

end Bytecode
