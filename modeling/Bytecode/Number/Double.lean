import Bytecode.Number.Instances

/-!
# Double-precision numbers

A double is held as its 64-bit pattern and never computed with: bytes copied from the wire keep
not-a-number payloads and the sign of zero, and equality is equality of bits.

Read from the top, the pattern has a sign bit, an eleven-bit exponent field and a 52-bit fraction
field. A finite double denotes `± significand * 2 ^ scale`, a number whose exact value the functions
below use; `Double.toInt?` is the integer a double denotes, as far as integers and doubles
correspond one to one.
-/

namespace Bytecode

/-- A 64-bit binary floating-point number, held as its bit pattern. -/
structure Double where
  /-- The bit pattern, the sign in the most significant bit. -/
  bits : UInt64
deriving DecidableEq, Repr, Inhabited

namespace Double

/-! ### Fields -/

/-- Whether the sign bit is set. -/
def isNegative (x : Double) : Bool := decide (2 ^ 63 ≤ x.bits.toNat)

/-- The exponent field. -/
def exponent (x : Double) : Nat := x.bits.toNat / 2 ^ 52 % 2 ^ 11

/-- The fraction field. -/
def fraction (x : Double) : Nat := x.bits.toNat % 2 ^ 52

/-- Infinities and not-a-numbers are the patterns whose exponent field is all ones. -/
def isFinite (x : Double) : Bool := x.exponent != 2047

/-- A not-a-number has an exponent field of all ones and a fraction other than zero. -/
def isNaN (x : Double) : Bool := x.exponent == 2047 && x.fraction != 0

/-- Whether the double is one of the two zeros. -/
def isZero (x : Double) : Bool := x.exponent == 0 && x.fraction == 0

/-! ### The number denoted -/

/-- The integer significand: the fraction field, with the hidden bit unless the exponent field is
zero. -/
def significand (x : Double) : Nat := if x.exponent = 0 then x.fraction else 2 ^ 52 + x.fraction

/-- The power of two that scales the significand. -/
def scale (x : Double) : Int := (max x.exponent 1 : Nat) - 1075

/-- The magnitude of a finite double as a quotient of natural numbers. -/
def ratio (x : Double) : Nat × Nat :=
  if 0 ≤ x.scale then (x.significand * 2 ^ x.scale.toNat, 1)
  else (x.significand, 2 ^ (-x.scale).toNat)

/-- The double with a sign and a magnitude, the magnitude given as the 63 low bits of the pattern. -/
def ofMagnitude (negative : Bool) (magnitude : Nat) : Double :=
  ⟨UInt64.ofNat (magnitude + if negative then 2 ^ 63 else 0)⟩

/-! ### Integers -/

/-- The largest magnitude up to which every integer is a double. -/
def integerLimit : Nat := 2 ^ 53

/-- The integer that a finite double denotes, if it denotes one of magnitude at most
`integerLimit`. -/
def toInt? (x : Double) : Option Int :=
  if x.isFinite && x.ratio.1 % x.ratio.2 == 0 && x.ratio.1 / x.ratio.2 ≤ integerLimit then
    some (if x.isNegative then -(x.ratio.1 / x.ratio.2 : Nat) else (x.ratio.1 / x.ratio.2 : Nat))
  else
    none

end Double

end Bytecode
