import Bytecode.Number.Rounding

/-!
# JSON numbers

A number token is kept as it is written, because its spelling matters: an integer token denotes an
integer, and only the other tokens (and minus zero) are floating-point numbers.

The double of a token is computed in three roundings at most. The digits are gathered in a 64-bit
word; digits that no longer fit it are dropped, those before the point counting as powers of ten.
The word is rounded to a double, and that is multiplied or divided, with rounding, by a power of ten.
A result beyond the largest double is refused.
-/

namespace Bytecode.Json

/-- A number as it is written. -/
structure Number where
  /-- Whether there is a minus sign. -/
  negative : Bool
  /-- The digits before the point. -/
  whole : List Nat
  /-- The digits after the point, if there is one. -/
  fraction : Option (List Nat)
  /-- The exponent of ten, if there is one: whether it is negative, and its digits. -/
  exponent : Option (Bool × List Nat)
deriving DecidableEq, Repr, Inhabited

/-- The natural number with the given decimal digits, most significant first. -/
def ofDigits (digits : List Nat) : Nat := digits.foldl (fun n d => 10 * n + d) 0

namespace Number

/-- The integer that an integer token denotes; minus zero is not an integer. -/
def toInt? (n : Number) : Option Int :=
  if n.fraction.isSome || n.exponent.isSome then none
  else
    match n.negative, ofDigits n.whole with
    | false, m => some m
    | true, 0 => none
    | true, m => some (-(m : Int))

/-- A significand that fits a 64-bit word, and the power of ten that scales it. -/
structure Scaled where
  significand : Nat
  exponent : Int
  /-- Whether every digit so far has fitted the word. -/
  exact : Bool

/-- The first number that does not fit a 64-bit word. -/
def wordLimit : Nat := 2 ^ 64

/-- Takes in a digit before the point. -/
def Scaled.pushWhole (s : Scaled) (digit : Nat) : Scaled :=
  if s.exact && 10 * s.significand + digit < wordLimit then
    { s with significand := 10 * s.significand + digit }
  else { s with exponent := s.exponent + 1, exact := false }

/-- Takes in a digit after the point. -/
def Scaled.pushFraction (s : Scaled) (digit : Nat) : Scaled :=
  if s.exact && 10 * s.significand + digit < wordLimit then
    { s with significand := 10 * s.significand + digit, exponent := s.exponent - 1 }
  else { s with exact := false }

/-- The digits of a token as a scaled word, its written exponent aside. A digit after the point is
tried anew, even when one before the point did not fit. -/
def scaled (n : Number) : Scaled :=
  let whole := n.whole.foldl Scaled.pushWhole ⟨0, 0, true⟩
  (n.fraction.getD []).foldl Scaled.pushFraction { whole with exact := true }

/-- The largest power of ten that is a finite double. -/
def powerLimit : Nat := 308

/-- Scales a non-negative double by a power of ten. Exponents below the range of powers are taken in
steps of the largest power, until the double is zero. -/
def scaleByTen (x : Double) (exponent : Int) : Option Double :=
  if exponent.natAbs ≤ powerLimit then
    let power := Double.ofNat (10 ^ exponent.natAbs)
    if 0 ≤ exponent then
      let product := x.mul power
      if product.isFinite then some product else none
    else
      some (x.div power)
  else if x.isZero then some x
  else if 0 ≤ exponent then none
  else scaleByTen (x.div (Double.ofNat (10 ^ powerLimit))) (exponent + powerLimit)
termination_by (-exponent).toNat
decreasing_by
  unfold powerLimit at *
  omega

/-- The first number that is too large for a written exponent to be taken literally. -/
def exponentLimit : Nat := 2 ^ 31

/-- The magnitude of the double of a token. -/
def magnitude? (n : Number) : Option Double :=
  let scaled := n.scaled
  match n.exponent with
  | none => scaleByTen (Double.ofNat scaled.significand) scaled.exponent
  | some (negative, digits) =>
    let written := ofDigits digits
    if exponentLimit ≤ written then
      if scaled.significand ≠ 0 && !negative then none else some (Double.ofNat 0)
    else
      scaleByTen (Double.ofNat scaled.significand)
        (if negative then scaled.exponent - written else scaled.exponent + written)

/-- The double of a token, unless it lies beyond the largest double. -/
def toDouble? (n : Number) : Option Double := n.magnitude?.map (Double.withSign n.negative)

end Number

end Bytecode.Json
