import Bytecode.Number.Double

/-!
# Rounding to the nearest double

`Double.ofRatio` is the double nearest to a quotient of natural numbers, a tie going to the even
significand. All arithmetic is exact: the quotient is scaled by the power of two that leaves 53 bits
before the point (fewer below the smallest normal number), rounded once as an integer, and the
result put together with its exponent.

Patterns of non-negative doubles count up without gaps, so the scaled significand is *added* to the
exponent's contribution: a significand that rounds up to the next power of two carries into the
exponent field by itself.
-/

namespace Bytecode

/-- The natural number nearest to `num / den`, a tie going to the even one. -/
def roundDiv (num den : Nat) : Nat :=
  if 2 * (num % den) < den then num / den
  else if den < 2 * (num % den) then num / den + 1
  else num / den + num / den % 2

/-- The exponent of the largest power of two that is at most `num / den`, for positive arguments. -/
def floorLog2 (num den : Nat) : Int :=
  let guess : Int := (num.log2 : Int) - den.log2
  if den * 2 ^ guess.toNat ≤ num * 2 ^ (-guess).toNat then guess else guess - 1

namespace Double

/-- The magnitude of the infinities, which is one more than that of the largest finite double. -/
def infinityMagnitude : Nat := 2047 * 2 ^ 52

/-- The magnitude of the double nearest to `num / den`; too large a quotient gives the magnitude of
infinity. -/
def nearestMagnitude (num den : Nat) : Nat :=
  if num = 0 then 0
  else
    -- 53 bits before the point, or fewer below the smallest normal number.
    let scale := max (floorLog2 num den - 52) (-1074)
    let significand := roundDiv (num * 2 ^ (-scale).toNat) (den * 2 ^ scale.toNat)
    -- The hidden bit of the significand raises the exponent field from `scale + 1074` to its value.
    min ((scale + 1074).toNat * 2 ^ 52 + significand) infinityMagnitude

/-- The double nearest to `num / den`, with the given sign. -/
def ofRatio (negative : Bool) (num den : Nat) : Double :=
  ofMagnitude negative (nearestMagnitude num den)

/-- The double nearest to a natural number. -/
def ofNat (n : Nat) : Double := ofRatio false n 1

/-- The double nearest to an integer; zero is the positive zero. -/
def ofInt (i : Int) : Double := ofRatio (decide (i < 0)) i.natAbs 1

/-- The double that equals an integer, for integers of magnitude at most `integerLimit`. -/
def exactInt? (i : Int) : Option Double :=
  if i.natAbs ≤ integerLimit then some (ofInt i) else none

/-- The rounded product of two non-negative finite doubles. -/
def mul (x y : Double) : Double := ofRatio false (x.ratio.1 * y.ratio.1) (x.ratio.2 * y.ratio.2)

/-- The rounded quotient of two non-negative finite doubles, the second not zero. -/
def div (x y : Double) : Double := ofRatio false (x.ratio.1 * y.ratio.2) (x.ratio.2 * y.ratio.1)

/-- The double of the same magnitude with the given sign. -/
def withSign (negative : Bool) (x : Double) : Double := ofMagnitude negative (x.bits.toNat % 2 ^ 63)

end Double

end Bytecode
