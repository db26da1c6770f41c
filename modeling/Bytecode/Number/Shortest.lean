import Bytecode.Number.Double

/-!
# The shortest decimal of a double

`Double.shortest` gives, for a finite double other than zero, the decimal with the fewest digits
that still lies among the real numbers rounding to this double, and among those the one nearest to
it; of two equally near ones it takes the larger.

The reals that round to `significand * 2 ^ scale` form an interval that reaches half a unit up and
half a unit down (a quarter down at a power of two, where the neighbour below is closer), its ends
included when the significand is even. For one digit, two digits, and so on, the two neighbours of
the double on that decimal grid are tested in exact arithmetic; seventeen digits always suffice.
-/

namespace Bytecode

/-- The positive decimal `digits * 10 ^ exponent`. -/
structure Decimal where
  /-- All significant digits, as one natural number. -/
  digits : Nat
  /-- The power of ten that scales the digits. -/
  exponent : Int
deriving DecidableEq, Repr, Inhabited

namespace Decimal

/-- The decimal digits as text, most significant first. -/
def digitChars (d : Decimal) : List Char := Nat.toDigits 10 d.digits

/-- The position of the decimal point after the first digit: the decimal is `0.ddd… * 10 ^ point`. -/
def point (d : Decimal) : Int := d.digitChars.length + d.exponent

/-- Drops trailing zeros of the digits; the fuel bounds their number. -/
def trimZeros : (fuel : Nat) → Decimal → Decimal
  | 0, d => d
  | fuel + 1, d => if d.digits % 10 = 0 then trimZeros fuel ⟨d.digits / 10, d.exponent + 1⟩ else d

end Decimal

namespace Double

/-- The reals that round to a double, as three numerators over one denominator. -/
structure Interval where
  low : Nat
  value : Nat
  high : Nat
  /-- The common denominator. -/
  den : Nat
  /-- Whether the ends belong to the interval. -/
  closed : Bool

/-- The rounding interval of the magnitude of a finite double other than zero. -/
def interval (x : Double) : Interval :=
  -- At a power of two the neighbour below is only half as far away as the one above.
  let down := if x.fraction = 0 && x.exponent > 1 then 1 else 2
  let up := 2 ^ (x.scale - 2).toNat
  { low := (4 * x.significand - down) * up
    value := 4 * x.significand * up
    high := (4 * x.significand + 2) * up
    den := 2 ^ (2 - x.scale).toNat
    closed := x.significand % 2 == 0 }

namespace Interval

/-- Whether `digits * 10 ^ exponent` lies in the interval. -/
def contains (i : Interval) (d : Decimal) : Bool :=
  let num := d.digits * 10 ^ d.exponent.toNat * i.den
  let up := 10 ^ (-d.exponent).toNat
  if i.closed then i.low * up ≤ num && num ≤ i.high * up
  else i.low * up < num && num < i.high * up

/-- The number `k` with `10 ^ (k - 1) ≤ value < 10 ^ k`. -/
def magnitude (i : Interval) : Int :=
  if i.den ≤ i.value then (Nat.toDigits 10 (i.value / i.den)).length
  else 1 - ((Nat.toDigits 10 ((i.den - 1) / i.value)).length : Int)

/-- The nearest decimal of the interval on the grid `10 ^ exponent`, if one of the value's two
neighbours on that grid lies in the interval. -/
def onGrid? (i : Interval) (exponent : Int) : Option Decimal :=
  let num := i.value * 10 ^ (-exponent).toNat
  let den := i.den * 10 ^ exponent.toNat
  let below : Decimal := ⟨num / den, exponent⟩
  let above : Decimal := ⟨num / den + 1, exponent⟩
  match i.contains below, i.contains above with
  -- Both read back: the nearer one, and of two equally near ones the larger.
  | true, true => some (if 2 * (num % den) < den then below else above)
  | true, false => some below
  | false, true => some above
  | false, false => none

/-- The first decimal found on grids of more and more digits; the fuel bounds how many are tried. -/
def search (i : Interval) : (fuel : Nat) → (exponent : Int) → Decimal
  | 0, exponent => ⟨i.value * 10 ^ (-exponent).toNat / (i.den * 10 ^ exponent.toNat), exponent⟩
  | fuel + 1, exponent => (i.onGrid? exponent).getD (i.search fuel (exponent - 1))

end Interval

/-- The shortest decimal that reads back as the magnitude of a finite double other than zero. -/
def shortest (x : Double) : Decimal :=
  let i := x.interval
  (i.search 17 (i.magnitude - 1)).trimZeros 1

end Double

end Bytecode
