import Bytecode.Number.Shortest

/-!
# Doubles as text

Two ways to write a double, both from its shortest decimal. `Double.plain` is what a listing shows:
positional whatever the magnitude, without a point when the number is whole. `Double.general` is
what an inspection shows: always marked as a fraction, and scientific from `10 ^ 16` upwards and
below `10 ^ -4`.
-/

namespace Bytecode

namespace Decimal

/-- Positional digits with at least `minPlaces` digits after the point; no point when there are
none. -/
def positional (d : Decimal) (minPlaces : Nat) : String :=
  let digits := d.digitChars
  let whole :=
    if d.point ≤ 0 then ['0']
    else digits.take d.point.toNat ++ List.replicate d.exponent.toNat '0'
  let places := List.replicate (-d.point).toNat '0' ++ digits.drop d.point.toNat
  let padded := places ++ List.replicate (minPlaces - places.length) '0'
  String.ofList (if padded.isEmpty then whole else whole ++ '.' :: padded)

/-- One digit before the point, the others after it, and the exponent of ten. -/
def scientific (d : Decimal) : String :=
  let mantissa :=
    match d.digitChars with
    | first :: second :: rest => String.ofList (first :: '.' :: second :: rest)
    | digits => String.ofList digits
  mantissa ++ "e" ++ toString (d.point - 1)

end Decimal

namespace Double

/-- The sign, then the text of the magnitude; infinities and not-a-numbers have words. -/
def textWith (x : Double) (zero : String) (finite : Decimal → String) : String :=
  if x.isNaN then "NaN"
  else
    let magnitude :=
      if !x.isFinite then "inf" else if x.isZero then zero else finite x.shortest
    if x.isNegative then "-" ++ magnitude else magnitude

/-- The shortest decimal in positional form. -/
def plain (x : Double) : String := x.textWith "0" (·.positional 0)

/-- The shortest decimal in positional form with a fractional part, or in scientific form for very
large and very small magnitudes. -/
def general (x : Double) : String :=
  x.textWith "0.0" fun d =>
    if d.point ≤ -4 || 16 < d.point then d.scientific else d.positional 1

end Double

end Bytecode
