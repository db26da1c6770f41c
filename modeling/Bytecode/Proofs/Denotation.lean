import Bytecode.Number.Rounding
import Mathlib.Algebra.Order.Field.Power
import Mathlib.Data.Rat.Cast.Lemmas
import Mathlib.Tactic.Ring

/-!
# The numbers that doubles denote

A finite double denotes a rational number, `± significand * 2 ^ scale`. `Double.toInt?` finds the
integer among these numbers, exactly and up to the limit that it has (`Double.toInt?_eq_some_iff`):
whether the bits are a fraction is decided by the quotient that they stand for, which is the same
number (`Double.ratio_eq`).

In the other direction, the double nearest to an integer within this limit is the integer
(`Double.toRat?_ofInt`). An integer of at most 53 bits is shifted until its first bit is the hidden
bit of the significand, so that nothing is left to be rounded; the one magnitude within the limit
that has more bits is a power of two.
-/

namespace Bytecode.Double

variable {x : Double}

/-! ### Rational numbers -/

/-- The number that a finite double denotes. -/
def toRat? (x : Double) : Option ℚ :=
  if x.isFinite then
    some ((if x.isNegative then -1 else 1) * (x.significand * 2 ^ x.scale))
  else
    none

theorem ratio_snd_pos (x : Double) : 0 < x.ratio.2 := by
  unfold ratio
  split
  · exact Nat.one_pos
  · exact Nat.two_pow_pos _

/-- The quotient of a double is its magnitude. -/
theorem ratio_eq (x : Double) : (x.ratio.1 : ℚ) / x.ratio.2 = x.significand * 2 ^ x.scale := by
  unfold ratio
  split
  · rename_i hscale
    rw [Nat.cast_mul, Nat.cast_pow, Nat.cast_one, div_one, ← zpow_natCast,
      Int.toNat_of_nonneg hscale]
    rfl
  · rename_i hscale
    have hneg : ((-x.scale).toNat : ℤ) = -x.scale := Int.toNat_of_nonneg (by omega)
    rw [Nat.cast_pow, ← zpow_natCast, hneg, zpow_neg, div_inv_eq_mul]
    rfl

/-- A quotient is an integer where the division leaves no rest. -/
theorem div_eq_intCast_iff {num den : ℕ} (hden : 0 < den) {i : ℤ} :
    (num : ℚ) / den = i ↔ num % den = 0 ∧ ((num / den : ℕ) : ℤ) = i := by
  have hden' : (den : ℚ) ≠ 0 := Nat.cast_ne_zero.mpr (Nat.pos_iff_ne_zero.mp hden)
  rw [div_eq_iff hden']
  constructor
  · intro h
    have hnum : (num : ℤ) = i * den := by exact_mod_cast h
    have hdvd : den ∣ num := Int.natCast_dvd_natCast.mp ⟨i, by rw [hnum, mul_comm]⟩
    refine ⟨Nat.mod_eq_zero_of_dvd hdvd, ?_⟩
    rw [Int.natCast_ediv, hnum, Int.mul_ediv_cancel _ (by omega)]
  · rintro ⟨hmod, rfl⟩
    have hnum : num = num / den * den := (Nat.div_mul_cancel (Nat.dvd_of_mod_eq_zero hmod)).symm
    exact_mod_cast hnum

/-- A double denotes an integer where its quotient does, up to the sign. -/
theorem toRat?_eq_intCast_iff {i : ℤ} : x.toRat? = some (i : ℚ) ↔
    x.isFinite = true ∧ x.ratio.1 % x.ratio.2 = 0 ∧
      (if x.isNegative then -((x.ratio.1 / x.ratio.2 : ℕ) : ℤ)
        else (x.ratio.1 / x.ratio.2 : ℕ)) = i := by
  by_cases hfinite : x.isFinite = true
  · rw [toRat?, if_pos hfinite, ← ratio_eq, Option.some.injEq, and_iff_right hfinite]
    cases x.isNegative with
    | false =>
      rw [if_neg Bool.false_ne_true, if_neg Bool.false_ne_true, one_mul,
        div_eq_intCast_iff x.ratio_snd_pos]
    | true =>
      rw [if_pos rfl, if_pos rfl, neg_one_mul, neg_eq_iff_eq_neg, ← Int.cast_neg,
        div_eq_intCast_iff x.ratio_snd_pos, neg_eq_iff_eq_neg]
  · rw [toRat?, if_neg hfinite]
    simp [hfinite]

/-- The integer that is found is the number denoted. -/
theorem toInt?_eq_some_iff {i : ℤ} :
    x.toInt? = some i ↔ x.toRat? = some (i : ℚ) ∧ i.natAbs ≤ integerLimit := by
  have hnatAbs (n : ℕ) : (if x.isNegative then -(n : ℤ) else n).natAbs = n := by
    split
    · rw [Int.natAbs_neg, Int.natAbs_natCast]
    · rw [Int.natAbs_natCast]
  rw [toRat?_eq_intCast_iff, toInt?]
  split
  · rename_i h
    simp only [Bool.and_eq_true, beq_iff_eq, decide_eq_true_eq] at h
    obtain ⟨⟨hfinite, hmod⟩, hlimit⟩ := h
    rw [Option.some.injEq]
    constructor
    · rintro rfl
      exact ⟨⟨hfinite, hmod, rfl⟩, by rwa [hnatAbs]⟩
    · rintro ⟨⟨-, -, h⟩, -⟩
      exact h
  · rename_i h
    simp only [Bool.and_eq_true, beq_iff_eq, decide_eq_true_eq] at h
    refine iff_of_false (by simp) ?_
    rintro ⟨⟨hfinite, hmod, rfl⟩, hlimit⟩
    rw [hnatAbs] at hlimit
    exact h ⟨⟨hfinite, hmod⟩, hlimit⟩

/-! ### Fields put together -/

section Fields

variable {negative : Bool} {magnitude : ℕ}

/-- A pattern put together shows the fields that went into it. -/
theorem toNat_bits_ofMagnitude (h : magnitude < 2 ^ 63) :
    (ofMagnitude negative magnitude).bits.toNat = magnitude + if negative then 2 ^ 63 else 0 := by
  rw [ofMagnitude, UInt64.toNat_ofNat']
  split <;> omega

theorem isNegative_ofMagnitude (h : magnitude < 2 ^ 63) :
    (ofMagnitude negative magnitude).isNegative = negative := by
  rw [isNegative, toNat_bits_ofMagnitude h]
  cases negative <;> simp [h]

theorem exponent_ofMagnitude (h : magnitude < 2 ^ 63) :
    (ofMagnitude negative magnitude).exponent = magnitude / 2 ^ 52 := by
  rw [exponent, toNat_bits_ofMagnitude h]
  split <;> omega

theorem fraction_ofMagnitude (h : magnitude < 2 ^ 63) :
    (ofMagnitude negative magnitude).fraction = magnitude % 2 ^ 52 := by
  rw [fraction, toNat_bits_ofMagnitude h]
  split <;> omega

end Fields

/-- A normal double denotes its significand, scaled by its exponent. -/
theorem toRat?_ofMagnitude {negative : Bool} {exponent significand : ℕ} (he : exponent < 2046)
    (hlo : 2 ^ 52 ≤ significand) (hhi : significand < 2 ^ 53) :
    (ofMagnitude negative (exponent * 2 ^ 52 + significand)).toRat? =
      some ((if negative then -1 else 1) * ((significand : ℚ) * 2 ^ ((exponent : ℤ) - 1074))) := by
  have h : exponent * 2 ^ 52 + significand < 2 ^ 63 := by omega
  have hexponent : (ofMagnitude negative (exponent * 2 ^ 52 + significand)).exponent =
      exponent + 1 := by
    rw [exponent_ofMagnitude h]
    omega
  have hsignificand : (ofMagnitude negative (exponent * 2 ^ 52 + significand)).significand =
      significand := by
    rw [Double.significand, if_neg (by omega), fraction_ofMagnitude h]
    omega
  have hscale : (ofMagnitude negative (exponent * 2 ^ 52 + significand)).scale =
      (exponent : ℤ) - 1074 := by
    rw [Double.scale, hexponent]
    omega
  have hfinite : (ofMagnitude negative (exponent * 2 ^ 52 + significand)).isFinite = true := by
    rw [isFinite, hexponent, bne_iff_ne]
    omega
  rw [toRat?, if_pos hfinite, isNegative_ofMagnitude h, hsignificand, hscale]

/-! ### Integers as doubles -/

theorem floorLog2_one {n : ℕ} (hn : n ≠ 0) : floorLog2 n 1 = n.log2 := by
  have hle : 2 ^ n.log2 ≤ n := Nat.log2_self_le hn
  have hlog : Nat.log2 1 = 0 := rfl
  simp [floorLog2, hlog, hle]

theorem roundDiv_one (n : ℕ) : roundDiv n 1 = n := by
  simp [roundDiv, Nat.mod_one]

/-- A natural number of at most 53 bits keeps its bits behind the first, which becomes the hidden
bit. -/
theorem nearestMagnitude_of_lt {n : ℕ} (hn : n ≠ 0) (h : n < 2 ^ 53) :
    nearestMagnitude n 1 = (n.log2 + 1022) * 2 ^ 52 + n * 2 ^ (52 - n.log2) ∧
      2 ^ 52 ≤ n * 2 ^ (52 - n.log2) ∧ n * 2 ^ (52 - n.log2) < 2 ^ 53 := by
  have hlog : n.log2 < 53 := (Nat.log2_lt hn).mpr h
  have hlo : 2 ^ 52 ≤ n * 2 ^ (52 - n.log2) := by
    have hle := Nat.mul_le_mul_right (2 ^ (52 - n.log2)) (Nat.log2_self_le hn)
    rwa [← Nat.pow_add, show n.log2 + (52 - n.log2) = 52 by omega] at hle
  have hhi : n * 2 ^ (52 - n.log2) < 2 ^ 53 := by
    have hlt := Nat.mul_lt_mul_of_pos_right (Nat.lt_log2_self (n := n))
      (Nat.two_pow_pos (52 - n.log2))
    rwa [← Nat.pow_add, show n.log2 + 1 + (52 - n.log2) = 53 by omega] at hlt
  refine ⟨?_, hlo, hhi⟩
  have hscale : max ((n.log2 : ℤ) - 52) (-1074) = (n.log2 : ℤ) - 52 := by omega
  have hneg : (-((n.log2 : ℤ) - 52)).toNat = 52 - n.log2 := by omega
  have hpos : ((n.log2 : ℤ) - 52).toNat = 0 := by omega
  have hexponent : ((n.log2 : ℤ) - 52 + 1074).toNat = n.log2 + 1022 := by omega
  rw [nearestMagnitude, if_neg hn]
  simp only [floorLog2_one hn, hscale, hneg, hpos, hexponent]
  rw [Nat.pow_zero, Nat.mul_one, roundDiv_one, infinityMagnitude]
  omega

/-- An integer of magnitude at most `integerLimit` is denoted by the double nearest to it. -/
theorem toRat?_ofInt {i : ℤ} (h : i.natAbs ≤ integerLimit) : (ofInt i).toRat? = some (i : ℚ) := by
  have hsign : (if decide (i < 0) = true then -1 else 1) * (i.natAbs : ℚ) = i := by
    rcases lt_or_ge i 0 with hneg | hnonneg
    · rw [decide_eq_true hneg, if_pos rfl, Nat.cast_natAbs, abs_of_neg hneg]
      push_cast
      ring
    · rw [decide_eq_false (not_lt.mpr hnonneg), if_neg Bool.false_ne_true, Nat.cast_natAbs,
        abs_of_nonneg hnonneg, one_mul]
  rcases Nat.eq_zero_or_pos i.natAbs with hzero | hpos
  · obtain rfl := Int.natAbs_eq_zero.mp hzero
    exact toRat?_eq_intCast_iff.mpr (by decide +kernel)
  rcases Nat.lt_or_eq_of_le h with hlt | heq
  · -- the significand and its scale make up the number again
    have hne : i.natAbs ≠ 0 := Nat.pos_iff_ne_zero.mp hpos
    obtain ⟨hnearest, hlo, hhi⟩ := nearestMagnitude_of_lt hne hlt
    have hlog : i.natAbs.log2 < 53 := (Nat.log2_lt hne).mpr hlt
    have hshift :
        ((52 - i.natAbs.log2 : ℕ) : ℤ) + (((i.natAbs.log2 + 1022 : ℕ) : ℤ) - 1074) = 0 := by
      omega
    rw [ofInt, ofRatio, hnearest, toRat?_ofMagnitude (by omega) hlo hhi, Nat.cast_mul,
      Nat.cast_pow, mul_assoc, ← zpow_natCast, Nat.cast_ofNat, ← zpow_add₀ two_ne_zero, hshift,
      zpow_zero, mul_one, hsign]
  · -- the one magnitude that has more bits
    rcases Int.natAbs_eq_iff.mp heq with rfl | rfl
    · exact toRat?_eq_intCast_iff.mpr (by decide +kernel)
    · exact toRat?_eq_intCast_iff.mpr (by decide +kernel)

end Bytecode.Double
