import Bytecode.Proofs.Conversion
import Bytecode.Proofs.Loading
import Mathlib.Algebra.Order.Ring.Rat

/-!
# Spellings of one constant

A document may spell an integer with or without a decimal point. Which way it is spelled makes no
difference to the constant, as long as doubles and integers correspond one to one, and beyond that
there is no constant that an integer stands for (`Literal.spellings_agree`).

An integer literal is looked up in the range of the kind, and for the kind of doubles it becomes the
double nearest to it. A float literal is converted, and for the integer kinds this looks for the
integer that it denotes. Both ways are exact, as is shown where they are defined. What is added here
is that they meet: a double is determined by the number that it denotes and by its sign
(`Double.eq_of_toRat?`), so that the double nearest to an integer is the one that spells it
(`Double.Spells.unique`).

Whatever a literal stands for is a value of the kind asked for, and is written as it is
(`Kind.owns_self`).
-/

namespace Bytecode

namespace Double

variable {x y : Double} {q : ℚ} {i : ℤ}

/-! ### The double of a number -/

theorem fraction_lt (x : Double) : x.fraction < 2 ^ 52 := Nat.mod_lt _ (Nat.two_pow_pos 52)

theorem significand_lt (x : Double) : x.significand < 2 ^ 53 := by
  have hfraction := x.fraction_lt
  rw [significand]
  split <;> omega

/-- The hidden bit is set unless the exponent field is zero. -/
theorem le_significand (h : x.exponent ≠ 0) : 2 ^ 52 ≤ x.significand := by
  rw [significand, if_neg h]
  exact Nat.le_add_right ..

/-- A pattern is made of its three fields. -/
theorem eq_of_fields (hsign : x.isNegative = y.isNegative) (hexponent : x.exponent = y.exponent)
    (hfraction : x.fraction = y.fraction) : x = y := by
  obtain ⟨a⟩ := x
  obtain ⟨b⟩ := y
  have ha := a.toNat_lt
  have hb := b.toNat_lt
  simp only [isNegative, exponent, fraction, decide_eq_decide] at hsign hexponent hfraction
  have hbits : a.toNat = b.toNat := by omega
  rw [UInt64.toNat_inj.mp hbits]

/-- Doubles of one magnitude have one scale: on a larger scale the hidden bit would be set, and on
the smaller one the significand would have too many bits. -/
theorem scale_le_of_magnitude_eq
    (h : (x.significand : ℚ) * 2 ^ x.scale = y.significand * 2 ^ y.scale) : y.scale ≤ x.scale := by
  by_contra hlt
  obtain ⟨shift, hshift⟩ : ∃ shift : ℕ, y.scale = (shift + 1 : ℕ) + x.scale :=
    ⟨(y.scale - x.scale - 1).toNat, by omega⟩
  rw [hshift, zpow_add₀ two_ne_zero, ← mul_assoc, zpow_natCast] at h
  have hcancel := mul_right_cancel₀ (zpow_ne_zero _ two_ne_zero) h
  have hsignificand : x.significand = y.significand * 2 ^ (shift + 1) := by exact_mod_cast hcancel
  have hnormal : y.exponent ≠ 0 := by
    simp only [scale] at hshift
    omega
  have hle := Nat.mul_le_mul (le_significand hnormal)
    (Nat.pow_le_pow_right two_pos (Nat.le_add_left 1 shift))
  have hx := x.significand_lt
  omega

/-- A finite double is determined by its magnitude, up to the sign. -/
theorem fields_eq_of_magnitude_eq
    (h : (x.significand : ℚ) * 2 ^ x.scale = y.significand * 2 ^ y.scale) :
    x.exponent = y.exponent ∧ x.fraction = y.fraction := by
  have hscale : x.scale = y.scale :=
    le_antisymm (scale_le_of_magnitude_eq h.symm) (scale_le_of_magnitude_eq h)
  rw [hscale] at h
  have hsignificand : x.significand = y.significand := by
    exact_mod_cast mul_right_cancel₀ (zpow_ne_zero _ two_ne_zero) h
  -- on one scale the hidden bit tells the exponent fields zero and one apart
  have hx := x.fraction_lt
  have hy := y.fraction_lt
  simp only [scale] at hscale
  simp only [significand] at hsignificand
  split at hsignificand <;> split at hsignificand <;> omega

/-- The magnitude of a finite double is that of the number which it denotes. -/
theorem magnitude_of_toRat? (h : x.toRat? = some q) :
    (x.significand : ℚ) * 2 ^ x.scale = |q| := by
  have hnonneg : 0 ≤ (x.significand : ℚ) * 2 ^ x.scale :=
    mul_nonneg (Nat.cast_nonneg _) (zpow_nonneg two_pos.le _)
  rw [toRat?] at h
  split at h
  · rw [← Option.some.inj h, abs_mul, abs_of_nonneg hnonneg]
    split <;> simp
  · cases h

/-- The sign bit of a double that does not denote zero is the sign of the number. -/
theorem isNegative_iff_of_toRat? (h : x.toRat? = some q) (hq : q ≠ 0) :
    x.isNegative = true ↔ q < 0 := by
  have hpos : 0 < (x.significand : ℚ) * 2 ^ x.scale := by
    rw [magnitude_of_toRat? h]
    exact abs_pos.mpr hq
  rw [toRat?] at h
  split at h
  · rw [← Option.some.inj h]
    split
    · rename_i hsign
      rw [neg_one_mul]
      exact iff_of_true hsign (neg_lt_zero.mpr hpos)
    · rename_i hsign
      rw [one_mul]
      exact iff_of_false hsign (not_lt.mpr hpos.le)
  · cases h

/-- A number is denoted by one double of each sign at most. -/
theorem eq_of_toRat? (hx : x.toRat? = some q) (hy : y.toRat? = some q)
    (hsign : x.isNegative = y.isNegative) : x = y := by
  have hmagnitude := (magnitude_of_toRat? hx).trans (magnitude_of_toRat? hy).symm
  obtain ⟨hexponent, hfraction⟩ := fields_eq_of_magnitude_eq hmagnitude
  exact eq_of_fields hsign hexponent hfraction

/-! ### Doubles that spell integers -/

/-- The double spells the integer: it denotes just the integer, and it is not the negative zero. -/
structure Spells (x : Double) (i : ℤ) : Prop where
  toRat?_eq : x.toRat? = some (i : ℚ)
  isNegative_eq : i = 0 → x.isNegative = false

theorem spells_ofInt (h : i.natAbs ≤ integerLimit) : (ofInt i).Spells i := by
  refine ⟨toRat?_ofInt h, ?_⟩
  rintro rfl
  decide +kernel

/-- There is one double at most that spells an integer. -/
theorem Spells.unique (hx : x.Spells i) (hy : y.Spells i) : x = y := by
  apply eq_of_toRat? hx.toRat?_eq hy.toRat?_eq
  by_cases hzero : i = 0
  · exact (hx.isNegative_eq hzero).trans (hy.isNegative_eq hzero).symm
  · have hne : (i : ℚ) ≠ 0 := Int.cast_ne_zero.mpr hzero
    rw [Bool.eq_iff_iff, isNegative_iff_of_toRat? hx.toRat?_eq hne,
      isNegative_iff_of_toRat? hy.toRat?_eq hne]

end Double

/-! ### Literals -/

namespace Literal

variable {k : Kind} {i : Int64}

/-- As constants of a kind, an integer and the double that spells it are the same. -/
theorem toValue?_int_eq_float {x : Double} (hx : x.Spells i.toInt)
    (h : i.toInt.natAbs ≤ Double.integerLimit) :
    (int i).toValue? k = (float x).toValue? k := by
  have hint : (Value.f64 x).toInt? = some i.toInt :=
    Double.toInt?_eq_some_iff.mpr ⟨hx.toRat?_eq, h⟩
  cases k with
  | i32 | u32 | u8 => simp only [toValue?, Kind.coerce, hint, Option.bind_some]
  | f64 =>
    have hdouble : Double.exactInt? i.toInt = some x := by
      rw [Double.exactInt?, if_pos h, (Double.spells_ofInt h).unique hx]
    simp only [toValue?, hdouble]
    rfl
  | bytes | string => rfl

/-- No kind has a constant for an integer of larger magnitude. -/
theorem toValue?_int_eq_none (h : Double.integerLimit < i.toInt.natAbs) :
    (int i).toValue? k = none := by
  have hlimit : ¬ i.toInt.natAbs ≤ Double.integerLimit := not_le.mpr h
  have hnone (k : Kind) : k.ofInt? i.toInt = none :=
    Option.eq_none_iff_forall_ne_some.mpr fun _ hw =>
      hlimit (Kind.includes_of_ofInt? hw).natAbs_le
  cases k with
  | f64 => simp only [toValue?, Double.exactInt?, if_neg hlimit, Option.map_none]
  | i32 | u32 | u8 | bytes | string => simp only [toValue?, hnone]

end Literal

/-! ### Values of a kind -/

/-- The value is one of the kind: it converts to the kind as itself, and it is written as the kind.
Only a payload that is too long for a length word can be refused. -/
structure Kind.Owns (k : Kind) (w : Value) : Prop where
  kind_eq : w.kind = k
  coerce_eq : k.coerce w = some w
  encode_eq : ∀ t : Tape, k.encode w t =
    if w.payload.length < lengthLimit then .ok (t.write w.wire)
    else .error (.tooLong w.payload.length)

theorem Kind.owns_self (w : Value) : w.kind.Owns w where
  kind_eq := rfl
  coerce_eq := coerce_self w
  encode_eq t := by rw [encode, coerce_self]

/-- **The spellings of a constant agree.** For an integer of magnitude at most `2 ^ 53` there is
exactly one double that spells it, and as constants of any kind the integer and this double are the
same value, bit for bit, or neither is a value. An integer of larger magnitude is none, of whatever
kind. The value that a literal stands for is one of the kind asked for, which is written as it is;
so are the constants of a loaded format, each of the kind that it is declared with. -/
theorem Literal.spellings_agree :
    (∀ i : Int64, i.toInt.natAbs ≤ 2 ^ 53 → (∃! x : Double, x.Spells i.toInt) ∧
      ∀ x : Double, x.Spells i.toInt → ∀ k, (int i).toValue? k = (float x).toValue? k) ∧
    (∀ i : Int64, 2 ^ 53 < i.toInt.natAbs → ∀ k, (int i).toValue? k = none) ∧
    (∀ (l : Literal) k w, l.toValue? k = some w → k.Owns w) ∧
    ∀ (s : Schema) f, s.load = .ok f → List.Forall₂
      (fun declared constant => declared.literal.toValue? declared.kind = some constant.value ∧
        declared.kind.Owns constant.value) s.header f.header := by
  have howns (l : Literal) (k : Kind) (w : Value) (h : l.toValue? k = some w) : k.Owns w :=
    kind_of_toValue? h ▸ Kind.owns_self w
  refine ⟨fun i h => ⟨?_, fun x hx k => toValue?_int_eq_float hx h⟩,
    fun i h k => toValue?_int_eq_none h, howns, fun s f hload => ?_⟩
  · exact ⟨_, Double.spells_ofInt h, fun x hx => hx.unique (Double.spells_ofInt h)⟩
  · obtain ⟨-, -, hheader, -⟩ := Schema.load_eq_ok_iff.mp hload
    exact hheader.imp fun _ _ h => ⟨h.toValue?_eq, howns _ _ _ h.toValue?_eq⟩

/-- A schema with one constant, a double that is spelled as an integer. -/
def sampleLimit : Schema :=
  { header := [⟨"limit", .f64, .int 9007199254740992⟩]
    counters := []
    chunks := []
    commonArgs := []
    instructions := [] }

/-- The largest integer that a double can spell, the least integer of all, and a constant. -/
theorem Literal.spellings_agree_of_sample :
    (int 9007199254740992).toValue? .f64 = (float ⟨0x4340000000000000⟩).toValue? .f64 ∧
      (int Int64.minValue).toValue? .f64 = none ∧
      Kind.i32.Owns (.i32 (-3)) ∧
      ∃ f, sampleLimit.load = .ok f ∧ List.Forall₂
        (fun declared constant => declared.literal.toValue? declared.kind = some constant.value ∧
          declared.kind.Owns constant.value) sampleLimit.header f.header := by
  obtain ⟨hagree, hnone, howns, hload⟩ := Literal.spellings_agree
  have hspells : (⟨0x4340000000000000⟩ : Double).Spells (Int64.toInt 9007199254740992) :=
    ⟨Double.toRat?_eq_intCast_iff.mpr (by decide +kernel), by decide +kernel⟩
  have hsample : sampleLimit.load =
      .ok ⟨[⟨"limit", .f64 ⟨0x4340000000000000⟩⟩], [], [], []⟩ := by decide +kernel
  exact ⟨(hagree _ (by decide +kernel)).2 _ hspells .f64, hnone _ (by decide +kernel) .f64,
    howns (.float ⟨0xC008000000000000⟩) .i32 _ (by decide +kernel), _, hsample,
    hload _ _ hsample⟩

end Bytecode
