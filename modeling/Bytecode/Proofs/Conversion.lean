import Bytecode.Proofs.Codec
import Bytecode.Proofs.Denotation

/-!
# Converting numbers

Numbers convert between kinds as long as they stay the numbers they are. What number a value denotes
is said by `Value.number?`, for doubles by their bits; `Kind.coerce_exact` says that conversion to
an integer kind yields the value that denotes the same integer, and succeeds exactly if the kind has
one, and that conversion to doubles never rounds.

Integers are found in two steps, of which each is exact by itself: `Value.toInt?` finds the integer
that a value denotes (`Value.toInt?_eq_some_iff`), for doubles up to a limit, and `Kind.ofInt?`
finds the value that denotes an integer (`Kind.ofInt?_eq_some_iff`). The limit takes nothing away,
for every integer kind lies within it (`Kind.Includes.natAbs_le`).
-/

namespace Bytecode

/-! ### Numbers of values -/

/-- The number that a value denotes. Infinities and not-a-numbers denote none, and neither do byte
strings and texts. -/
def Value.number? : Value → Option ℚ
  | i32 v => some v.toInt
  | u32 v => some v.toNat
  | f64 v => v.toRat?
  | u8 v => some v.toNat
  | bytes _ | string _ => none

namespace Kind

/-- Whether the values of the kind are integers. -/
def isInteger : Kind → Bool
  | i32 | u32 | u8 => true
  | f64 | bytes | string => false

/-- The kind is one of integers, and its range includes the integer. -/
def Includes (k : Kind) (i : ℤ) : Prop :=
  match k with
  | i32 => -2 ^ 31 ≤ i ∧ i < 2 ^ 31
  | u32 => 0 ≤ i ∧ i < 2 ^ 32
  | u8 => 0 ≤ i ∧ i < 2 ^ 8
  | f64 | bytes | string => False

end Kind

variable {k : Kind} {v w : Value} {i : ℤ}

theorem Kind.Includes.natAbs_le (h : k.Includes i) : i.natAbs ≤ Double.integerLimit := by
  have hlimit : Double.integerLimit = 9007199254740992 := by decide
  rw [hlimit]
  cases k with
  | i32 | u32 | u8 =>
    simp only [Includes] at h
    omega
  | f64 | bytes | string => exact h.elim

/-! ### Integers -/

/-- The integer found in a value is the number that it denotes. -/
theorem Value.toInt?_eq_some_iff : v.toInt? = some i ↔
    v.number? = some (i : ℚ) ∧ (v.kind = .f64 → i.natAbs ≤ Double.integerLimit) := by
  cases v with
  | i32 v =>
    rw [toInt?, number?, Option.some.injEq, Option.some.injEq, Int.cast_inj]
    simp [kind]
  | u32 v | u8 v =>
    rw [toInt?, number?, Option.some.injEq, Option.some.injEq, ← Int.cast_natCast (R := ℚ),
      Int.cast_inj]
    simp [kind]
  | f64 v =>
    rw [toInt?, number?, Double.toInt?_eq_some_iff]
    simp [kind]
  | bytes | string => simp [toInt?, number?]

/-- An integer value denotes the integer found in it. -/
theorem Value.number?_eq_intCast_iff (h : v.kind.isInteger = true) :
    v.number? = some (i : ℚ) ↔ v.toInt? = some i := by
  rw [toInt?_eq_some_iff, and_iff_left]
  intro hkind
  rw [hkind] at h
  cases h

namespace Kind

theorem coerce_of_isInteger (hk : k.isInteger = true) (v : Value) :
    k.coerce v = v.toInt?.bind k.ofInt? := by
  cases k with
  | i32 | u32 | u8 => rfl
  | f64 | bytes | string => cases hk

theorem includes_of_ofInt? (h : k.ofInt? i = some w) : k.Includes i := by
  cases k with
  | i32 | u32 | u8 =>
    simp only [ofInt?] at h
    split at h
    · assumption
    · cases h
  | f64 | bytes | string => cases h

/-- An integer that a kind includes can be held, and is found again. -/
theorem Includes.exists_ofInt? (h : k.Includes i) :
    ∃ w, k.ofInt? i = some w ∧ w.toInt? = some i := by
  cases k with
  | i32 =>
    refine ⟨_, if_pos h, congrArg some ?_⟩
    exact Int32.toInt_ofInt_of_le h.1 h.2
  | u32 =>
    obtain ⟨hlo, hhi⟩ := h
    refine ⟨_, if_pos ⟨hlo, hhi⟩, congrArg some ?_⟩
    rw [UInt32.toNat_ofNat', Nat.mod_eq_of_lt (by omega), Int.toNat_of_nonneg hlo]
  | u8 =>
    obtain ⟨hlo, hhi⟩ := h
    refine ⟨_, if_pos ⟨hlo, hhi⟩, congrArg some ?_⟩
    rw [UInt8.toNat_ofNat', Nat.mod_eq_of_lt (by omega), Int.toNat_of_nonneg hlo]
  | f64 | bytes | string => exact h.elim

/-- What an integer is held as is the value of the kind that denotes it. -/
theorem ofInt?_eq_some_iff (hk : k.isInteger = true) :
    k.ofInt? i = some w ↔ w.kind = k ∧ k.Includes i ∧ w.number? = some (i : ℚ) := by
  constructor
  · intro h
    have hkind := kind_of_ofInt? h
    have hincludes := includes_of_ofInt? h
    obtain ⟨w', h', hint⟩ := hincludes.exists_ofInt?
    obtain rfl := Option.some.inj (h.symm.trans h')
    exact ⟨hkind, hincludes, (Value.number?_eq_intCast_iff (hkind ▸ hk)).mpr hint⟩
  · rintro ⟨rfl, -, h⟩
    -- the value converts to its own kind as itself, and by way of the integer
    have hself := coerce_self w
    rwa [coerce_of_isInteger hk, (Value.number?_eq_intCast_iff hk).mp h] at hself

/-- Conversion to an integer kind keeps the integer denoted. -/
theorem coerce_eq_some_iff_of_isInteger (hk : k.isInteger = true) : k.coerce v = some w ↔
    w.kind = k ∧ ∃ i : ℤ, v.number? = some (i : ℚ) ∧ k.Includes i ∧ w.number? = some (i : ℚ) := by
  rw [coerce_of_isInteger hk, Option.bind_eq_some_iff]
  constructor
  · rintro ⟨i, hint, h⟩
    obtain ⟨hkind, hincludes, hnumber⟩ := (ofInt?_eq_some_iff hk).mp h
    exact ⟨hkind, i, (Value.toInt?_eq_some_iff.mp hint).1, hincludes, hnumber⟩
  · rintro ⟨hkind, i, hnumber, hincludes, hnumber'⟩
    have hint := Value.toInt?_eq_some_iff.mpr ⟨hnumber, fun _ => hincludes.natAbs_le⟩
    exact ⟨i, hint, (ofInt?_eq_some_iff hk).mpr ⟨hkind, hincludes, hnumber'⟩⟩

/-- A value converts to an integer kind if it denotes an integer that the kind includes. -/
theorem exists_coerce_iff_of_isInteger (hk : k.isInteger = true) :
    (∃ w, k.coerce v = some w) ↔ ∃ i : ℤ, v.number? = some (i : ℚ) ∧ k.Includes i := by
  simp only [coerce_eq_some_iff_of_isInteger hk]
  constructor
  · rintro ⟨w, -, i, hnumber, hincludes, -⟩
    exact ⟨i, hnumber, hincludes⟩
  · rintro ⟨i, hnumber, hincludes⟩
    obtain ⟨w, h, -⟩ := hincludes.exists_ofInt?
    obtain ⟨hkind, -, hnumber'⟩ := (ofInt?_eq_some_iff hk).mp h
    exact ⟨w, hkind, i, hnumber, hincludes, hnumber'⟩

/-! ### Doubles -/

/-- A double that is made from an integer of a value denotes this integer. -/
theorem number?_ofInt (h : k.Includes i) : (Value.f64 (.ofInt i)).number? = some (i : ℚ) :=
  Double.toRat?_ofInt h.natAbs_le

/-- Every number converts to a double, and is not rounded. -/
theorem exists_coerce_f64 (h : v.kind.isNumeric = true) :
    ∃ w, f64.coerce v = some w ∧ w.number? = v.number? := by
  cases v with
  | i32 v => exact ⟨_, rfl, number?_ofInt (k := i32) ⟨v.le_toInt, v.toInt_lt⟩⟩
  | u32 v =>
    have hlt : (v.toNat : ℤ) < 2 ^ 32 := by exact_mod_cast v.toNat_lt
    exact ⟨_, rfl, number?_ofInt (k := u32) ⟨Int.natCast_nonneg _, hlt⟩⟩
  | u8 v =>
    have hlt : (v.toNat : ℤ) < 2 ^ 8 := by exact_mod_cast v.toNat_lt
    exact ⟨_, rfl, number?_ofInt (k := u8) ⟨Int.natCast_nonneg _, hlt⟩⟩
  | f64 v => exact ⟨_, rfl, rfl⟩
  | bytes | string => cases h

theorem isNumeric_of_coerce_f64 (h : f64.coerce v = some w) : v.kind.isNumeric = true := by
  cases v with
  | i32 | u32 | f64 | u8 => rfl
  | bytes | string => cases h

/-! ### All kinds -/

/-- **Conversion of numbers is exact.** A value converts to an integer kind exactly if it denotes an
integer that the kind includes, and what it converts to is the value of the kind that denotes the
same integer. It converts to a double exactly if it is a number, and then denotes the same number or
is the same double. The integer found in a value is the one that it denotes, up to a limit that is
for doubles only. And what is converted once is not changed by being converted again. -/
theorem coerce_exact (k : Kind) (v : Value) :
    (k.isInteger = true →
      ((∃ w, k.coerce v = some w) ↔ ∃ i : ℤ, v.number? = some (i : ℚ) ∧ k.Includes i) ∧
      ∀ w, k.coerce v = some w ↔ w.kind = k ∧
        ∃ i : ℤ, v.number? = some (i : ℚ) ∧ k.Includes i ∧ w.number? = some (i : ℚ)) ∧
    ((∃ w, f64.coerce v = some w) ↔ v.kind.isNumeric = true) ∧
    (∀ w, f64.coerce v = some w →
      w.kind = f64 ∧ w.number? = v.number? ∧ (v.kind = f64 → w = v)) ∧
    (∀ i : ℤ, v.toInt? = some i ↔
      v.number? = some (i : ℚ) ∧ (v.kind = f64 → i.natAbs ≤ 2 ^ 53)) ∧
    ∀ w, k.coerce v = some w → w.kind = k ∧ k.coerce w = some w := by
  refine ⟨fun hk => ⟨exists_coerce_iff_of_isInteger hk, fun w => ?_⟩, ⟨?_, ?_⟩, ?_,
    fun i => Value.toInt?_eq_some_iff, ?_⟩
  · exact coerce_eq_some_iff_of_isInteger hk
  · rintro ⟨w, h⟩
    exact isNumeric_of_coerce_f64 h
  · intro h
    obtain ⟨w, hw, -⟩ := exists_coerce_f64 h
    exact ⟨w, hw⟩
  · intro w h
    obtain ⟨w', h', hnumber⟩ := exists_coerce_f64 (isNumeric_of_coerce_f64 h)
    obtain rfl := Option.some.inj (h.symm.trans h')
    refine ⟨kind_of_coerce h, hnumber, fun hkind => ?_⟩
    rw [← hkind, coerce_self] at h
    exact (Option.some.inj h).symm
  · intro w h
    obtain rfl := kind_of_coerce h
    exact ⟨rfl, coerce_self w⟩

/-- The negative zero is an integer, and the least positive double is none. -/
example : i32.coerce (.f64 ⟨0x8000000000000000⟩) = some (.i32 0) ∧ u8.coerce (.f64 ⟨1⟩) = none := by
  decide +kernel

end Kind

end Bytecode
