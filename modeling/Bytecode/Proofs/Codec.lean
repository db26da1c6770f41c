import Bytecode.Proofs.Passage

/-!
# Reading and writing values

`Kind.decode_eq_ok_iff` says exactly what reading a value of a kind accepts: the wire form of a
value of that kind whose payload a length word can measure, and nothing else. So one lemma serves
both ways, for reading back what was written and for writing again what was read.

Writing converts first. Conversion yields a value of the kind asked for (`Kind.kind_of_coerce`) and
leaves a value of that kind as it is (`Kind.coerce_self`), bit for bit.
-/

namespace Bytecode

/-- The payload of a value is short enough for a length word. -/
def Value.Fits (v : Value) : Prop := v.payload.length < lengthLimit

instance (v : Value) : Decidable v.Fits := inferInstanceAs (Decidable (_ < _))

/-! ### Conversion -/

namespace Kind

theorem ofInt?_toInt (v : Int32) : i32.ofInt? v.toInt = some (.i32 v) := by
  have hlo := v.le_toInt
  have hhi := v.toInt_lt
  rw [ofInt?, if_pos ⟨hlo, hhi⟩, Int32.ofInt_toInt]

theorem ofInt?_toNat_word (v : UInt32) : u32.ofInt? v.toNat = some (.u32 v) := by
  have hhi := v.toNat_lt
  rw [ofInt?, if_pos ⟨Int.natCast_nonneg _, by omega⟩, Int.toNat_natCast, UInt32.ofNat_toNat]

theorem ofInt?_toNat_byte (v : UInt8) : u8.ofInt? v.toNat = some (.u8 v) := by
  have hhi := v.toNat_lt
  rw [ofInt?, if_pos ⟨Int.natCast_nonneg _, by omega⟩, Int.toNat_natCast, UInt8.ofNat_toNat]

/-- A value of a kind converts to that kind as itself. -/
@[simp]
theorem coerce_self (v : Value) : v.kind.coerce v = some v := by
  cases v with
  | i32 v => rw [Value.kind, coerce, Value.toInt?, Option.bind_some, ofInt?_toInt]
  | u32 v => rw [Value.kind, coerce, Value.toInt?, Option.bind_some, ofInt?_toNat_word]
  | u8 v => rw [Value.kind, coerce, Value.toInt?, Option.bind_some, ofInt?_toNat_byte]
  | f64 v => rfl
  | bytes v => rfl
  | string v => rfl

theorem kind_of_ofInt? {k : Kind} {i : Int} {w : Value} (h : k.ofInt? i = some w) :
    w.kind = k := by
  cases k with
  | i32 | u32 | u8 =>
    simp only [ofInt?] at h
    split at h
    · cases h
      rfl
    · cases h
  | f64 | bytes | string => cases h

/-- Conversion to a kind yields values of that kind. -/
theorem kind_of_coerce {k : Kind} {v w : Value} (h : k.coerce v = some w) : w.kind = k := by
  cases k with
  | i32 | u32 | u8 =>
    obtain ⟨i, -, hi⟩ := Option.bind_eq_some_iff.mp h
    exact kind_of_ofInt? hi
  | f64 =>
    obtain ⟨x, -, rfl⟩ := Option.map_eq_some_iff.mp h
    rfl
  | bytes =>
    cases v with
    | bytes | string =>
      cases h
      rfl
    | _ => cases h
  | string =>
    obtain ⟨s, -, rfl⟩ := Option.map_eq_some_iff.mp h
    rfl

/-! ### Writing -/

theorem encode_eq_ok_iff {k : Kind} {v : Value} {t t' : Tape} :
    k.encode v t = .ok t' ↔ ∃ w, k.coerce v = some w ∧ w.Fits ∧ t.write w.wire = t' := by
  unfold encode
  cases h : k.coerce v with
  | none => simp
  | some w =>
    simp only [Option.some.injEq, exists_eq_left']
    by_cases hw : w.Fits
    · rw [if_pos (show w.payload.length < lengthLimit from hw)]
      simp [hw]
    · rw [if_neg (show ¬ w.payload.length < lengthLimit from hw)]
      simp [hw]

end Kind

/-! ### Reading -/

namespace Tape

variable {α : Type} {t t' : Tape}

/-- A length word and what it measures, for any read whose results are determined by their bytes. -/
theorem prefixed_eq_ok_iff {read : Nat → Reading α} (payload : α → List UInt8)
    (hread : ∀ {count a t t'}, read count t = .ok a t' ↔
      (payload a).length = count ∧ t.Passes (payload a) t') {a : α} :
    (readWord >>= fun length => read length.toNat) t = .ok a t' ↔
      (payload a).length < lengthLimit ∧ t.Passes (Value.lengthPrefixed (payload a)) t' := by
  rw [Reading.bind_eq_ok_iff]
  constructor
  · rintro ⟨length, t₁, hlength, ha⟩
    obtain ⟨hcount, hpayload⟩ := hread.mp ha
    have hword := readWord_eq_ok_iff.mp hlength
    have hlt : length.toNat < lengthLimit := length.toNat_lt
    rw [← hcount] at hword hlt
    exact ⟨hlt, hword.trans hpayload⟩
  · rintro ⟨hlimit, h⟩
    obtain ⟨t₁, hword, hpayload⟩ := h.split
    -- below the limit the length word says the length itself
    have hlength : (UInt32.ofNat (payload a).length).toNat = (payload a).length := by
      rw [UInt32.toNat_ofNat']
      exact Nat.mod_eq_of_lt hlimit
    refine ⟨UInt32.ofNat (payload a).length, t₁, readWord_eq_ok_iff.mpr ?_, hread.mpr ?_⟩
    · rwa [hlength]
    · exact ⟨hlength.symm, hpayload⟩

/-- Values of a kind, made from what a read of their bytes yields. -/
theorem map_eq_ok_iff_of_kind {k : Kind} {read : Reading α} {make : α → Value}
    (hmake : ∀ v : Value, v.kind = k ↔ ∃ a, make a = v)
    (hread : ∀ {a t t'}, read t = .ok a t' ↔ (make a).Fits ∧ t.Passes (make a).wire t')
    {v : Value} :
    (make <$> read) t = .ok v t' ↔ v.kind = k ∧ v.Fits ∧ t.Passes v.wire t' := by
  rw [Reading.map_eq_ok_iff]
  constructor
  · rintro ⟨a, ha, rfl⟩
    exact ⟨(hmake _).mpr ⟨a, rfl⟩, hread.mp ha⟩
  · rintro ⟨hk, h⟩
    obtain ⟨a, rfl⟩ := (hmake v).mp hk
    exact ⟨a, hread.mpr h, rfl⟩

end Tape

/-- Numbers have no payload, so that they always fit. -/
theorem Value.fits_of_isNumeric {v : Value} (h : v.kind.isNumeric = true) : v.Fits := by
  cases v with
  | i32 | u32 | f64 | u8 => exact Nat.two_pow_pos 32
  | bytes | string => cases h

open Tape in
/-- Reading a value of a kind accepts the wire forms of the values of that kind, and nothing
else. -/
theorem Kind.decode_eq_ok_iff {k : Kind} {v : Value} {t t' : Tape} :
    k.decode t = .ok v t' ↔ v.kind = k ∧ v.Fits ∧ t.Passes v.wire t' := by
  cases k with
  | i32 =>
    refine map_eq_ok_iff_of_kind (fun v => ?_) fun {i t t'} => ?_
    · cases v <;> simp [Value.kind]
    · rw [readInt_eq_ok_iff, and_iff_right (Value.fits_of_isNumeric rfl), Value.wire]
  | u32 =>
    refine map_eq_ok_iff_of_kind (fun v => ?_) fun {w t t'} => ?_
    · cases v <;> simp [Value.kind]
    · rw [readWord_eq_ok_iff, and_iff_right (Value.fits_of_isNumeric rfl), Value.wire]
  | f64 =>
    refine map_eq_ok_iff_of_kind (fun v => ?_) fun {x t t'} => ?_
    · cases v <;> simp [Value.kind]
    · rw [readDouble_eq_ok_iff, and_iff_right (Value.fits_of_isNumeric rfl), Value.wire]
  | u8 =>
    refine map_eq_ok_iff_of_kind (fun v => ?_) fun {b t t'} => ?_
    · cases v <;> simp [Value.kind]
    · rw [readByte_eq_ok_iff, and_iff_right (Value.fits_of_isNumeric rfl), Value.wire]
  | bytes =>
    -- the constructor is pulled out of the bind, so that the read is of a payload alone
    have hdecode : bytes.decode = .bytes <$> (readWord >>= fun length => take length.toNat) :=
      (map_bind ..).symm
    rw [hdecode]
    refine map_eq_ok_iff_of_kind (fun v => ?_) fun {bs t t'} => ?_
    · cases v <;> simp [Value.kind]
    · exact prefixed_eq_ok_iff id take_eq_ok_iff
  | string =>
    have hdecode : string.decode = .string <$> (readWord >>= fun length => readText length.toNat) :=
      (map_bind ..).symm
    rw [hdecode]
    refine map_eq_ok_iff_of_kind (fun v => ?_) fun {s t t'} => ?_
    · cases v <;> simp [Value.kind]
    · exact prefixed_eq_ok_iff Text.utf8 readText_eq_ok_iff

end Bytecode
