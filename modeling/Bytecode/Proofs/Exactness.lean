import Bytecode.Proofs.Access
import Bytecode.Proofs.Codec
import Bytecode.Wire.Writing

/-!
# Writing and reading are inverse

What is written at the head of a tape is read back from there, and what was read is written again as
the very same bytes: `Kind.put_decode_inverse` says so for every kind, at every place of every tape.

In one direction, `Kind.put_eq` reduces writing in place to `Tape.write`, which leaves everything
alone but the stretch that the head passes over (`Tape.overwrites_write`). In the other,
`Kind.decode_eq_ok_iff` says that reading accepts wire forms and nothing else; that no wire form
begins another of the same kind (`Value.eq_of_wire_prefix`) is a consequence of it, since reading
looks at nothing behind the wire form that it accepts.
-/

namespace Bytecode

/-! ### Stretches of a tape -/

namespace Tape

variable {t t' : Tape} {as bs : List UInt8}

/-- The bytes between two offsets. -/
def stretch (start stop : Nat) (t : Tape) : List UInt8 := (t.bytes.take stop).drop start

/-- `t'` is `t` with the bytes between the two heads replaced, and longer than `t` only as far as
this takes. -/
structure Overwrites (t t' : Tape) : Prop where
  pos_le : t.pos ≤ t'.pos
  take_eq : t'.bytes.take t.pos = t.bytes.take t.pos
  drop_eq : t'.bytes.drop t'.pos = t.bytes.drop t'.pos
  size_eq : t'.size = max t.size t'.pos
  growable_eq : t'.growable = t.growable

theorem stretch_of_before_eq (h : t.before = as ++ bs) : t.stretch as.length t.pos = bs := by
  rw [stretch, take_pos_bytes, h, List.drop_left]

theorem stretch_write (t : Tape) (bs : List UInt8) :
    (t.write bs).stretch t.pos (t.write bs).pos = bs :=
  stretch_of_before_eq rfl

theorem Passes.stretch_eq (h : t.Passes bs t') : t'.stretch t.pos t'.pos = bs :=
  stretch_of_before_eq h.before_eq

theorem overwrites_write (t : Tape) (bs : List UInt8) : t.Overwrites (t.write bs) where
  pos_le := by
    rw [pos_write]
    exact Nat.le_add_right _ _
  take_eq := by
    rw [take_pos_bytes, bytes, write, List.append_assoc, pos, List.take_left]
  drop_eq := by
    -- behind the new head there is what was there before
    have hafter : (t.write bs).bytes.drop (t.write bs).pos = t.after.drop bs.length :=
      drop_pos_bytes (t.write bs) 0
    rw [hafter, pos_write, drop_pos_bytes]
  size_eq := by
    have hremaining : (t.write bs).remaining = t.remaining - bs.length := List.length_drop
    rw [size, size, pos_write, hremaining]
    omega
  growable_eq := rfl

/-- What has just been written lies ahead of the head when it is moved back. -/
theorem seek_write (t : Tape) (bs : List UInt8) :
    ∃ u, (t.write bs).seek t.pos = .ok u ∧ u.Passes bs (t.write bs) :=
  ⟨_, seek_of_before_eq rfl, rfl, rfl, rfl⟩

end Tape

/-! ### Writing in place -/

theorem Tape.putPrefixed_of_lt {payload : List UInt8} (h : payload.length < lengthLimit)
    (t : Tape) : putPrefixed payload t = .ok () (t.write (Value.lengthPrefixed payload)) := by
  rw [putPrefixed, if_pos h, Value.lengthPrefixed, ← write_write]
  rfl

theorem Value.put_of_fits {w : Value} (h : w.Fits) (t : Tape) :
    w.put t = .ok () (t.write w.wire) := by
  cases w with
  | i32 v => rfl
  | u32 v => rfl
  | f64 v => rfl
  | u8 v => rfl
  | bytes v => exact Tape.putPrefixed_of_lt h t
  | string v => exact Tape.putPrefixed_of_lt h t

theorem Value.put_of_not_fits {w : Value} (h : ¬ w.Fits) (t : Tape) :
    w.put t = .error (.tooLong w.payload.length) t := by
  cases w with
  | i32 v => exact absurd (fits_of_isNumeric rfl) h
  | u32 v => exact absurd (fits_of_isNumeric rfl) h
  | f64 v => exact absurd (fits_of_isNumeric rfl) h
  | u8 v => exact absurd (fits_of_isNumeric rfl) h
  | bytes v => exact congrFun (if_neg h) t
  | string v => exact congrFun (if_neg h) t

/-- Writing in place does what writing does, and where that refuses a value, the tape is as it
was. -/
theorem Kind.put_eq (k : Kind) (v : Value) (t : Tape) :
    k.put v t = match k.encode v t with
      | .ok t' => .ok () t'
      | .error e => .error e t := by
  rw [put, encode]
  cases k.coerce v with
  | none => rfl
  | some w =>
    by_cases h : w.Fits
    · simp only [Value.put_of_fits h, if_pos (show w.payload.length < lengthLimit from h)]
    · simp only [Value.put_of_not_fits h, if_neg (show ¬ w.payload.length < lengthLimit from h)]

theorem Kind.put_of_coerce {k : Kind} {v w : Value} (h : k.coerce v = some w) (hfits : w.Fits)
    (t : Tape) : k.put v t = .ok () (t.write w.wire) := by
  rw [put, h]
  exact Value.put_of_fits hfits t

/-! ### Wire forms of one kind -/

/-- A wire form does not begin another wire form of the same kind. -/
theorem Value.eq_of_wire_prefix {v w : Value} (hkind : v.kind = w.kind) (hv : v.Fits) (hw : w.Fits)
    (h : v.wire <+: w.wire) : v = w := by
  -- on a tape with the longer one, reading yields both
  obtain ⟨rest, hrest⟩ := h
  have hpasses : (Tape.fixed w.wire).Passes v.wire _ := Tape.passes_of_after_eq hrest.symm
  have hpasses' : (Tape.fixed w.wire).Passes w.wire _ :=
    Tape.passes_of_after_eq (List.append_nil _).symm
  have hread := Kind.decode_eq_ok_iff.mpr ⟨hkind, hv, hpasses⟩
  have hread' := Kind.decode_eq_ok_iff.mpr ⟨rfl, hw, hpasses'⟩
  cases hread.symm.trans hread'
  rfl

theorem Kind.exists_of_put_blank {k : Kind} {v : Value} {t : Tape}
    (h : k.put v Tape.blank = .ok () t) :
    ∃ w : Value, w.kind = k ∧ w.Fits ∧ t.bytes = w.wire := by
  rw [put_eq] at h
  cases hencode : k.encode v Tape.blank with
  | error e =>
    rw [hencode] at h
    cases h
  | ok t' =>
    rw [hencode] at h
    cases h
    obtain ⟨w, hw, hfits, rfl⟩ := encode_eq_ok_iff.mp hencode
    exact ⟨w, kind_of_coerce hw, hfits, by simp [Tape.bytes, Tape.write, Tape.blank]⟩

/-- **Writing and reading are inverse.** A value that converts to a kind, with a payload that a
length word can measure, is written at the head of any tape: only the stretch that the head passes
over changes, the tape grows only as far as need be, and reading from where the head was gives the
converted value, bit for bit, up to where the head is now; so it does on every tape with this
stretch ahead of its head, whatever follows. Conversely, what reading a kind yields converts to
itself, and to write it puts exactly the bytes that were read. No encoding of a value of a kind
begins another one. And a value that does not convert is refused, the tape being left as it was. -/
theorem Kind.put_decode_inverse (k : Kind) :
    (∀ v t, k.put v t = match k.encode v t with
      | .ok t' => .ok () t'
      | .error e => .error e t) ∧
    (∀ v w t, k.coerce v = some w → w.payload.length < lengthLimit →
      ∃ t', k.put v t = .ok () t' ∧ t.Overwrites t' ∧
        (∃ u, t'.seek t.pos = .ok u ∧ k.decode u = .ok w t') ∧
        ∀ u : Tape, t'.stretch t.pos t'.pos <+: u.after →
          ∃ u', k.decode u = .ok w u' ∧ u.Passes (t'.stretch t.pos t'.pos) u') ∧
    (∀ t w t', k.decode t = .ok w t' → k.coerce w = some w ∧ t'.bytes = t.bytes ∧
      ∀ u, k.put w u = .ok () (u.write (t'.stretch t.pos t'.pos))) ∧
    (∀ v v' t t', k.put v Tape.blank = .ok () t → k.put v' Tape.blank = .ok () t' →
      t.bytes <+: t'.bytes → t.bytes = t'.bytes) ∧
    ∀ v t, k.coerce v = none → k.put v t = .error (.mismatch k) t := by
  refine ⟨k.put_eq, ?_, ?_, ?_, ?_⟩
  · intro v w t hw hfits
    have hkind := kind_of_coerce hw
    refine ⟨t.write w.wire, put_of_coerce hw hfits t, t.overwrites_write w.wire, ?_, ?_⟩
    · obtain ⟨u, hseek, hpasses⟩ := t.seek_write w.wire
      exact ⟨u, hseek, decode_eq_ok_iff.mpr ⟨hkind, hfits, hpasses⟩⟩
    · intro u hahead
      rw [Tape.stretch_write] at hahead ⊢
      obtain ⟨u', hpasses⟩ := Tape.exists_passes_iff.mpr hahead
      exact ⟨u', decode_eq_ok_iff.mpr ⟨hkind, hfits, hpasses⟩, hpasses⟩
  · intro t w t' hread
    obtain ⟨rfl, hfits, hpasses⟩ := decode_eq_ok_iff.mp hread
    refine ⟨coerce_self w, hpasses.bytes_eq, fun u => ?_⟩
    rw [hpasses.stretch_eq]
    exact put_of_coerce (coerce_self w) hfits u
  · intro v v' t t' hput hput' hprefix
    obtain ⟨w, hkind, hfits, hbytes⟩ := exists_of_put_blank hput
    obtain ⟨w', hkind', hfits', hbytes'⟩ := exists_of_put_blank hput'
    rw [hbytes, hbytes'] at hprefix
    rw [hbytes, hbytes', Value.eq_of_wire_prefix (hkind.trans hkind'.symm) hfits hfits' hprefix]
  · intro v t hnone
    rw [put, hnone]
    rfl

end Bytecode
