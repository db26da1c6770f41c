import Bytecode.Wire.Tape

/-!
# Access to what lies before the head

What has been written on a tape lies before its head. There it is found again by its offset, in
whatever way it is reached: looked at, replaced, or read after the head has been moved back.
-/

namespace Bytecode.Tape

variable {t : Tape} {as bs bs' cs : List UInt8}

theorem take_pos_bytes (t : Tape) : t.bytes.take t.pos = t.before := by
  rw [bytes, pos, List.take_left]

theorem drop_pos_bytes (t : Tape) (n : Nat) : t.bytes.drop (t.pos + n) = t.after.drop n := by
  rw [bytes, pos, ← List.drop_drop, List.drop_left]

theorem bytes_of_before_eq (h : t.before = as ++ bs ++ cs) :
    t.bytes = as ++ (bs ++ (cs ++ t.after)) := by
  rw [bytes, h, List.append_assoc, List.append_assoc]

theorem size_of_before_eq (h : t.before = as ++ bs ++ cs) :
    t.size = as.length + bs.length + cs.length + t.after.length := by
  rw [size, pos, remaining, h, List.length_append, List.length_append]

theorem peek_of_before_eq (h : t.before = as ++ bs ++ cs) :
    t.peek as.length bs.length = .ok bs := by
  have hsize := size_of_before_eq h
  rw [peek, if_pos (by omega), bytes_of_before_eq h, List.drop_left, List.take_left]

theorem patch_of_before_eq (h : t.before = as ++ bs ++ cs) (hlength : bs'.length = bs.length) :
    t.patch as.length bs' = .ok ⟨as ++ bs' ++ cs, t.after, t.growable⟩ := by
  have hsize := size_of_before_eq h
  have hpatched : t.bytes.take as.length ++ bs' ++ t.bytes.drop (as.length + bs'.length) =
      as ++ bs' ++ cs ++ t.after := by
    rw [bytes_of_before_eq h, List.take_left, hlength, ← List.drop_drop, List.drop_left,
      List.drop_left, List.append_assoc (as ++ bs')]
  have hpos : t.pos = (as ++ bs' ++ cs).length := by
    simp [pos, h, hlength]
  rw [patch, if_pos (by omega)]
  simp only [hpatched, hpos, List.take_left, List.drop_left]

theorem seek_of_before_eq (h : t.before = as ++ bs) :
    t.seek as.length = .ok ⟨as, bs ++ t.after, t.growable⟩ := by
  have hbytes : t.bytes = as ++ (bs ++ t.after) := by rw [bytes, h, List.append_assoc]
  have hsize : as.length ≤ t.size := by
    rw [size, pos, h, List.length_append]
    omega
  rw [seek, if_pos hsize, hbytes, List.take_left, List.drop_left]

@[simp]
theorem write_nil (t : Tape) : t.write [] = t := by simp [write]

theorem pos_write (t : Tape) (bs : List UInt8) : (t.write bs).pos = t.pos + bs.length := by
  rw [write, pos, List.length_append, ← pos]

theorem write_write (t : Tape) (as bs : List UInt8) :
    (t.write as).write bs = t.write (as ++ bs) := by
  simp [write]

end Bytecode.Tape
