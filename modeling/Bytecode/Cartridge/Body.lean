import Bytecode.Cartridge.Header

/-!
# Bodies of cartridges

`Format.readInstruction` reads one instruction at the head of a tape, and `Format.readAll` reads
instructions up to the end of the tape or the first error.

Reading a value never moves the head back, and an instruction takes at least its opcode byte
(`remaining_lt_of_readInstruction`); this is why reading all instructions comes to an end.
-/

namespace Bytecode

/-- An instruction as it stands in a cartridge. -/
structure Decoded where
  /-- The offset of the opcode byte. -/
  offset : Nat
  instruction : Instruction
  /-- The arguments in wire order. -/
  args : List Value
deriving DecidableEq, Repr, Inhabited

/-- Reads an argument of the kind that a field declares. -/
def Field.read (field : Field) : Parsing Value := (field.kind.decode).reporting .fault

/-- Reads one instruction. -/
def Format.readInstruction (f : Format) : Parsing Decoded := fun t =>
  match Tape.readByte t with
  | .error fault _ => .error (.fault fault)
  | .ok opcode t₁ =>
    match f.byOpcode? opcode with
    | none => .error (.unknownOpcode opcode)
    | some i =>
      match i.args.mapM Field.read t₁ with
      | .error e => .error e
      | .ok (args, t₂) => .ok (⟨t.pos, i, args⟩, t₂)

/-! ### Progress -/

/-- A reading that never lets the head move back. -/
def Tape.Reading.Advances {α : Type} (read : Tape.Reading α) : Prop :=
  ∀ t a t', read t = .ok a t' → t'.remaining ≤ t.remaining

namespace Tape

theorem remaining_of_take {count : Nat} {t t' : Tape} {bs : List UInt8}
    (h : take count t = .ok bs t') : t'.remaining + count = t.remaining := by
  unfold take at h
  split at h
  · cases h
    simp only [remaining, List.length_drop] at *
    omega
  · cases h

theorem advances_take (count : Nat) : (take count).Advances := fun _ _ _ h => by
  have := remaining_of_take h
  omega

theorem Reading.Advances.map {α β : Type} {read : Reading α} (h : read.Advances) (g : α → β) :
    Reading.Advances (g <$> read) := fun t b t' hb => by
  simp only [Functor.map, EStateM.map] at hb
  split at hb
  · cases hb
    exact h _ _ _ ‹_›
  · cases hb

theorem Reading.Advances.bind {α β : Type} {read : Reading α} {next : α → Reading β}
    (h : read.Advances) (hnext : ∀ a, (next a).Advances) :
    Reading.Advances (read >>= next) := fun t b t' hb => by
  simp only [Bind.bind, EStateM.bind] at hb
  split at hb
  · exact Nat.le_trans (hnext _ _ _ _ hb) (h _ _ _ ‹_›)
  · cases hb

theorem advances_readNat (width : Nat) : (readNat width).Advances := (advances_take width).map _

theorem advances_readWord : readWord.Advances := (advances_readNat 4).map _

theorem advances_readText (count : Nat) : (readText count).Advances := by
  intro t s t' h
  unfold readText at h
  split at h
  · split at h
    · cases h
      exact advances_take count _ _ _ ‹_›
    · cases h
  · cases h

theorem remaining_of_readByte {t t' : Tape} {b : UInt8} (h : readByte t = .ok b t') :
    t'.remaining + 1 = t.remaining := by
  simp only [readByte, readNat, Functor.map, EStateM.map] at h
  split at h
  · rename_i hn
    split at hn
    · cases hn
      cases h
      exact remaining_of_take ‹_›
    · cases hn
  · cases h

end Tape

theorem Kind.advances_decode (k : Kind) : k.decode.Advances := by
  cases k with
  | i32 => exact (Tape.advances_readWord.map _).map _
  | u32 => exact Tape.advances_readWord.map _
  | f64 => exact ((Tape.advances_readNat 8).map _).map _
  | u8 => exact ((Tape.advances_readNat 1).map _).map _
  | bytes => exact Tape.advances_readWord.bind fun _ => (Tape.advances_take _).map _
  | string => exact Tape.advances_readWord.bind fun _ => (Tape.advances_readText _).map _

theorem remaining_le_of_reporting {α : Type} {read : Tape.Reading α} (hread : read.Advances)
    {report : Tape.Fault → ReadError} {t t' : Tape} {a : α}
    (h : read.reporting report t = .ok (a, t')) : t'.remaining ≤ t.remaining := by
  unfold Tape.Reading.reporting at h
  split at h
  · cases h
    exact hread _ _ _ ‹_›
  · cases h

theorem remaining_le_of_mapM_read {fields : List Field} {t t' : Tape} {values : List Value}
    (h : fields.mapM Field.read t = .ok (values, t')) : t'.remaining ≤ t.remaining := by
  induction fields generalizing t values with
  | nil =>
    cases h
    exact Nat.le_refl _
  | cons field fields ih =>
    simp only [List.mapM_cons, Bind.bind, StateT.bind, Except.bind] at h
    split at h
    · cases h
    · rename_i head hhead
      split at h
      · cases h
      · rename_i tail htail
        cases h
        exact Nat.le_trans (ih htail) (remaining_le_of_reporting field.kind.advances_decode hhead)

theorem remaining_lt_of_readInstruction {f : Format} {t t' : Tape} {d : Decoded}
    (h : f.readInstruction t = .ok (d, t')) : t'.remaining < t.remaining := by
  unfold Format.readInstruction at h
  split at h
  · cases h
  · rename_i hopcode
    split at h
    · cases h
    · split at h
      · cases h
      · rename_i hargs
        cases h
        have hbyte := Tape.remaining_of_readByte hopcode
        have hrest := remaining_le_of_mapM_read hargs
        omega

/-! ### All instructions -/

/-- How reading a body ends: the instructions read, the tape after them, and the error at that
place, unless the tape ends there. -/
structure Body where
  /-- The instructions read, in order. -/
  instructions : List Decoded
  /-- The tape after the last of them. -/
  rest : Tape
  /-- Why reading stopped before the end of the tape. -/
  failure : Option ReadError

/-- Reads instructions up to the end of the tape or the first error. -/
def Format.readAll (f : Format) (t : Tape) : Body :=
  if t.remaining = 0 then ⟨[], t, none⟩
  else
    match h : f.readInstruction t with
    | .error e => ⟨[], t, some e⟩
    | .ok (d, t') =>
      have := remaining_lt_of_readInstruction h
      let body := f.readAll t'
      { body with instructions := d :: body.instructions }
termination_by t.remaining

end Bytecode
