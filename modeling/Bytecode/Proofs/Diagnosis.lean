import Bytecode.Proofs.Orders
import Bytecode.Proofs.Truncation

/-!
# Why an instruction cannot be read

Where no instruction can be read, the error says exactly why. `Format.Refuses` lists the reasons:
there is no byte, or the byte is no opcode, or the arguments up to one of them can be read and this
one has a flaw. The flaws of a value are listed by `Kind.Flaw`, each with the offset that is
reported: bytes are missing, of a number, a length word or a payload, or a payload that is all there
is no text.

That these are all reasons, and each of them is one, is shown by following the reads: the lemmas
named `failsWith_` say with which faults a read fails, from `failsWith_take_iff` up to
`Kind.failsWith_decode_iff` for values. They stand beside the lemmas named `_eq_ok_iff`, which say
what a read accepts.
-/

namespace Bytecode

/-! ### Failures of reads -/

namespace Tape

variable {α β : Type} {t t' : Tape} {fault : Fault}

/-- The read fails with a fault, wherever it leaves the head. -/
def Reading.FailsWith (read : Reading α) (t : Tape) (fault : Fault) : Prop :=
  ∃ t', read t = .error fault t'

theorem Reading.failsWith_map_iff {read : Reading α} {g : α → β} :
    Reading.FailsWith (g <$> read) t fault ↔ read.FailsWith t fault := by
  simp only [FailsWith, Functor.map, EStateM.map]
  cases read t <;> simp

theorem Reading.failsWith_bind_iff {read : Reading α} {next : α → Reading β} :
    Reading.FailsWith (read >>= next) t fault ↔
      read.FailsWith t fault ∨ ∃ a t₁, read t = .ok a t₁ ∧ (next a).FailsWith t₁ fault := by
  simp only [FailsWith, Bind.bind, EStateM.bind]
  cases read t <;> simp

theorem failsWith_take_iff {count : ℕ} :
    (take count).FailsWith t fault ↔ t.remaining < count ∧ fault = .truncated t.pos count := by
  unfold Reading.FailsWith take
  split
  · rename_i hcount
    exact iff_of_false (by simp) (by omega)
  · rename_i hcount
    rw [and_iff_right (by omega), eq_comm (a := fault)]
    simp

theorem failsWith_readNat_iff {width : ℕ} :
    (readNat width).FailsWith t fault ↔ t.remaining < width ∧ fault = .truncated t.pos width := by
  rw [readNat, Reading.failsWith_map_iff, failsWith_take_iff]

theorem failsWith_readByte_iff :
    readByte.FailsWith t fault ↔ t.remaining < 1 ∧ fault = .truncated t.pos 1 := by
  rw [readByte, Reading.failsWith_map_iff, failsWith_readNat_iff]

theorem failsWith_readWord_iff :
    readWord.FailsWith t fault ↔ t.remaining < 4 ∧ fault = .truncated t.pos 4 := by
  rw [readWord, Reading.failsWith_map_iff, failsWith_readNat_iff]

/-- A text cannot be read where bytes are missing, or where they are all there and no text. -/
theorem failsWith_readText_iff {count : ℕ} :
    (readText count).FailsWith t fault ↔
      (t.remaining < count ∧ fault = .truncated t.pos count) ∨
        ∃ bs t', (bs.length = count ∧ t.Passes bs t') ∧ (∀ s, Text.utf8 s ≠ bs) ∧
          fault = .malformedText t.pos := by
  have hfails : (readText count).FailsWith t fault ↔ (take count).FailsWith t fault ∨
      ∃ bs t', take count t = .ok bs t' ∧ Text.ofUtf8? bs = none ∧
        fault = .malformedText t.pos := by
    unfold Reading.FailsWith readText
    cases take count t with
    | error fault' t₁ => simp
    | ok bs t₁ => cases h : Text.ofUtf8? bs <;> simp [h, eq_comm]
  have hnone (bs : List UInt8) : Text.ofUtf8? bs = none ↔ ∀ s, Text.utf8 s ≠ bs := by
    simp only [Option.eq_none_iff_forall_ne_some, ne_eq, Text.ofUtf8?_eq_some_iff]
  rw [hfails, failsWith_take_iff]
  simp only [take_eq_ok_iff, hnone]

/-- A payload cannot be read where its length word is incomplete, or where it cannot be read behind
its length word. -/
theorem failsWith_prefixed_iff {read : ℕ → Reading α} :
    Reading.FailsWith (readWord >>= fun length => read length.toNat) t fault ↔
      (t.remaining < 4 ∧ fault = .truncated t.pos 4) ∨
        ∃ length t', length < lengthLimit ∧ t.Passes (LittleEndian.toBytes 4 length) t' ∧
          (read length).FailsWith t' fault := by
  rw [Reading.failsWith_bind_iff, failsWith_readWord_iff]
  refine or_congr_right ?_
  constructor
  · rintro ⟨word, t', hword, h⟩
    exact ⟨word.toNat, t', word.toNat_lt, readWord_eq_ok_iff.mp hword, h⟩
  · rintro ⟨length, t', hlimit, hpasses, h⟩
    have hlength : (UInt32.ofNat length).toNat = length := by
      rw [UInt32.toNat_ofNat']
      exact Nat.mod_eq_of_lt hlimit
    refine ⟨UInt32.ofNat length, t', readWord_eq_ok_iff.mpr ?_, ?_⟩
    · rwa [hlength]
    · rwa [hlength]

end Tape

/-! ### Flaws of values -/

namespace Kind

/-- What is wrong with bytes that lie from an offset up to the end and do not start with a value of
a kind. -/
inductive Flaw (k : Kind) (offset : ℕ) (bs : List UInt8) : Tape.Fault → Prop where
  /-- Bytes of a number are missing. -/
  | number {width : ℕ} : k.width? = some width → bs.length < width →
    Flaw k offset bs (.truncated offset width)
  /-- Bytes of the length word are missing. -/
  | lengthWord : k.width? = none → bs.length < 4 → Flaw k offset bs (.truncated offset 4)
  /-- Bytes of the payload are missing, compared with what the length word says. -/
  | payload {length : ℕ} {rest : List UInt8} : k.width? = none → length < lengthLimit →
    bs = LittleEndian.toBytes 4 length ++ rest → rest.length < length →
      Flaw k offset bs (.truncated (offset + 4) length)
  /-- The payload is all there, and no text. -/
  | text {payload rest : List UInt8} : k = .string → payload.length < lengthLimit →
    bs = Value.lengthPrefixed payload ++ rest → (∀ s, Text.utf8 s ≠ payload) →
      Flaw k offset bs (.malformedText (offset + 4))

variable {k : Kind} {t : Tape} {fault : Tape.Fault}

open Tape

theorem failsWith_decode_iff_of_width {width : ℕ} (h : k.width? = some width) :
    k.decode.FailsWith t fault ↔ t.remaining < width ∧ fault = .truncated t.pos width := by
  cases k with
  | i32 =>
    cases h
    rw [decode, Reading.failsWith_map_iff, readInt, Reading.failsWith_map_iff,
      failsWith_readWord_iff]
  | u32 =>
    cases h
    rw [decode, Reading.failsWith_map_iff, failsWith_readWord_iff]
  | f64 =>
    cases h
    rw [decode, Reading.failsWith_map_iff, readDouble, Reading.failsWith_map_iff,
      failsWith_readNat_iff]
  | u8 =>
    cases h
    rw [decode, Reading.failsWith_map_iff, failsWith_readByte_iff]
  | bytes | string => cases h

theorem failsWith_decode_bytes_iff : bytes.decode.FailsWith t fault ↔
    (t.remaining < 4 ∧ fault = .truncated t.pos 4) ∨
      ∃ length t', length < lengthLimit ∧ t.Passes (LittleEndian.toBytes 4 length) t' ∧
        t'.remaining < length ∧ fault = .truncated t'.pos length := by
  have hdecode : bytes.decode = .bytes <$> (readWord >>= fun length => take length.toNat) :=
    (map_bind ..).symm
  rw [hdecode, Reading.failsWith_map_iff, failsWith_prefixed_iff]
  simp only [failsWith_take_iff]

theorem failsWith_decode_string_iff : string.decode.FailsWith t fault ↔
    (t.remaining < 4 ∧ fault = .truncated t.pos 4) ∨
      ∃ length t', length < lengthLimit ∧ t.Passes (LittleEndian.toBytes 4 length) t' ∧
        ((t'.remaining < length ∧ fault = .truncated t'.pos length) ∨
          ∃ bs t'', (bs.length = length ∧ t'.Passes bs t'') ∧ (∀ s, Text.utf8 s ≠ bs) ∧
            fault = .malformedText t'.pos) := by
  have hdecode : string.decode = .string <$> (readWord >>= fun length => readText length.toNat) :=
    (map_bind ..).symm
  rw [hdecode, Reading.failsWith_map_iff, failsWith_prefixed_iff]
  simp only [failsWith_readText_iff]

/-- The head passes over a length word of four bytes. -/
theorem pos_of_passes_toBytes {width n : ℕ} {t' : Tape}
    (h : t.Passes (LittleEndian.toBytes width n) t') : t'.pos = t.pos + width := by
  rw [h.pos_eq, LittleEndian.length_toBytes]

/-- Reading a value of a kind fails with the flaw of the bytes ahead. -/
theorem failsWith_decode_iff : k.decode.FailsWith t fault ↔ k.Flaw t.pos t.after fault := by
  constructor
  · intro h
    cases hwidth : k.width? with
    | some width =>
      obtain ⟨hlt, rfl⟩ := (failsWith_decode_iff_of_width hwidth).mp h
      exact .number hwidth hlt
    | none =>
      cases k with
      | i32 | u32 | f64 | u8 => cases hwidth
      | bytes =>
        rcases failsWith_decode_bytes_iff.mp h with ⟨hlt, rfl⟩ | h
        · exact .lengthWord rfl hlt
        · obtain ⟨length, t', hlimit, hword, hlt, rfl⟩ := h
          rw [pos_of_passes_toBytes hword]
          exact .payload rfl hlimit hword.after_eq hlt
      | string =>
        rcases failsWith_decode_string_iff.mp h with ⟨hlt, rfl⟩ | ⟨length, t', hlimit, hword, h⟩
        · exact .lengthWord rfl hlt
        rcases h with ⟨hlt, rfl⟩ | ⟨payload, t'', ⟨rfl, hpayload⟩, hmalformed, rfl⟩
        · rw [pos_of_passes_toBytes hword]
          exact .payload rfl hlimit hword.after_eq hlt
        · rw [pos_of_passes_toBytes hword]
          exact .text rfl hlimit (hword.trans hpayload).after_eq hmalformed
  · intro h
    cases h with
    | number hwidth hlt => exact (failsWith_decode_iff_of_width hwidth).mpr ⟨hlt, rfl⟩
    | lengthWord hwidth hlt =>
      cases k with
      | i32 | u32 | f64 | u8 => cases hwidth
      | bytes => exact failsWith_decode_bytes_iff.mpr (Or.inl ⟨hlt, rfl⟩)
      | string => exact failsWith_decode_string_iff.mpr (Or.inl ⟨hlt, rfl⟩)
    | @payload length rest hwidth hlimit hafter hlt =>
      have hword := passes_of_after_eq hafter
      rw [← pos_of_passes_toBytes hword]
      cases k with
      | i32 | u32 | f64 | u8 => cases hwidth
      | bytes =>
        exact failsWith_decode_bytes_iff.mpr (Or.inr ⟨length, _, hlimit, hword, hlt, rfl⟩)
      | string =>
        refine failsWith_decode_string_iff.mpr (Or.inr ⟨length, _, hlimit, hword, ?_⟩)
        exact Or.inl ⟨hlt, rfl⟩
    | @text payload rest hk hlimit hafter hmalformed =>
      subst hk
      obtain ⟨t', hword, hpayload⟩ := (passes_of_after_eq hafter).split
      rw [← pos_of_passes_toBytes hword]
      refine failsWith_decode_string_iff.mpr (Or.inr ⟨payload.length, t', hlimit, hword, ?_⟩)
      exact Or.inr ⟨payload, _, ⟨rfl, hpayload⟩, hmalformed, rfl⟩

/-- Bytes are missing behind an offset that is still within them, and fewer are there than are
needed. -/
theorem Flaw.bounds {offset offset' needed : ℕ} {bs : List UInt8}
    (h : k.Flaw offset bs (.truncated offset' needed)) :
    offset ≤ offset' ∧ offset' ≤ offset + bs.length ∧ offset + bs.length < offset' + needed := by
  cases h with
  | number _ hlt => omega
  | lengthWord _ hlt => omega
  | payload _ _ hbs hlt =>
    have hlength := congrArg List.length hbs
    rw [List.length_append, LittleEndian.length_toBytes] at hlength
    omega

end Kind

/-! ### Reasons -/

theorem Tape.Reading.reporting_eq_error_iff {α : Type} {read : Tape.Reading α}
    {report : Tape.Fault → ReadError} {t : Tape} {e : ReadError} :
    read.reporting report t = .error e ↔ ∃ fault, read.FailsWith t fault ∧ report fault = e := by
  unfold Tape.Reading.reporting Tape.Reading.FailsWith
  cases read t <;> simp

theorem Field.read_eq_error_iff {field : Field} {t : Tape} {e : ReadError} :
    field.read t = .error e ↔ ∃ fault, field.kind.Flaw t.pos t.after fault ∧ .fault fault = e := by
  rw [Field.read, Tape.Reading.reporting_eq_error_iff]
  simp only [Kind.failsWith_decode_iff]

namespace Format

/-- Why no instruction can be read at the head of a tape. -/
inductive Refuses (f : Format) (t : Tape) : ReadError → Prop where
  /-- There is no byte. -/
  | ended : t.after = [] → Refuses f t (.fault (.truncated t.pos 1))
  /-- There is a byte, and no instruction has it for its opcode. -/
  | unassigned {opcode : UInt8} {rest : List UInt8} : t.after = opcode :: rest →
    (∀ i ∈ f.instructions, i.opcode ≠ opcode) → Refuses f t (.unknownOpcode opcode)
  /-- There is the opcode of an instruction and behind it values for its first arguments, and the
  bytes behind these are flawed as a value for the next one. -/
  | argument {i : Instruction} {before later : List Field} {field : Field} {values : List Value}
      {rest : List UInt8} {fault : Tape.Fault} : i ∈ f.instructions →
    i.args = before ++ field :: later → List.Forall₂ Field.Admits before values →
    t.after = i.opcode :: (values.flatMap Value.wire ++ rest) →
    field.kind.Flaw (t.pos + 1 + (values.flatMap Value.wire).length) rest fault →
      Refuses f t (.fault fault)

variable {f : Format} {t : Tape} {e : ReadError}

theorem pos_of_passes_cons {t' : Tape} {b : UInt8} {bs : List UInt8} (h : t.Passes (b :: bs) t') :
    t'.pos = t.pos + 1 + bs.length := by
  rw [h.pos_eq, List.length_cons, Nat.add_assoc, Nat.add_comm 1]

/-- Where reading an instruction stops. -/
theorem readInstruction_eq_error_iff_cases : f.readInstruction t = .error e ↔
    (t.remaining < 1 ∧ .fault (.truncated t.pos 1) = e) ∨
      ∃ opcode t₁, t.Passes [opcode] t₁ ∧
        ((f.byOpcode? opcode = none ∧ .unknownOpcode opcode = e) ∨
          ∃ i, f.byOpcode? opcode = some i ∧ i.args.mapM Field.read t₁ = .error e) := by
  simp only [← Tape.readByte_eq_ok_iff]
  unfold readInstruction
  cases hbyte : Tape.readByte t with
  | error fault t₁ =>
    obtain ⟨hlt, rfl⟩ := Tape.failsWith_readByte_iff.mp ⟨t₁, hbyte⟩
    simp [hlt]
  | ok opcode t₁ =>
    have hremaining := (Tape.readByte_eq_ok_iff.mp hbyte).remaining_eq
    have hsome : ¬ t.remaining < 1 := by
      rw [List.length_singleton] at hremaining
      omega
    cases hi : f.byOpcode? opcode with
    | none => simp [hsome, hi]
    | some i => cases hargs : i.args.mapM Field.read t₁ <;> simp [hsome, hi, hargs]

/-- Reading an instruction fails for the reasons that there are. -/
theorem readInstruction_eq_error_iff (hf : f.WellFormed) :
    f.readInstruction t = .error e ↔ f.Refuses t e := by
  rw [readInstruction_eq_error_iff_cases]
  constructor
  · rintro (⟨hlt, rfl⟩ | ⟨opcode, t₁, hopcode, ⟨hnone, rfl⟩ | ⟨i, hi, hargs⟩⟩)
    · exact .ended (List.eq_nil_of_length_eq_zero (Nat.lt_one_iff.mp hlt))
    · refine .unassigned hopcode.after_eq fun i hi heq => ?_
      rw [← heq, byOpcode?_of_mem hf hi] at hnone
      cases hnone
    · obtain ⟨hmem, rfl⟩ := (byOpcode?_eq_some_iff hf).mp hi
      obtain ⟨before, field, later, values, t₂, heq, hbefore, hfield⟩ :=
        Parsing.mapM_eq_error_iff.mp hargs
      obtain ⟨hadmits, hvalues⟩ := mapM_read_eq_ok_iff.mp hbefore
      obtain ⟨fault, hflaw, rfl⟩ := Field.read_eq_error_iff.mp hfield
      have hpasses : t.Passes (i.opcode :: values.flatMap Value.wire) t₂ := hopcode.trans hvalues
      rw [pos_of_passes_cons hpasses] at hflaw
      exact .argument hmem heq hadmits hpasses.after_eq hflaw
  · intro h
    cases h with
    | ended hafter =>
      refine Or.inl ⟨?_, rfl⟩
      rw [Tape.remaining, hafter]
      exact Nat.one_pos
    | @unassigned opcode rest hafter hnone =>
      have hopcode : t.Passes [opcode] _ := Tape.passes_of_after_eq hafter
      refine Or.inr ⟨opcode, _, hopcode, Or.inl ⟨?_, rfl⟩⟩
      exact List.find?_eq_none.mpr fun i hi => by simpa using hnone i hi
    | @argument i before later field values rest fault hi heq hadmits hafter hflaw =>
      obtain ⟨t₂, hpasses, rfl⟩ :
          ∃ t₂, t.Passes (i.opcode :: values.flatMap Value.wire) t₂ ∧ t₂.after = rest :=
        ⟨_, Tape.passes_of_after_eq hafter, rfl⟩
      rw [← pos_of_passes_cons hpasses] at hflaw
      rw [← List.singleton_append] at hpasses
      obtain ⟨t₁, hopcode, hvalues⟩ := hpasses.split
      refine Or.inr ⟨i.opcode, t₁, hopcode, Or.inr ⟨i, byOpcode?_of_mem hf hi, ?_⟩⟩
      refine Parsing.mapM_eq_error_iff.mpr ⟨before, field, later, values, t₂, heq, ?_, ?_⟩
      · exact mapM_read_eq_ok_iff.mpr ⟨hadmits, hvalues⟩
      · exact Field.read_eq_error_iff.mpr ⟨fault, hflaw, rfl⟩

/-- Where bytes are missing, it is the opcode, or they are missing behind it, from an offset on that
is still within the tape. -/
theorem Refuses.bounds {offset needed : ℕ} (h : f.Refuses t (.fault (.truncated offset needed))) :
    (t.after = [] ∧ offset = t.pos ∧ needed = 1) ∨
      (t.pos < offset ∧ offset ≤ t.size ∧ t.size < offset + needed) := by
  cases h with
  | ended hafter => exact Or.inl ⟨hafter, rfl, rfl⟩
  | argument hi heq hadmits hafter hflaw =>
    right
    have hbounds := hflaw.bounds
    have hlength := congrArg List.length hafter
    rw [List.length_cons, List.length_append] at hlength
    rw [Tape.size, Tape.remaining]
    omega

/-- An instruction lies ahead: the opcode of an instruction, and behind it the wire forms of values
for all its arguments. -/
def LiesAhead (f : Format) (t : Tape) : Prop :=
  ∃ i ∈ f.instructions, ∃ values, i.Takes values ∧ i.wire values <+: t.after

theorem exists_readInstruction_iff (hf : f.WellFormed) :
    (∃ r, f.readInstruction t = .ok r) ↔ f.LiesAhead t := by
  constructor
  · rintro ⟨⟨d, t'⟩, h⟩
    obtain ⟨-, hi, htakes, hpasses⟩ := readInstruction_eq_ok_iff.mp h
    exact ⟨d.instruction, ((byOpcode?_eq_some_iff hf).mp hi).1, d.args, htakes,
      Tape.exists_passes_iff.mp ⟨t', hpasses⟩⟩
  · rintro ⟨i, hi, values, htakes, hprefix⟩
    obtain ⟨t', hpasses⟩ := Tape.exists_passes_iff.mpr hprefix
    exact ⟨(⟨t.pos, i, values⟩, t'),
      readInstruction_eq_ok_iff.mpr ⟨rfl, byOpcode?_of_mem hf hi, htakes, hpasses⟩⟩

end Format

/-! ### Lectors -/

theorem Source.eq_opened_iff {source : Source} {header : Header} {t : Tape} :
    source = .opened header t ↔ source.header? = some header ∧ source.tape? = some t := by
  cases source <;> simp [header?, tape?]

namespace Lector

variable {σ : Type} {f : Format}

/-- Work succeeds where an instruction lies ahead, and fails for the reasons that there are. -/
structure Decides {α : Type} (f : Format) (t : Tape)
    (result : EStateM.Result ReadError (Lector σ) α) : Prop where
  exists_ok_iff : (∃ a s', result = .ok a s') ↔ f.LiesAhead t
  exists_error_iff : ∀ e, (∃ s', result = .error e s') ↔ f.Refuses t e

/-- Work decides as reading an instruction does if it succeeds and fails as that does. -/
theorem decides_of_readInstruction {α : Type} (hf : f.WellFormed) {t : Tape}
    {result : EStateM.Result ReadError (Lector σ) α}
    (hok : ∀ r, f.readInstruction t = .ok r → ∃ a s', result = .ok a s')
    (herror : ∀ e, f.readInstruction t = .error e → ∃ s', result = .error e s') :
    Decides f t result := by
  cases hread : f.readInstruction t with
  | ok r =>
    obtain ⟨a, s', rfl⟩ := hok r hread
    refine ⟨iff_of_true ⟨a, s', rfl⟩ ?_, fun e => iff_of_false (by rintro ⟨s', ⟨⟩⟩) ?_⟩
    · exact (Format.exists_readInstruction_iff hf).mp ⟨r, hread⟩
    · rw [← Format.readInstruction_eq_error_iff hf, hread]
      rintro ⟨⟩
  | error e =>
    obtain ⟨s', rfl⟩ := herror e hread
    constructor
    · rw [← Format.exists_readInstruction_iff hf, hread]
      exact iff_of_false (by rintro ⟨a, s', ⟨⟩⟩) (by rintro ⟨r, ⟨⟩⟩)
    · intro e'
      rw [← Format.readInstruction_eq_error_iff hf, hread]
      simp

/-- **Why reading fails.** Whatever orders have been given to a lector, if its tape has a valid
header, then it steps and reads exactly where an instruction lies ahead. Otherwise it fails with the
one reason that there is; and if this is that bytes are missing, they are missing behind the end. -/
theorem reading_fails_for_reason {schema : Schema} (hload : schema.load = .ok f) (world : σ)
    (orders : List (Order σ)) {header : Header} {t : Tape}
    (hheader : (after f world orders).header = some header)
    (htarget : (after f world orders).target = some t) :
    Decides f t (step (after f world orders)) ∧ Decides f t (next (after f world orders)) ∧
      ∀ offset needed, f.Refuses t (.fault (.truncated offset needed)) →
        (t.after = [] ∧ offset = t.pos ∧ needed = 1) ∨
          (t.pos < offset ∧ offset ≤ t.size ∧ t.size < offset + needed) := by
  have hf := Schema.wellFormed_of_load hload
  have h := represents_after hf world orders
  have hsource := Source.eq_opened_iff.mpr
    ⟨h.header_eq.symm.trans hheader, h.target_eq.symm.trans htarget⟩
  have hformat : ((Reader.new f).serveAll orders).reader.format = f := Reader.format_serveAll _ _
  refine ⟨decides_of_readInstruction hf ?_ ?_, decides_of_readInstruction hf ?_ ?_,
    fun offset needed => Format.Refuses.bounds⟩
  · rintro ⟨d, t'⟩ hread
    rw [← hformat] at hread
    obtain ⟨s', hstep, -⟩ := h.step_of_ok (Reader.next_of_readInstruction_eq_ok hsource hread)
    exact ⟨(), s', hstep⟩
  · intro e hread
    rw [← hformat] at hread
    obtain ⟨args, hstep⟩ := h.step_of_error (Reader.next_of_readInstruction_eq_error hsource hread)
    exact ⟨_, hstep⟩
  · rintro ⟨d, t'⟩ hread
    rw [← hformat] at hread
    obtain ⟨s', hnext, -⟩ := h.next_of_ok (Reader.next_of_readInstruction_eq_ok hsource hread)
    exact ⟨d, s', hnext⟩
  · intro e hread
    rw [← hformat] at hread
    obtain ⟨args, hnext⟩ := h.next_of_error (Reader.next_of_readInstruction_eq_error hsource hread)
    exact ⟨_, hnext⟩

/-- The instruction in which the tape ends is one byte into its argument. -/
theorem reading_fails_for_reason_of_sample :
    let s := after sampleFormat () [.bind sampleCut, .step]
    (∃ header, s.header = some header) ∧ s.target.map Tape.pos = some 13 ∧
      ∃ s', next s = .error (.fault (.truncated 14 4)) s' := by
  intro s
  have hheader :
      s.header = some ⟨0, 8, [("magic", .string "LW")], [("labels", 1)], [("code", 10)]⟩ := by
    decide +kernel
  have htarget : s.target = some ⟨sampleCut.after.take 13, [0, 7], false⟩ := by
    decide +kernel
  have hload : sampleSchema.load = .ok sampleFormat := by decide +kernel
  obtain ⟨-, hnext, -⟩ := reading_fails_for_reason hload () _ hheader htarget
  refine ⟨⟨_, hheader⟩, by rw [htarget]; rfl, (hnext.exists_error_iff _).mpr ?_⟩
  have hflaw : Kind.i32.Flaw 14 [7] (.truncated 14 4) := .number rfl (by decide)
  exact .argument (i := samplePush) (List.mem_singleton_self _) rfl .nil rfl hflaw

end Lector

end Bytecode
