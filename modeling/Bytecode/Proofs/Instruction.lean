import Bytecode.Cartridge.Body
import Bytecode.Proofs.Codec
import Bytecode.Writer

/-!
# Reading and writing instructions

An instruction `Takes` the rows of values that have one value of the right kind for each of its
arguments. Reading an instruction accepts exactly the wire forms of instructions with arguments that
they take (`Format.readInstruction_eq_ok_iff`).

Appending an instruction is granted exactly to the rows of arguments that `Instruction.accept?`
turns into such a row (`Draft.append_eq_ok_iff`), and arguments that the instruction takes are
accepted as they are (`Instruction.accept?_of_takes`).
-/

namespace Bytecode

/-! ### Arguments -/

/-- A value can stand in a field. -/
def Field.Admits (field : Field) (v : Value) : Prop := v.kind = field.kind ∧ v.Fits

/-- A field takes a value by converting it, unless the outcome is too long for a length word. -/
def Field.accept? (field : Field) (v : Value) : Option Value :=
  (field.kind.coerce v).filter fun w => w.Fits

theorem Field.accept?_eq_some_iff {field : Field} {v w : Value} :
    field.accept? v = some w ↔ field.kind.coerce v = some w ∧ w.Fits := by
  simp [Field.accept?, Option.filter_eq_some_iff]

theorem Field.admits_of_accept? {field : Field} {v w : Value} (h : field.accept? v = some w) :
    field.Admits w := by
  obtain ⟨hcoerce, hfits⟩ := Field.accept?_eq_some_iff.mp h
  exact ⟨Kind.kind_of_coerce hcoerce, hfits⟩

theorem Field.accept?_of_admits {field : Field} {v : Value} (h : field.Admits v) :
    field.accept? v = some v :=
  Field.accept?_eq_some_iff.mpr ⟨h.1 ▸ Kind.coerce_self v, h.2⟩

namespace Instruction

/-- A row of values can stand as the arguments of an instruction. -/
def Takes (i : Instruction) (values : List Value) : Prop := List.Forall₂ Field.Admits i.args values

/-- An instruction takes arguments by taking each into its field, provided that their number is
right. -/
def accept? (i : Instruction) (args : List Value) : Option (List Value) :=
  if args.length = i.args.length then (i.args.zip args).mapM fun p => p.1.accept? p.2 else none

theorem forall₂_admits_of_mapM {fields : List Field} {args values : List Value}
    (hlength : args.length = fields.length)
    (h : (fields.zip args).mapM (fun p => p.1.accept? p.2) = some values) :
    List.Forall₂ Field.Admits fields values := by
  induction fields generalizing args values with
  | nil =>
    cases h
    exact .nil
  | cons field fields ih =>
    obtain ⟨arg, args, rfl⟩ := List.exists_cons_of_length_eq_add_one hlength
    rw [List.zip_cons_cons, List.mapM_cons] at h
    obtain ⟨value, hvalue, h⟩ := Option.bind_eq_some_iff.mp h
    obtain ⟨rest, hrest, h⟩ := Option.bind_eq_some_iff.mp h
    cases h
    exact .cons (Field.admits_of_accept? hvalue) (ih (Nat.succ.inj hlength) hrest)

/-- What an instruction makes of the arguments it accepts, it takes. -/
theorem takes_of_accept? {i : Instruction} {args values : List Value}
    (h : i.accept? args = some values) : i.Takes values := by
  unfold accept? at h
  split at h
  · exact forall₂_admits_of_mapM ‹_› h
  · cases h

theorem mapM_of_forall₂_admits {fields : List Field} {values : List Value}
    (h : List.Forall₂ Field.Admits fields values) :
    (fields.zip values).mapM (fun p => p.1.accept? p.2) = some values := by
  induction h with
  | nil => rfl
  | cons hadmits _ ih =>
    rw [List.zip_cons_cons, List.mapM_cons, ih, Field.accept?_of_admits hadmits]
    rfl

/-- An instruction accepts arguments that it takes as they are. -/
theorem accept?_of_takes {i : Instruction} {values : List Value} (h : i.Takes values) :
    i.accept? values = some values := by
  rw [accept?, if_pos h.length_eq.symm, mapM_of_forall₂_admits h]

theorem convert_eq_ok_iff {i : Instruction} {fields : List Field} {args values : List Value} :
    i.convert fields args = .ok values ↔
      (fields.zip args).mapM (fun p => p.1.accept? p.2) = some values := by
  induction fields generalizing args values with
  | nil => simp [convert]
  | cons field fields ih =>
    cases args with
    | nil => simp [convert]
    | cons arg args =>
      rw [List.zip_cons_cons, List.mapM_cons, convert]
      cases hcoerce : field.kind.coerce arg with
      | none => simp [Field.accept?, hcoerce]
      | some value =>
        by_cases hfits : value.Fits
        · have haccept : field.accept? arg = some value :=
            Field.accept?_eq_some_iff.mpr ⟨hcoerce, hfits⟩
          have hlength : value.payload.length < lengthLimit := hfits
          simp only [haccept, hlength, if_true]
          cases hrest : i.convert fields args with
          | error e =>
            have hnone : ∀ rest, (fields.zip args).mapM (fun p => p.1.accept? p.2) ≠ some rest :=
              fun rest h => by simp [ih.mpr h] at hrest
            simp [Option.eq_none_iff_forall_ne_some.mpr hnone]
          | ok rest => simp [ih.mp hrest]
        · have hlength : ¬ value.payload.length < lengthLimit := hfits
          have hreject : field.accept? arg = none := by
            simp [Field.accept?, hcoerce, Option.filter_some, hfits]
          simp [hreject, hlength]

end Instruction

/-- Appending an instruction writes its wire form, once its arguments are accepted. -/
theorem Draft.append_eq_ok_iff {i : Instruction} {args : List Value} {d d' : Draft} :
    d.append i args = .ok d' ↔
      ∃ values, i.accept? args = some values ∧
        { d with tape := d.tape.write (i.wire values) } = d' := by
  unfold Draft.append Instruction.accept?
  by_cases hlength : args.length = i.args.length
  · simp only [hlength, ne_eq, not_true_eq_false, if_false, if_true]
    cases hconvert : i.convert i.args args with
    | error e =>
      have hnone : ∀ values, (i.args.zip args).mapM (fun p => p.1.accept? p.2) ≠ some values :=
        fun values h => by simp [Instruction.convert_eq_ok_iff.mpr h] at hconvert
      simp [Option.eq_none_iff_forall_ne_some.mpr hnone, Bind.bind, Except.bind]
    | ok values =>
      simp [Instruction.convert_eq_ok_iff.mp hconvert, Bind.bind, Except.bind, Pure.pure,
        Except.pure]
  · simp [hlength, Bind.bind, Except.bind, throw, throwThe, MonadExceptOf.throw]

/-! ### Reading -/

theorem Field.read_eq_ok_iff {field : Field} {v : Value} {t t' : Tape} :
    field.read t = .ok (v, t') ↔ field.Admits v ∧ t.Passes v.wire t' := by
  rw [Field.read, Tape.Reading.reporting_eq_ok_iff, Kind.decode_eq_ok_iff, Field.Admits, and_assoc]

theorem mapM_read_eq_ok_iff {fields : List Field} {values : List Value} {t t' : Tape} :
    fields.mapM Field.read t = .ok (values, t') ↔
      List.Forall₂ Field.Admits fields values ∧ t.Passes (values.flatMap Value.wire) t' := by
  rw [Parsing.mapM_eq_ok_iff (fun _ v => v.wire) Field.read_eq_ok_iff]
  refine and_congr_right fun h => ?_
  have hwire : List.zipWith (fun _ v => Value.wire v) fields values = values.map Value.wire := by
    induction h with
    | nil => rfl
    | cons _ _ ih => rw [List.zipWith_cons_cons, ih, List.map_cons]
  rw [hwire, List.flatMap_def]

namespace Format

theorem opcode_of_byOpcode? {f : Format} {opcode : UInt8} {i : Instruction}
    (h : f.byOpcode? opcode = some i) : i.opcode = opcode := by
  simpa using List.find?_some h

/-- Reading an instruction accepts the wire forms of the instructions that their opcodes lead to,
with arguments that they take. -/
theorem readInstruction_eq_ok_iff {f : Format} {d : Decoded} {t t' : Tape} :
    f.readInstruction t = .ok (d, t') ↔
      d.offset = t.pos ∧ f.byOpcode? d.instruction.opcode = some d.instruction ∧
        d.instruction.Takes d.args ∧ t.Passes (d.instruction.wire d.args) t' := by
  unfold readInstruction
  constructor
  · intro h
    split at h
    · cases h
    · rename_i opcode t₁ hopcode
      have hhead := Tape.readByte_eq_ok_iff.mp hopcode
      split at h
      · cases h
      · rename_i i hi
        split at h
        · cases h
        · rename_i args t₂ hargs
          cases h
          obtain ⟨htakes, htail⟩ := mapM_read_eq_ok_iff.mp hargs
          obtain rfl := opcode_of_byOpcode? hi
          exact ⟨rfl, hi, htakes, hhead.trans htail⟩
  · rintro ⟨hoffset, hi, htakes, h⟩
    rw [Instruction.wire, ← List.singleton_append] at h
    obtain ⟨t₁, hhead, htail⟩ := h.split
    rw [Tape.readByte_eq_ok_iff.mpr hhead]
    simp only [hi, mapM_read_eq_ok_iff.mpr ⟨htakes, htail⟩, ← hoffset]

end Format

end Bytecode
