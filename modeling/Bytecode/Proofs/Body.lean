import Bytecode.Proofs.Instruction
import Bytecode.Proofs.Loaded
import Bytecode.Reader

/-!
# Reading the body of a cartridge

The body of a cartridge is the wire forms of instructions one after another. `place` lays out a row
of instructions from an offset on, as reading shows them.

`Reader.nextMany_eq_ok_iff` is about any number of reads in a row: they give exactly the layouts of
rows of instructions that the format admits, and take exactly their wire forms off the tape. The
induction is on the number of reads, with `Format.readInstruction_eq_ok_iff` as its step.
-/

namespace Bytecode

/-! ### Instructions with arguments -/

/-- An instruction with arguments of their declared kinds. -/
structure Emission where
  instruction : Instruction
  /-- The arguments in wire order. -/
  args : List Value
deriving DecidableEq, Repr

/-- The bytes of an instruction with arguments. -/
def Emission.wire (e : Emission) : List UInt8 := e.instruction.wire e.args

/-- The instruction is what its opcode leads to, and it takes the arguments. -/
def Format.Admits (f : Format) (e : Emission) : Prop :=
  f.byOpcode? e.instruction.opcode = some e.instruction ∧ e.instruction.Takes e.args

theorem Format.admits_of_accept? {f : Format} (hf : f.WellFormed) {i : Instruction}
    (hi : i ∈ f.instructions) {args values : List Value} (h : i.accept? args = some values) :
    f.Admits ⟨i, values⟩ :=
  ⟨Format.byOpcode?_of_mem hf hi, Instruction.takes_of_accept? h⟩

/-- Instructions one after another, as they stand from an offset on. -/
def place : (offset : Nat) → List Emission → List Decoded
  | _, [] => []
  | offset, e :: es => ⟨offset, e.instruction, e.args⟩ :: place (offset + e.wire.length) es

theorem map_place (offset : ℕ) (es : List Emission) :
    (place offset es).map (fun d => (⟨d.instruction, d.args⟩ : Emission)) = es := by
  induction es generalizing offset with
  | nil => rfl
  | cons e es ih => rw [place, List.map_cons, ih]

/-! ### Reading many instructions -/

namespace Reader

variable {η ι : Type} {r r' : Reader η ι} {header : Header} {t : Tape}

/-- Reads a number of instructions, one after another. -/
def nextMany (r : Reader η ι) : Nat → Except ReadError (List Decoded × Reader η ι)
  | 0 => .ok ([], r)
  | n + 1 => do
    let (d, r) ← r.next
    let (ds, r) ← r.nextMany n
    return (d :: ds, r)

theorem next_of_readInstruction_eq_ok (hr : r.source = .opened header t) {d : Decoded} {t' : Tape}
    (h : r.format.readInstruction t = .ok (d, t')) :
    r.next = .ok (d, { r with source := .opened header t' }) := by
  simp only [next, hr, h, Bind.bind, Except.bind, Pure.pure, Except.pure]

theorem next_of_readInstruction_eq_error (hr : r.source = .opened header t) {e : ReadError}
    (h : r.format.readInstruction t = .error e) : r.next = .error e := by
  simp only [next, hr, h, Bind.bind, Except.bind]

theorem next_eq_ok_iff (hr : r.source = .opened header t) {d : Decoded} :
    r.next = .ok (d, r') ↔ ∃ e t', r.format.Admits e ∧ t.Passes e.wire t' ∧
      d = ⟨t.pos, e.instruction, e.args⟩ ∧ r' = { r with source := .opened header t' } := by
  unfold next
  rw [hr]
  simp only [except_bind_eq_ok_iff]
  constructor
  · rintro ⟨⟨d', t'⟩, hread, h⟩
    cases h
    obtain ⟨hoffset, hopcode, htakes, hpasses⟩ := Format.readInstruction_eq_ok_iff.mp hread
    refine ⟨⟨d'.instruction, d'.args⟩, t', ⟨hopcode, htakes⟩, hpasses, ?_, rfl⟩
    rw [← hoffset]
  · rintro ⟨e, t', ⟨hopcode, htakes⟩, hpasses, rfl, rfl⟩
    refine ⟨(⟨t.pos, e.instruction, e.args⟩, t'), ?_, rfl⟩
    exact Format.readInstruction_eq_ok_iff.mpr ⟨rfl, hopcode, htakes, hpasses⟩

/-- Reading `n` instructions accepts the wire forms of `n` instructions that the format admits. -/
theorem nextMany_eq_ok_iff (hr : r.source = .opened header t) {n : ℕ} {ds : List Decoded} :
    r.nextMany n = .ok (ds, r') ↔ ∃ es t', es.length = n ∧ (∀ e ∈ es, r.format.Admits e) ∧
      t.Passes (es.flatMap Emission.wire) t' ∧
      ds = place t.pos es ∧ r' = { r with source := .opened header t' } := by
  induction n generalizing r t ds with
  | zero =>
    constructor
    · intro h
      cases h
      exact ⟨[], t, rfl, by simp, Tape.Passes.refl t, rfl, by rw [← hr]⟩
    · rintro ⟨es, t', hlength, -, hpasses, rfl, rfl⟩
      obtain rfl := List.eq_nil_of_length_eq_zero hlength
      obtain rfl := hpasses.unique (Tape.Passes.refl t)
      rw [← hr]
      rfl
  | succ n ih =>
    rw [nextMany, except_bind_eq_ok_iff]
    constructor
    · rintro ⟨⟨d, r₁⟩, hnext, h⟩
      obtain ⟨⟨ds', r₂⟩, hmany, h⟩ := except_bind_eq_ok_iff.mp h
      cases h
      obtain ⟨e, t₁, hadmits, hpasses, rfl, rfl⟩ := (next_eq_ok_iff hr).mp hnext
      obtain ⟨es, t', rfl, hall, hpasses', rfl, rfl⟩ := (ih rfl).mp hmany
      have hall' : ∀ e' ∈ e :: es, r.format.Admits e' := List.forall_mem_cons.mpr ⟨hadmits, hall⟩
      refine ⟨e :: es, t', rfl, hall', hpasses.trans hpasses', ?_, rfl⟩
      rw [place, hpasses.pos_eq]
    · rintro ⟨es, t', hlength, hall, hpasses, rfl, rfl⟩
      obtain ⟨e, es, rfl⟩ := List.exists_cons_of_length_eq_add_one hlength
      obtain ⟨hadmits, hall⟩ := List.forall_mem_cons.mp hall
      -- the first read stops where the wire form of the first instruction ends
      rw [List.flatMap_cons] at hpasses
      obtain ⟨t₁, hpasses, hpasses'⟩ := hpasses.split
      have hnext := (next_eq_ok_iff hr).mpr ⟨e, t₁, hadmits, hpasses, rfl, rfl⟩
      have hmany := (ih (r := { r with source := .opened header t₁ }) rfl).mpr
        ⟨es, t', Nat.succ.inj hlength, hall, hpasses', rfl, rfl⟩
      refine ⟨_, hnext, except_bind_eq_ok_iff.mpr ⟨_, hmany, ?_⟩⟩
      rw [place, hpasses.pos_eq]
      rfl

end Reader

end Bytecode
