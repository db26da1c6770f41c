import Bytecode.Proofs.Codec
import Bytecode.Proofs.Loaded
import Mathlib.Data.List.MinMax

/-!
# Loading against validating

`Schema.load` and `Schema.validate` make the same check and then look at the literals of the header,
each in its own way: one converts them in turn, the other searches for one that does not convert.
`Schema.load_map_eq_validate` says that the two agree in their results and in their errors.

What a loaded format is made of can be read off the schema: the slots, the constants with their
values, and the instructions, each at its position and with the opcode of this position.
`Schema.load_agrees` puts both together.
-/

namespace Bytecode

/-! ### Literals -/

/-- The value that a literal stands for has the kind asked for. -/
theorem Literal.kind_of_toValue? {k : Kind} {l : Literal} {v : Value} (h : l.toValue? k = some v) :
    v.kind = k := by
  cases l with
  | int i =>
    cases k with
    | f64 =>
      obtain ⟨x, -, rfl⟩ := Option.map_eq_some_iff.mp h
      rfl
    | i32 => exact Kind.kind_of_ofInt? h
    | u32 => exact Kind.kind_of_ofInt? h
    | u8 => exact Kind.kind_of_ofInt? h
    | bytes | string => cases h
  | float x => exact Kind.kind_of_coerce h
  | text s => exact Kind.kind_of_coerce h
  | bytes bs => exact Kind.kind_of_coerce h

/-! ### Constants -/

/-- A constant is what a declaration says: it has the name, and the value of the literal, which
converts to its kind as it is. -/
structure ConstantDecl.Declares (c : ConstantDecl) (constant : Constant) : Prop where
  name_eq : constant.name = c.name
  toValue?_eq : c.literal.toValue? c.kind = some constant.value
  kind_eq : constant.value.kind = c.kind
  coerce_eq : c.kind.coerce constant.value = some constant.value

namespace Schema

variable {s : Schema} {f : Format}

theorem resolveConstant_eq_ok_iff {c : ConstantDecl} {constant : Constant} :
    resolveConstant c = .ok constant ↔ c.Declares constant := by
  unfold resolveConstant
  constructor
  · intro h
    split at h
    · rename_i value hvalue
      cases h
      have hkind := Literal.kind_of_toValue? hvalue
      exact ⟨rfl, hvalue, hkind, hkind ▸ Kind.coerce_self value⟩
    · cases h
  · intro h
    obtain ⟨name, value⟩ := constant
    rw [h.toValue?_eq, show name = c.name from h.name_eq]

theorem mapM_resolveConstant_eq_ok_iff {cs : List ConstantDecl} {constants : List Constant} :
    cs.mapM resolveConstant = .ok constants ↔ List.Forall₂ ConstantDecl.Declares cs constants := by
  induction cs generalizing constants with
  | nil =>
    rw [List.mapM_nil, List.forall₂_nil_left_iff]
    exact ⟨fun h => (Except.ok.inj h).symm, fun h => h ▸ rfl⟩
  | cons c cs ih =>
    rw [List.mapM_cons, except_bind_eq_ok_iff, List.forall₂_cons_left_iff]
    simp only [except_bind_eq_ok_iff, resolveConstant_eq_ok_iff, ih]
    constructor
    · rintro ⟨constant, hconstant, rest, hrest, h⟩
      exact ⟨constant, rest, hconstant, hrest, (Except.ok.inj h).symm⟩
    · rintro ⟨constant, rest, hconstant, hrest, rfl⟩
      exact ⟨constant, hconstant, rest, hrest, rfl⟩

/-- To convert literals in turn fails at the one that a search for a literal that does not convert
finds first. -/
theorem mapM_resolveConstant_map (cs : List ConstantDecl) :
    (fun _ => ()) <$> cs.mapM resolveConstant =
      match cs.find? fun c => (c.literal.toValue? c.kind).isNone with
      | some c => .error (.invalidHeaderValue c.name c.kind)
      | none => .ok () := by
  induction cs with
  | nil => rfl
  | cons c cs ih =>
    rw [List.mapM_cons, List.find?_cons, resolveConstant]
    cases c.literal.toValue? c.kind with
    | none => rfl
    | some value =>
      rw [Option.isNone_some, ← ih]
      cases cs.mapM resolveConstant with
      | error e => rfl
      | ok constants => rfl

/-- Loading and validating have one outcome, as far as validating shows any. -/
theorem load_map_eq_validate (s : Schema) : (fun _ => ()) <$> s.load = s.validate := by
  rw [load, validate]
  cases s.check with
  | error e => rfl
  | ok checked =>
    rw [except_ok_bind, except_ok_bind]
    refine Eq.trans ?_ (mapM_resolveConstant_map s.header)
    cases s.header.mapM resolveConstant with
    | error e => rfl
    | ok constants => rfl

end Schema

/-! ### Opcode counts -/

namespace Format

theorem opcodeCount_le_iff {f : Format} {n : ℕ} :
    f.opcodeCount ≤ n ↔ ∀ i ∈ f.instructions, i.opcode.toNat < n := by
  have hfold (is : List Instruction) (count : ℕ) :
      is.foldl (fun count i => max count (i.opcode.toNat + 1)) count ≤ n ↔
        count ≤ n ∧ ∀ i ∈ is, i.opcode.toNat < n := by
    induction is generalizing count with
    | nil => simp
    | cons i is ih =>
      rw [List.foldl_cons, ih, max_le_iff, and_assoc, List.forall_mem_cons]
      rfl
  rw [opcodeCount, hfold, and_iff_right (Nat.zero_le n)]

/-- With instructions, the count is one more than the largest opcode. -/
theorem exists_opcodeCount_eq {f : Format} (h : f.instructions ≠ []) :
    ∃ i ∈ f.instructions, (∀ j ∈ f.instructions, j.opcode ≤ i.opcode) ∧
      f.opcodeCount = i.opcode.toNat + 1 := by
  cases hmax : f.instructions.argmax (·.opcode.toNat) with
  | none => exact absurd (List.argmax_eq_none.mp hmax) h
  | some i =>
    have hi : i ∈ f.instructions := List.argmax_mem hmax
    have hle : ∀ j ∈ f.instructions, j.opcode.toNat ≤ i.opcode.toNat := fun j hj =>
      List.le_of_mem_argmax (f := fun i : Instruction => i.opcode.toNat) hj hmax
    refine ⟨i, hi, hle, le_antisymm ?_ ?_⟩
    · exact opcodeCount_le_iff.mpr fun j hj => Nat.lt_succ_of_le (hle j hj)
    · exact opcodeCount_le_iff.mp le_rfl i hi

end Format

/-! ### Instructions -/

namespace Schema

variable {s : Schema} {f : Format}

theorem load_eq_ok_iff : s.load = .ok f ↔ ∃ checked, s.check = .ok checked ∧
    List.Forall₂ ConstantDecl.Declares s.header f.header ∧
      f.counters = checked.counters ∧ f.chunks = checked.chunks ∧
      f.instructions =
        s.instructions.zipWith (resolveInstruction s.commonArgs) checked.opcodes := by
  rw [load, except_bind_eq_ok_iff]
  simp only [except_bind_eq_ok_iff, mapM_resolveConstant_eq_ok_iff]
  constructor
  · rintro ⟨checked, hchecked, header, hheader, h⟩
    cases h
    exact ⟨checked, hchecked, hheader, rfl, rfl, rfl⟩
  · rintro ⟨checked, hchecked, hheader, hcounters, hchunks, hinstructions⟩
    refine ⟨checked, hchecked, f.header, hheader, ?_⟩
    rw [← hcounters, ← hchunks, ← hinstructions]
    rfl

/-- An instruction is at the position of its declaration, with the opcode of that position. -/
theorem exists_instruction {is : List InstructionDecl} {opcodes : List UInt8}
    (h : assignOpcodes is = .ok opcodes) (commonArgs : List Field) {k : ℕ} {i : InstructionDecl}
    (hi : is[k]? = some i) :
    ∃ opcode, opcodes[k]? = some opcode ∧ (∀ code ∈ i.code, opcode.toNat = code.toNat) ∧
      (is.zipWith (resolveInstruction commonArgs) opcodes)[k]? =
        some ⟨i.name, mnemonic i.name, opcode, i.args ++ commonArgs, i.doc⟩ := by
  have hcodes := forall₂_of_assignOpcodes h
  obtain ⟨hk, rfl⟩ := List.getElem?_eq_some_iff.mp hi
  have hk' : k < opcodes.length := hcodes.length_eq ▸ hk
  refine ⟨opcodes[k], List.getElem?_eq_getElem hk', hcodes.get hk hk', ?_⟩
  rw [List.getElem?_zipWith, hi, List.getElem?_eq_getElem hk']
  rfl

/-- **Loading and validating agree, and loading loses nothing.** They fail with the same errors, and
a schema that is valid is loaded. The format then has the counters and the chunks of the schema in
order; a constant for each of its constants, in order, with the value of the literal, which
conversion to the declared kind leaves as it is, bit for bit; and at each position the instruction
declared there, with its own and then the common arguments and the opcode assigned to the position,
which is the declared one if there is any. Opcodes are distinct, and their count is one more than
the largest, or zero if there is none. -/
theorem load_agrees (s : Schema) :
    (∀ e, s.load = .error e ↔ s.validate = .error e) ∧
      ((∃ f, s.load = .ok f) ↔ s.validate = .ok ()) ∧
      ∀ f, s.load = .ok f →
        f.counters.map Slot.field = s.counters ∧ f.chunks.map Slot.field = s.chunks ∧
        List.Forall₂ ConstantDecl.Declares s.header f.header ∧
        (∃ opcodes, assignOpcodes s.instructions = .ok opcodes ∧
          opcodes.length = s.instructions.length ∧
          f.instructions.length = s.instructions.length ∧
          ∀ (k : ℕ) (i : InstructionDecl), s.instructions[k]? = some i →
            ∃ opcode, opcodes[k]? = some opcode ∧ (∀ code ∈ i.code, opcode.toNat = code.toNat) ∧
              f.instructions[k]? =
                some ⟨i.name, mnemonic i.name, opcode, i.args ++ s.commonArgs, i.doc⟩) ∧
        (f.instructions.map (·.opcode)).Nodup ∧
        (f.instructions = [] → f.opcodeCount = 0) ∧
        (f.instructions ≠ [] → ∃ i ∈ f.instructions, (∀ j ∈ f.instructions, j.opcode ≤ i.opcode) ∧
          f.opcodeCount = i.opcode.toNat + 1) := by
  have hagree := load_map_eq_validate s
  refine ⟨fun e => ?_, ?_, fun f hload => ?_⟩
  · rw [← hagree]
    cases s.load with
    | error e' => simp [Functor.map, Except.map]
    | ok f => exact iff_of_false (by simp) (by simp)
  · rw [← hagree, except_map_eq_ok_iff]
    simp
  · -- slots and instructions come from what the check yields, constants from the declarations
    obtain ⟨checked, hchecked, hheader, hcounters, hchunks, hinstructions⟩ :=
      load_eq_ok_iff.mp hload
    obtain ⟨-, hcounters', hchunks', -, hopcodes⟩ := check_eq_ok_iff.mp hchecked
    have hlength := (forall₂_of_assignOpcodes hopcodes).length_eq
    refine ⟨?_, ?_, hheader, ⟨checked.opcodes, hopcodes, hlength.symm, ?_, ?_⟩,
      (wellFormed_of_load hload).nodup_opcodes, ?_, Format.exists_opcodeCount_eq⟩
    · rw [hcounters]
      exact (resolveSlots_eq_ok_iff.mp hcounters').1
    · rw [hchunks]
      exact (resolveSlots_eq_ok_iff.mp hchunks').1
    · rw [hinstructions, List.length_zipWith, ← hlength, Nat.min_self]
    · intro k i hi
      rw [hinstructions]
      exact exists_instruction hopcodes s.commonArgs hi
    · intro hnil
      rw [Format.opcodeCount, hnil]
      rfl

end Schema

end Bytecode
