import Bytecode.Proofs.Opcodes

/-!
# Valid schemas

`Schema.Valid` lists what a schema must satisfy to describe a format, as conditions on its lists
that know of no order of checking: names are identifiers and distinct where they must be told apart,
slots have slot kinds, declared opcodes are distinct bytes, there is an opcode for every
instruction, and the kinds of the constants can hold them. `Schema.validate_eq_ok_iff_valid` says
that `validate` accepts exactly the valid schemas.
-/

namespace Bytecode

namespace Schema

variable {s : Schema}

/-- A schema that describes a format. -/
structure Valid (s : Schema) : Prop where
  header_names : ∀ c ∈ s.header, isIdentifier c.name
  slot_names : ∀ field ∈ s.counters ++ s.chunks, isIdentifier field.name
  instruction_names : ∀ i ∈ s.instructions, isIdentifier i.name
  /-- The common arguments are looked at with each instruction. -/
  arg_names : ∀ i ∈ s.instructions, ∀ arg ∈ i.args ++ s.commonArgs, isIdentifier arg.name
  slot_kinds : ∀ field ∈ s.counters ++ s.chunks, field.kind = .u8 ∨ field.kind = .u32
  /-- No two counters or chunks have one name, nor a counter and a chunk. -/
  nodup_slots : ((s.counters ++ s.chunks).map (·.name)).Nodup
  nodup_mnemonics : (s.instructions.map (mnemonic ·.name)).Nodup
  /-- No two arguments of an instruction have one name, whether its own or common ones. -/
  nodup_args : ∀ i ∈ s.instructions, ((i.args ++ s.commonArgs).map (·.name)).Nodup
  codes_le : ∀ i ∈ s.instructions, ∀ code ∈ i.code, code.toNat ≤ 255
  nodup_codes : (s.instructions.filterMap (·.code)).Nodup
  length_le : s.instructions.length ≤ 256
  literals : ∀ c ∈ s.header, (c.literal.toValue? c.kind).isSome

/-! ### Parts of the check -/

/-- Counters and chunks are accepted together if they would be as one row. -/
theorem exists_slots_iff :
    (∃ counters chunks, resolveSlots [] s.counters = .ok counters ∧
        resolveSlots (s.counters.map (·.name)) s.chunks = .ok chunks) ↔
      (∀ field ∈ s.counters ++ s.chunks, field.kind = .u8 ∨ field.kind = .u32) ∧
        (∀ field ∈ s.counters ++ s.chunks, isIdentifier field.name) ∧
        ((s.counters ++ s.chunks).map (·.name)).Nodup := by
  simp only [exists_and_left, exists_and_right, exists_resolveSlots_iff, List.forall_mem_append,
    List.map_append, nodup_append_iff_fresh, fresh_nil_iff]
  tauto

/-- The declared opcodes, as numbers. -/
theorem declaredCodes_eq (is : List InstructionDecl) :
    declaredCodes is = (is.filterMap (·.code)).map UInt32.toNat := by
  rw [declaredCodes, List.map_filterMap]

theorem exists_opcodes_iff :
    (∃ opcodes, assignOpcodes s.instructions = .ok opcodes) ↔
      (∀ i ∈ s.instructions, ∀ code ∈ i.code, code.toNat ≤ 255) ∧
        (s.instructions.filterMap (·.code)).Nodup ∧ s.instructions.length ≤ 256 := by
  have hbytes : (∀ code ∈ declaredCodes s.instructions, code < opcodeLimit) ↔
      ∀ i ∈ s.instructions, ∀ code ∈ i.code, code.toNat ≤ 255 := by
    rw [declaredCodes_eq, List.forall_mem_map]
    constructor
    · intro h i hi code hcode
      exact Nat.le_of_lt_succ (h code (List.mem_filterMap.mpr ⟨i, hi, hcode⟩))
    · intro h code hmem
      obtain ⟨i, hi, hcode⟩ := List.mem_filterMap.mp hmem
      exact Nat.lt_succ_of_le (h i hi code hcode)
  rw [exists_assignOpcodes_iff, hbytes, declaredCodes_eq,
    List.nodup_map_iff fun _ _ => UInt32.toNat_inj.mp]
  rfl

theorem exists_check_iff : (∃ checked, s.check = .ok checked) ↔
    (∀ c ∈ s.header, isIdentifier c.name) ∧
      (∃ counters chunks, resolveSlots [] s.counters = .ok counters ∧
        resolveSlots (s.counters.map (·.name)) s.chunks = .ok chunks) ∧
      checkInstructions s.commonArgs [] s.instructions = .ok () ∧
      ∃ opcodes, assignOpcodes s.instructions = .ok opcodes := by
  simp only [check_eq_ok_iff]
  constructor
  · rintro ⟨checked, hheader, hcounters, hchunks, hinstructions, hopcodes⟩
    exact ⟨hheader, ⟨_, _, hcounters, hchunks⟩, hinstructions, _, hopcodes⟩
  · rintro ⟨hheader, ⟨counters, chunks, hcounters, hchunks⟩, hinstructions, opcodes, hopcodes⟩
    exact ⟨⟨counters, chunks, opcodes⟩, hheader, hcounters, hchunks, hinstructions, hopcodes⟩

/-- Validation is the check, and then a look at the literals. -/
theorem validate_eq_ok_iff : s.validate = .ok () ↔
    (∃ checked, s.check = .ok checked) ∧ ∀ c ∈ s.header, (c.literal.toValue? c.kind).isSome := by
  rw [validate, except_bind_eq_ok_iff, exists_and_right.symm]
  refine exists_congr fun checked => and_congr_right fun _ => ?_
  cases hfind : s.header.find? fun c => (c.literal.toValue? c.kind).isNone with
  | none =>
    refine iff_of_true rfl fun c hc => ?_
    have hnot := List.find?_eq_none.mp hfind c hc
    rw [Option.isNone_iff_eq_none] at hnot
    exact Option.isSome_iff_ne_none.mpr hnot
  | some c =>
    refine iff_of_false (by simp) fun h => ?_
    have hnone := List.find?_some hfind
    have hsome := h c (List.mem_of_find?_eq_some hfind)
    rw [Option.isNone_iff_eq_none] at hnone
    rw [hnone] at hsome
    cases hsome

/-- **Validation accepts exactly the valid schemas.** -/
theorem validate_eq_ok_iff_valid (s : Schema) : s.validate = .ok () ↔ s.Valid := by
  rw [validate_eq_ok_iff, exists_check_iff, exists_slots_iff, exists_opcodes_iff,
    checkInstructions_eq_ok_iff, fresh_nil_iff]
  constructor
  · rintro ⟨⟨hheader, ⟨hkinds, hslots, hnodup⟩, ⟨hinstructions, hmnemonics, hargs⟩, hcodes,
      hdistinct, hlength⟩, hliterals⟩
    exact {
      header_names := hheader
      slot_names := hslots
      instruction_names := hinstructions
      arg_names := fun i hi => (hargs i hi).1
      slot_kinds := hkinds
      nodup_slots := hnodup
      nodup_mnemonics := hmnemonics
      nodup_args := fun i hi => (hargs i hi).2
      codes_le := hcodes
      nodup_codes := hdistinct
      length_le := hlength
      literals := hliterals }
  · intro h
    exact ⟨⟨h.header_names, ⟨h.slot_kinds, h.slot_names, h.nodup_slots⟩,
      ⟨h.instruction_names, h.nodup_mnemonics, fun i hi => ⟨h.arg_names i hi, h.nodup_args i hi⟩⟩,
      h.codes_le, h.nodup_codes, h.length_le⟩, h.literals⟩

end Schema

end Bytecode
