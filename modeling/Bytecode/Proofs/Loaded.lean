import Bytecode.Proofs.Opcodes

/-!
# Loaded formats

What a reader and a writer rely on when they look a counter up by its name or an instruction by its
opcode: in a loaded format no two counters have one name and no two instructions one opcode
(`Schema.wellFormed_of_load`). The look-ups follow (`Format.byOpcode?_of_mem`,
`Format.exists_counter?_of_mem`).
-/

namespace Bytecode

/-- Counters are told apart by their names, and instructions by their opcodes. -/
structure Format.WellFormed (f : Format) : Prop where
  /-- No two counters have one name. -/
  nodup_counters : (f.counters.map (·.name)).Nodup
  /-- No two instructions have one opcode. -/
  nodup_opcodes : (f.instructions.map (·.opcode)).Nodup

theorem map_opcode_zipWith (commonArgs : List Field) (is : List InstructionDecl)
    (opcodes : List UInt8) :
    (is.zipWith (Schema.resolveInstruction commonArgs) opcodes).map (·.opcode) =
      opcodes.take is.length := by
  induction is generalizing opcodes with
  | nil => rfl
  | cons i is ih =>
    cases opcodes with
    | nil => rfl
    | cons opcode opcodes =>
      rw [List.zipWith_cons_cons, List.map_cons, ih, List.length_cons, List.take_succ_cons]
      rfl

/-- The format that a schema describes is well formed. -/
theorem Schema.wellFormed_of_load {s : Schema} {f : Format} (h : s.load = .ok f) :
    f.WellFormed := by
  obtain ⟨checked, hchecked, h⟩ := except_bind_eq_ok_iff.mp h
  obtain ⟨header, -, h⟩ := except_bind_eq_ok_iff.mp h
  cases h
  obtain ⟨-, hcounters, -, -, hopcodes⟩ := Schema.check_eq_ok_iff.mp hchecked
  obtain ⟨hslots, -, hfresh⟩ := resolveSlots_eq_ok_iff.mp hcounters
  constructor
  · show (checked.counters.map (·.name)).Nodup
    rw [← hslots, List.map_map] at hfresh
    exact fresh_nil_iff.mp hfresh
  · show ((s.instructions.zipWith (resolveInstruction s.commonArgs) checked.opcodes).map
      (·.opcode)).Nodup
    rw [map_opcode_zipWith]
    exact (nodup_of_assignOpcodes hopcodes).sublist (List.take_sublist _ _)

namespace Format

variable {f : Format}

/-- An instruction is found by its opcode. -/
theorem byOpcode?_of_mem (hf : f.WellFormed) {i : Instruction} (hi : i ∈ f.instructions) :
    f.byOpcode? i.opcode = some i := by
  cases h : f.byOpcode? i.opcode with
  | none => simpa using List.find?_eq_none.mp h i hi
  | some j =>
    have hopcode : j.opcode = i.opcode := by simpa using List.find?_some h
    rw [List.inj_on_of_nodup_map hf.nodup_opcodes (List.mem_of_find?_eq_some h) hi hopcode]

theorem counters_of_counter? {name : String} {c : Slot} {index : ℕ}
    (h : f.counter? name = some (c, index)) :
    c.name = name ∧ ∃ before after, f.counters = before ++ c :: after ∧ before.length = index := by
  obtain ⟨hname, as, bs, hsplit, -⟩ := List.find?_eq_some_iff_append.mp h
  refine ⟨by simpa using hname, as.map Prod.fst, bs.map Prod.fst, ?_, ?_⟩
  · rw [← List.zipIdx_map_fst 0 f.counters, hsplit]
    simp
  · have hget : f.counters.zipIdx[as.length]? = some (c, index) := by simp [hsplit]
    rw [List.getElem?_zipIdx] at hget
    obtain ⟨c', -, heq⟩ := Option.map_eq_some_iff.mp hget
    simpa using congrArg Prod.snd heq

theorem mem_of_counter? {name : String} {c : Slot} {index : ℕ}
    (h : f.counter? name = some (c, index)) : c ∈ f.counters := by
  obtain ⟨-, before, after, heq, -⟩ := counters_of_counter? h
  rw [heq]
  exact List.mem_append_right before List.mem_cons_self

/-- No other counter has the name of the one that is found. -/
theorem eq_of_counter? (hf : f.WellFormed) {name : String} {c c' : Slot} {index : ℕ}
    (h : f.counter? name = some (c, index)) (hc' : c' ∈ f.counters) (hname : c'.name = name) :
    c' = c :=
  List.inj_on_of_nodup_map hf.nodup_counters hc' (mem_of_counter? h)
    (hname.trans (counters_of_counter? h).1.symm)

/-- A counter is found by its name. -/
theorem exists_counter?_of_mem (hf : f.WellFormed) {c : Slot} (hc : c ∈ f.counters) :
    ∃ index, f.counter? c.name = some (c, index) := by
  cases h : f.counter? c.name with
  | none =>
    rw [← List.zipIdx_map_fst 0 f.counters] at hc
    obtain ⟨entry, hentry, rfl⟩ := List.mem_map.mp hc
    simpa using List.find?_eq_none.mp h entry hentry
  | some entry =>
    obtain ⟨c', index⟩ := entry
    exact ⟨index, by rw [eq_of_counter? hf h hc rfl]⟩

end Format

end Bytecode
