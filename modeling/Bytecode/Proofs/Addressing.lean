import Bytecode.Proofs.Orders
import Bytecode.Proofs.Refusal

/-!
# Addressing instructions

An instruction is addressed by its name, by its mnemonic or by its opcode. In a loaded format these
agree (`addresses_agree`): what is asked about an instruction is done the same by each address. That
each address leads to the instruction is `Format.Addressed`, and the rest of a request depends on
nothing but the instruction found.
-/

namespace Bytecode

/-! ### Where addresses lead -/

/-- What the look-ups of a format lead to. -/
structure Format.Addressed (f : Format) : Prop where
  /-- A name leads to the instruction that answers to it. -/
  instruction?_iff : ∀ name i, f.instruction? name = some i ↔ i ∈ f.instructions ∧ i.Answers name
  /-- No two instructions answer to one name. -/
  unique : ∀ (name : String) (k l : ℕ) (i j : Instruction), f.instructions[k]? = some i →
    f.instructions[l]? = some j → i.Answers name → j.Answers name → k = l
  /-- The index has under a name the position of the instruction that answers to it. -/
  byName_iff : ∀ (name : String) (k : ℕ), f.index.byName[name]? = some k ↔
    ∃ i : Instruction, f.instructions[k]? = some i ∧ i.Answers name
  /-- The index leads where the search leads. -/
  indexedInstruction?_eq : ∀ name, f.indexedInstruction? name = f.instruction? name
  /-- An opcode leads to the instruction that has it. -/
  byOpcode?_iff : ∀ opcode i, f.byOpcode? opcode = some i ↔ i ∈ f.instructions ∧ i.opcode = opcode
  /-- The index leads where the search leads. -/
  indexedByOpcode?_eq : ∀ opcode, f.indexedByOpcode? opcode = f.byOpcode? opcode

theorem Format.addressed {f : Format} (hf : f.WellFormed) (hnamed : f.WellNamed) :
    f.Addressed where
  instruction?_iff _ _ := Format.instruction?_eq_some_iff hnamed
  unique _ _ _ _ _ hi hj h h' := hnamed.unique hi hj h h'
  byName_iff _ _ := Format.getElem?_byName_iff hnamed
  indexedInstruction?_eq := Format.indexedInstruction?_eq hnamed
  byOpcode?_iff _ _ := Format.byOpcode?_eq_some_iff hf
  indexedByOpcode?_eq := Format.indexedByOpcode?_eq hf

/-- A scribe appends the instruction that it finds, however it has been looked up. -/
theorem Scribe.emitFound_of_some {s : Scribe} {find : Format → Option Instruction} {i : Instruction}
    (hfind : find s.format = some i) (unknown : WriteError) (args : List Value) :
    emitFound find unknown args s = (bound >>= fun _ => append i args) s := by
  rw [emitFound]
  cases ht : s.target with
  | none => rw [bound_bind_of_none ht, bound_bind_of_none ht]
  | some t =>
    rw [bound_bind ht, bound_bind ht, get_bind]
    simp only [hfind]

namespace Format.Addressed

variable {f : Format} {i : Instruction} {name : String}

theorem instruction?_of_answers (h : f.Addressed) (hi : i ∈ f.instructions)
    (hanswers : i.Answers name) : f.instruction? name = some i :=
  (h.instruction?_iff name i).mpr ⟨hi, hanswers⟩

theorem byOpcode?_opcode (h : f.Addressed) (hi : i ∈ f.instructions) :
    f.byOpcode? i.opcode = some i :=
  (h.byOpcode?_iff i.opcode i).mpr ⟨hi, rfl⟩

/-! ### Writing -/

/-- An instruction is written the same, or refused for the same reason, by each address. -/
theorem scribe_emit_eq (h : f.Addressed) (hi : i ∈ f.instructions) (hanswers : i.Answers name)
    {s : Scribe} (hs : s.format = f) (args : List Value) :
    Scribe.emit name args s = Scribe.emitByOpcode i.opcode args s := by
  have hname : s.format.instruction? name = some i := hs ▸ h.instruction?_of_answers hi hanswers
  have hopcode : s.format.byOpcode? i.opcode = some i := hs ▸ h.byOpcode?_opcode hi
  rw [Scribe.emit, Scribe.emitByOpcode, Scribe.emitFound_of_some hname,
    Scribe.emitFound_of_some hopcode]

theorem writer_emit_eq (h : f.Addressed) (hi : i ∈ f.instructions) (hanswers : i.Answers name)
    {w : Writer} (hw : w.format = f) (args : List Value) :
    w.emit name args = w.emitByOpcode i.opcode args := by
  rw [Writer.emit, Writer.emitByOpcode, hw, h.instruction?_of_answers hi hanswers,
    h.byOpcode?_opcode hi]

/-! ### Handling -/

theorem reader_setHandler_eq (h : f.Addressed) (hi : i ∈ f.instructions)
    (hanswers : i.Answers name) {η ι : Type} {r : Reader η ι} (hr : r.format = f) (label : ι) :
    r.setHandlerByName name label = r.setHandlerByOpcode i.opcode label := by
  rw [Reader.setHandlerByName, Reader.setHandlerByOpcode, hr,
    h.instruction?_of_answers hi hanswers, h.byOpcode?_opcode hi]

end Format.Addressed

variable {σ : Type} {schema : Schema} {f : Format}

/-- **The ways to address an instruction agree.** In a loaded format an instruction is found under
its name, its mnemonic and its opcode, and nothing else is: neither by searching, nor in the index,
nor in the table of a lector after whatever orders. By any of its names it is written as by its
opcode, with the same result and whatever has been written before; and by any of its names a handler
is installed where it is installed by the opcode, and nowhere else. -/
theorem addresses_agree (hload : schema.load = .ok f) :
    f.Addressed ∧
    (∀ i ∈ f.instructions, ∀ name, i.Answers name → ∀ args,
      (∀ s : Scribe, s.format = f → Scribe.emit name args s = Scribe.emitByOpcode i.opcode args s) ∧
      ∀ w : Writer, w.format = f → w.emit name args = w.emitByOpcode i.opcode args) ∧
    (∀ (world : σ) (orders : List (Order σ)),
      let s := Lector.after f world orders
      (∀ opcode, s.instructions.get? opcode = f.byOpcode? opcode) ∧
      ∀ i ∈ f.instructions, ∀ handler,
        s.serve (.setHandlerByOpcode i.opcode handler) = (.ok .done, s.install i.opcode handler) ∧
        (∀ name, i.Answers name →
          s.serve (.setHandlerByName name handler) = (.ok .done, s.install i.opcode handler)) ∧
        ∀ opcode, (s.install i.opcode handler).handlers.get? opcode =
          if i.opcode = opcode then some handler else s.handlers.get? opcode) ∧
    ∀ i ∈ f.instructions, ∀ name, i.Answers name → ∀ (η ι : Type) (r : Reader η ι), r.format = f →
      ∀ label, r.setHandlerByName name label = r.setHandlerByOpcode i.opcode label := by
  have hf := Schema.wellFormed_of_load hload
  have h := f.addressed hf (Schema.wellNamed_of_load hload)
  refine ⟨h, ?_, ?_, ?_⟩
  · intro i hi name hanswers args
    exact ⟨fun s hs => h.scribe_emit_eq hi hanswers hs args,
      fun w hw => h.writer_emit_eq hi hanswers hw args⟩
  · intro world orders s
    have hrepresents := Lector.represents_after hf world orders
    have hformat : s.format = f := Lector.format_after hf world orders
    refine ⟨hformat ▸ hrepresents.assigns, fun i hi handler => ⟨?_, ?_, ?_⟩⟩
    · apply hrepresents.assigns.serve_setHandlerByOpcode_of_some
      exact hformat ▸ h.byOpcode?_opcode hi
    · intro name hanswers
      apply Lector.serve_setHandlerByName_of_some
      exact hformat ▸ h.instruction?_of_answers hi hanswers
    · intro opcode
      -- the table of handlers has room for every opcode of the format
      apply Table.get?_put
      rw [hrepresents.size_eq, hformat]
      exact Format.opcodeCount_le_iff.mp le_rfl i hi
  · intro i hi name hanswers η ι r hr label
    exact h.reader_setHandler_eq hi hanswers hr label

theorem addresses_agree_of_sample :
    sampleFormat.instruction? "push" = some samplePush ∧
      sampleFormat.indexedInstruction? "PUSH" = some samplePush ∧
      sampleFormat.indexedByOpcode? 1 = none ∧
      ∀ args, Scribe.emit "push" args (Scribe.new sampleFormat) =
        Scribe.emitByOpcode 0 args (Scribe.new sampleFormat) := by
  obtain ⟨h, hemit, -, -⟩ :=
    @addresses_agree Unit _ _ (show sampleSchema.load = .ok sampleFormat by decide +kernel)
  have hpush : samplePush ∈ sampleFormat.instructions := List.mem_singleton_self _
  refine ⟨h.instruction?_of_answers hpush (Or.inl rfl), ?_, ?_, fun args => ?_⟩
  · rw [h.indexedInstruction?_eq]
    exact h.instruction?_of_answers hpush (Or.inr rfl)
  · rw [h.indexedByOpcode?_eq]
    decide
  · exact (hemit _ hpush "push" (Or.inl rfl) args).1 _ rfl

end Bytecode
