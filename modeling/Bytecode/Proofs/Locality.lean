import Bytecode.Proofs.Diagnosis

/-!
# Reading depends on nothing else

A cartridge may lie anywhere in a longer byte string. What is read from it does not depend on the
bytes in front of it, nor on those behind what has been read. So if a tape has more bytes on either
side (`Tape.Surrounded`), the same is read from it, and only offsets are larger, all of them by the
number of bytes in front.

Failures are the same too, unless bytes are missing: then the bytes behind may be those that were
missing. Of the errors in reading an instruction these are the ones that say so
(`ReadError.IsShortage`). An error in reading a header does not say it, and `Format.HeaderBreaksOff`
tells when it is due to missing bytes.

What a read accepts and why it fails is known in terms of the bytes ahead, so that the lemmas below
only add bytes there: for passages (`Tape.Surrounded.passes`), flaws of values (`Kind.Flaw.shift`)
and reasons of failure (`Format.Refuses.shift`). Two readers then keep in step, reading by reading
(`Reader.InStep.next`) and so all along (`Reader.InStep.nexts`).
-/

namespace Bytecode

/-! ### Offsets -/

/-- A fault whose offset is counted from `n` bytes earlier. -/
def Tape.Fault.shift (n : ℕ) : Tape.Fault → Tape.Fault
  | truncated offset needed => truncated (offset + n) needed
  | malformedText offset => malformedText (offset + n)
  | outOfBounds => outOfBounds

/-- An error whose offset, if there is one, is counted from `n` bytes earlier. -/
def ReadError.shift (n : ℕ) : ReadError → ReadError
  | fault reason => fault (reason.shift n)
  | e => e

/-- A header whose offsets are counted from `n` bytes earlier. -/
def Header.shift (n : ℕ) (h : Header) : Header :=
  { h with start := h.start + n, bodyStart := h.bodyStart + n }

/-- An instruction whose offset is counted from `n` bytes earlier. -/
def Decoded.shift (n : ℕ) (d : Decoded) : Decoded := { d with offset := d.offset + n }

/-- What comes of an order, its offset counted from `n` bytes earlier. -/
def Outcome.shift (n : ℕ) : Except ReadError Outcome → Except ReadError Outcome
  | .ok (.decoded d) => .ok (.decoded (d.shift n))
  | .ok outcome => .ok outcome
  | .error e => .error (e.shift n)

/-- The fault is that bytes are missing. -/
def Tape.Fault.IsShortage (fault : Tape.Fault) : Prop :=
  ∃ offset needed, fault = .truncated offset needed

/-- The error is that bytes are missing. -/
def ReadError.IsShortage (e : ReadError) : Prop :=
  ∃ fault : Tape.Fault, fault.IsShortage ∧ e = .fault fault

/-! ### Tapes with more bytes -/

/-- `t'` is `t` with more bytes on both sides: `p` in front and `s` behind. Its head is at the same
byte, which is `p.length` bytes further from the start. -/
structure Tape.Surrounded (t : Tape) (p s : List UInt8) (t' : Tape) : Prop where
  before_eq : t'.before = p ++ t.before
  after_eq : t'.after = t.after ++ s

namespace Tape

variable {t t' u : Tape} {p s bs : List UInt8}

theorem Surrounded.pos_eq (h : t.Surrounded p s t') : t'.pos = t.pos + p.length := by
  rw [pos, h.before_eq, List.length_append, Nat.add_comm, ← pos]

/-- The head passes over the same bytes, and there still are more bytes on both sides then. -/
theorem Surrounded.passes (h : t.Surrounded p s t') (hpasses : t.Passes bs u) :
    ∃ u', t'.Passes bs u' ∧ u.Surrounded p s u' := by
  have hafter : t'.after = bs ++ (u.after ++ s) := by
    rw [h.after_eq, hpasses.after_eq, List.append_assoc]
  refine ⟨_, passes_of_after_eq hafter, ?_, rfl⟩
  rw [h.before_eq, hpasses.before_eq, List.append_assoc]

end Tape

/-! ### Values -/

theorem Kind.Flaw.shift {k : Kind} {offset : ℕ} {bs : List UInt8} {fault : Tape.Fault}
    (h : k.Flaw offset bs fault) (hfault : ¬ fault.IsShortage) (n : ℕ) (s : List UInt8) :
    k.Flaw (offset + n) (bs ++ s) (fault.shift n) := by
  cases h with
  | number | lengthWord | payload => exact absurd ⟨_, _, rfl⟩ hfault
  | @text payload rest hk hlimit hbs hmalformed =>
    have hbs' : bs ++ s = Value.lengthPrefixed payload ++ (rest ++ s) := by
      rw [hbs, List.append_assoc]
    rw [Tape.Fault.shift, Nat.add_right_comm]
    exact .text hk hlimit hbs' hmalformed

section

variable {t t' u : Tape} {p s : List UInt8}

theorem Tape.Surrounded.decode_of_ok (h : t.Surrounded p s t') {k : Kind} {v : Value}
    (hread : k.decode t = .ok v u) : ∃ u', k.decode t' = .ok v u' ∧ u.Surrounded p s u' := by
  obtain ⟨hkind, hfits, hpasses⟩ := Kind.decode_eq_ok_iff.mp hread
  obtain ⟨u', hpasses', hu⟩ := h.passes hpasses
  exact ⟨u', Kind.decode_eq_ok_iff.mpr ⟨hkind, hfits, hpasses'⟩, hu⟩

theorem Tape.Surrounded.decode_of_failsWith (h : t.Surrounded p s t') {k : Kind}
    {fault : Tape.Fault} (hread : k.decode.FailsWith t fault) (hfault : ¬ fault.IsShortage) :
    k.decode.FailsWith t' (fault.shift p.length) := by
  rw [Kind.failsWith_decode_iff, h.pos_eq, h.after_eq]
  exact (Kind.failsWith_decode_iff.mp hread).shift hfault p.length s

/-! ### Instructions -/

variable {f : Format} {e : ReadError}

theorem Format.Refuses.shift (hrefuses : f.Refuses t e) (he : ¬ e.IsShortage)
    (h : t.Surrounded p s t') : f.Refuses t' (e.shift p.length) := by
  cases hrefuses with
  | ended => exact absurd ⟨_, ⟨_, _, rfl⟩, rfl⟩ he
  | @unassigned opcode rest hafter hnone =>
    have hafter' : t'.after = opcode :: (rest ++ s) := by
      rw [h.after_eq, hafter, List.cons_append]
    exact .unassigned hafter' hnone
  | @argument i before later field values rest fault hi heq hadmits hafter hflaw =>
    have hfault : ¬ fault.IsShortage := fun hfault => he ⟨fault, hfault, rfl⟩
    have hafter' : t'.after = i.opcode :: (values.flatMap Value.wire ++ (rest ++ s)) := by
      rw [h.after_eq, hafter, List.cons_append, List.append_assoc]
    refine .argument hi heq hadmits hafter' ?_
    rw [h.pos_eq, Nat.add_right_comm t.pos, Nat.add_right_comm (t.pos + 1)]
    exact hflaw.shift hfault p.length s

theorem Tape.Surrounded.readInstruction_of_ok (h : t.Surrounded p s t') {d : Decoded}
    (hread : f.readInstruction t = .ok (d, u)) :
    ∃ u', f.readInstruction t' = .ok (d.shift p.length, u') ∧ u.Surrounded p s u' := by
  obtain ⟨hoffset, hi, htakes, hpasses⟩ := Format.readInstruction_eq_ok_iff.mp hread
  obtain ⟨u', hpasses', hu⟩ := h.passes hpasses
  refine ⟨u', Format.readInstruction_eq_ok_iff.mpr ⟨?_, hi, htakes, hpasses'⟩, hu⟩
  rw [h.pos_eq, Decoded.shift, hoffset]

theorem Tape.Surrounded.readInstruction_of_error (h : t.Surrounded p s t') (hf : f.WellFormed)
    (hread : f.readInstruction t = .error e) (he : ¬ e.IsShortage) :
    f.readInstruction t' = .error (e.shift p.length) := by
  rw [Format.readInstruction_eq_error_iff hf] at hread ⊢
  exact hread.shift he h

/-! ### Headers -/

theorem Constant.read_eq_error_iff {c : Constant} : c.read t = .error e ↔
    ((∃ fault, c.value.kind.decode.FailsWith t fault) ∨
      ∃ v u, c.value.kind.decode t = .ok v u ∧ v ≠ c.value) ∧ .corruptHeader c.name = e := by
  rw [read, Parsing.bind_eq_error_iff, Tape.Reading.reporting_eq_error_iff]
  simp only [Tape.Reading.reporting_eq_ok_iff]
  rw [or_and_right, ← exists_and_right]
  refine or_congr_right ?_
  constructor
  · rintro ⟨v, u, hread, hv⟩
    split at hv
    · cases hv
    · cases hv
      exact ⟨⟨v, u, hread, ‹_›⟩, rfl⟩
  · rintro ⟨⟨v, u, hread, hv⟩, rfl⟩
    refine ⟨v, u, hread, ?_⟩
    rw [if_neg hv]
    rfl

/-- A header that cannot be read because bytes are missing. -/
inductive Format.HeaderBreaksOff (f : Format) (t : Tape) : Prop where
  /-- The constants before `c` are read, and bytes of `c` are missing. -/
  | constant {before later : List Constant} {c : Constant} {fields : List (String × Value)}
      {u : Tape} {fault : Tape.Fault} : f.header = before ++ c :: later →
    before.mapM Constant.read t = .ok (fields, u) → c.value.kind.decode.FailsWith u fault →
    fault.IsShortage → HeaderBreaksOff f t
  /-- The constants are read, and bytes of the slots are missing. -/
  | slots {fields : List (String × Value)} {u : Tape} :
    f.header.mapM Constant.read t = .ok (fields, u) → u.remaining < slotsWidth f.slots →
      HeaderBreaksOff f t

theorem Tape.Surrounded.mapM_constants_of_ok (h : t.Surrounded p s t') {cs : List Constant}
    {fields : List (String × Value)} (hread : cs.mapM Constant.read t = .ok (fields, u)) :
    ∃ u', cs.mapM Constant.read t' = .ok (fields, u') ∧ u.Surrounded p s u' := by
  obtain ⟨hfields, hpasses⟩ := Constant.mapM_read_eq_ok_iff.mp hread
  obtain ⟨u', hpasses', hu⟩ := h.passes hpasses
  exact ⟨u', Constant.mapM_read_eq_ok_iff.mpr ⟨hfields, hpasses'⟩, hu⟩

/-- A constant that is not the one of the format is not the one with more bytes either. -/
theorem Tape.Surrounded.constant_of_error (h : t.Surrounded p s t') {c : Constant}
    (hread : c.read t = .error e)
    (hbytes : ∀ fault, c.value.kind.decode.FailsWith t fault → ¬ fault.IsShortage) :
    c.read t' = .error e := by
  obtain ⟨hc, he⟩ := Constant.read_eq_error_iff.mp hread
  refine Constant.read_eq_error_iff.mpr ⟨?_, he⟩
  rcases hc with ⟨fault, hfault⟩ | ⟨v, u, hv, hne⟩
  · exact Or.inl ⟨_, h.decode_of_failsWith hfault (hbytes fault hfault)⟩
  · obtain ⟨u', hv', -⟩ := h.decode_of_ok hv
    exact Or.inr ⟨v, u', hv', hne⟩

theorem Tape.Surrounded.readHeader_of_ok (h : t.Surrounded p s t') {header : Header}
    (hread : f.readHeader t = .ok (header, u)) :
    ∃ u', f.readHeader t' = .ok (header.shift p.length, u') ∧ u.Surrounded p s u' := by
  obtain ⟨⟨hstart, hbody, hfields⟩, hfits, hcounters, hchunks, hpasses⟩ :=
    Format.readHeader_eq_ok_iff_passes.mp hread
  obtain ⟨u', hpasses', hu⟩ := h.passes hpasses
  refine ⟨u', Format.readHeader_eq_ok_iff_passes.mpr
    ⟨⟨?_, ?_, hfields⟩, hfits, hcounters, hchunks, hpasses'⟩, hu⟩
  · rw [h.pos_eq, Header.shift, hstart]
  · rw [hu.pos_eq, Header.shift, hbody]

theorem Tape.Surrounded.readHeader_of_error (h : t.Surrounded p s t')
    (hread : f.readHeader t = .error e) (hheader : ¬ f.HeaderBreaksOff t) :
    f.readHeader t' = .error e := by
  have hconstants : f.header.mapM Constant.read t = .error e := by
    rcases Format.constants_or_slots_of_readHeader_eq_error hread with hread | hslots
    · exact hread
    · -- any bytes are numbers in slots, so that bytes of the slots are missing
      obtain ⟨fields, u, hfields, hslots⟩ := hslots
      refine absurd (.slots hfields ?_) hheader
      by_contra hlt
      obtain ⟨r, hr⟩ := Slot.exists_mapM_read_iff.mpr (Nat.not_lt.mp hlt)
      rw [hslots] at hr
      cases hr
  obtain ⟨before, c, later, fields, u, heq, hbefore, hc⟩ := Parsing.mapM_eq_error_iff.mp hconstants
  obtain ⟨u', hbefore', hu⟩ := h.mapM_constants_of_ok hbefore
  have hc' : c.read u' = .error e := hu.constant_of_error hc fun fault hfails hfault =>
    hheader (.constant heq hbefore hfails hfault)
  have hconstants' : f.header.mapM Constant.read t' = .error e :=
    Parsing.mapM_eq_error_iff.mpr ⟨before, c, later, fields, u', heq, hbefore', hc'⟩
  unfold Format.readHeader
  refine Parsing.bind_eq_error_iff.mpr (Or.inr ⟨t', t', rfl, ?_⟩)
  exact Parsing.bind_eq_error_iff.mpr (Or.inl hconstants')

end

/-! ### Readers -/

namespace Reader

variable {η ι η' ι' σ σ' : Type} {p s : List UInt8}

/-- Two readers of one format read the same cartridge, the second one from a tape with more
bytes. -/
structure InStep (r : Reader η ι) (p s : List UInt8) (r' : Reader η' ι') : Prop where
  format_eq : r'.format = r.format
  exists_opened : ∃ header t t', r.source = .opened header t ∧
    r'.source = .opened (header.shift p.length) t' ∧ t.Surrounded p s t'

theorem inStep_bind {r : Reader (HeaderHandler σ) (Handler σ)}
    {r' : Reader (HeaderHandler σ') (Handler σ')} (hformat : r'.format = r.format) {t t' : Tape}
    (h : t.Surrounded p s t') (hbind : (r.serve (.bind t)).outcome = .ok .done) :
    (r'.serve (.bind t')).outcome = .ok .done ∧
      (r.serve (.bind t)).reader.InStep p s (r'.serve (.bind t')).reader := by
  cases hread : r.format.readHeader t with
  | error e =>
    simp only [serve, bind_of_readHeader_eq_error hread] at hbind
    cases hbind
  | ok opened =>
    obtain ⟨header, u⟩ := opened
    obtain ⟨u', hread', hu⟩ := h.readHeader_of_ok hread
    rw [← hformat] at hread'
    simp only [serve, bind_of_readHeader_eq_ok hread, bind_of_readHeader_eq_ok hread']
    exact ⟨trivial, hformat, header, u, u', rfl, rfl, hu⟩

theorem bind_eq_error_of_surrounded {r : Reader (HeaderHandler σ) (Handler σ)}
    {r' : Reader (HeaderHandler σ') (Handler σ')} (hformat : r'.format = r.format) {t t' : Tape}
    (h : t.Surrounded p s t') (hheader : ¬ r.format.HeaderBreaksOff t) {e : ReadError}
    (hbind : (r.serve (.bind t)).outcome = .error e) :
    (r'.serve (.bind t')).outcome = .error e := by
  cases hread : r.format.readHeader t with
  | ok opened =>
    simp only [serve, bind_of_readHeader_eq_ok hread] at hbind
    cases hbind
  | error e' =>
    have hread' := h.readHeader_of_error hread hheader
    rw [← hformat] at hread'
    simp only [serve, bind_of_readHeader_eq_error hread] at hbind
    simp only [serve, bind_of_readHeader_eq_error hread', hbind]

variable {r : Reader (HeaderHandler σ) (Handler σ)} {r' : Reader (HeaderHandler σ') (Handler σ')}

/-- Readers that are in step read the same instruction or fail in the same way, and are in step
afterwards. -/
theorem InStep.next (h : r.InStep p s r') (hf : r.format.WellFormed)
    (hbytes : ∀ e, (r.serve .next).outcome = .error e → ¬ e.IsShortage) :
    (r'.serve .next).outcome = Outcome.shift p.length (r.serve .next).outcome ∧
      (r.serve .next).reader.InStep p s (r'.serve .next).reader := by
  obtain ⟨header, t, t', hsource, hsource', ht⟩ := h.exists_opened
  cases hread : r.format.readInstruction t with
  | ok read =>
    obtain ⟨d, u⟩ := read
    obtain ⟨u', hread', hu⟩ := ht.readInstruction_of_ok hread
    rw [← h.format_eq] at hread'
    rw [serve_next_of_next (next_of_readInstruction_eq_ok hsource hread),
      serve_next_of_next (next_of_readInstruction_eq_ok hsource' hread')]
    exact ⟨rfl, h.format_eq, header, u, u', rfl, rfl, hu⟩
  | error e =>
    have hnext := serve_next_of_error (next_of_readInstruction_eq_error hsource hread)
    rw [hnext] at hbytes
    have hread' := ht.readInstruction_of_error hf hread (hbytes e rfl)
    rw [← h.format_eq] at hread'
    rw [hnext, serve_next_of_error (next_of_readInstruction_eq_error hsource' hread')]
    exact ⟨rfl, h⟩

/-- Readers that are in step are in step as long as no bytes are missing. -/
theorem InStep.nexts (h : r.InStep p s r') (hf : r.format.WellFormed) (k : ℕ)
    (hbytes : ∀ e, .error e ∈ (r.serveAll (List.replicate k .next)).outcome → ¬ e.IsShortage) :
    (r'.serveAll (List.replicate k .next)).outcome =
        (r.serveAll (List.replicate k .next)).outcome.map (Outcome.shift p.length) ∧
      (r.serveAll (List.replicate k .next)).reader.InStep p s
        (r'.serveAll (List.replicate k .next)).reader := by
  induction k generalizing r r' with
  | zero => exact ⟨rfl, h⟩
  | succ k ih =>
    simp only [List.replicate_succ, serveAll, List.mem_cons] at hbytes ⊢
    obtain ⟨houtcome, hnext⟩ := h.next hf fun e he => hbytes e (Or.inl he.symm)
    rw [← format_serve r .next] at hf
    obtain ⟨houtcomes, hrest⟩ := ih hnext hf fun e he => hbytes e (Or.inr he)
    exact ⟨by rw [houtcome, houtcomes, List.map_cons], hrest⟩

end Reader

/-! ### Lectors -/

namespace Lector

variable {σ σ' : Type} {f : Format}

/-- **Reading is local.** Whatever orders have been given to two lectors of one format, let the
second bind a tape with more bytes in front and behind than the first. Then it reads the same header
and the same instructions, with the same failures between them and the same failure of binding, as
long as the first does not fail because bytes are missing; and all offsets are larger by the number
of bytes in front. -/
theorem reading_is_local {schema : Schema} (hload : schema.load = .ok f) (world : σ) (world' : σ')
    (orders : List (Order σ)) (orders' : List (Order σ')) {p s : List UInt8} {t t' : Tape}
    (ht : t.Surrounded p s t') :
    let bound := (after f world orders).serve (.bind t)
    let bound' := (after f world' orders').serve (.bind t')
    (bound.1 = .ok .done → bound'.1 = .ok .done ∧
      (∃ header, bound.2.header = some header ∧
        bound'.2.header = some (header.shift p.length)) ∧
      ∀ k outcomes s₁, bound.2.serveAll (List.replicate k .next) = (outcomes, s₁) →
        (∀ e, .error e ∈ outcomes → ¬ e.IsShortage) →
          ∃ s₁' u u', bound'.2.serveAll (List.replicate k .next) =
              (outcomes.map (Outcome.shift p.length), s₁') ∧
            s₁.target = some u ∧ s₁'.target = some u' ∧ u'.pos = u.pos + p.length) ∧
    ∀ e, bound.1 = .error e → ¬ f.HeaderBreaksOff t → bound'.1 = .error e := by
  intro bound bound'
  have hf := Schema.wellFormed_of_load hload
  have hmatches := (represents_after hf world orders).serve (.bind t)
  have hmatches' := (represents_after hf world' orders').serve (.bind t')
  have hformat : ((Reader.new f).serveAll orders).reader.format = f := Reader.format_serveAll _ _
  have hformat' : ((Reader.new f).serveAll orders').reader.format = f := Reader.format_serveAll _ _
  constructor
  · intro hbind
    rw [hmatches.outcome_eq] at hbind
    obtain ⟨hbind', hinstep⟩ := Reader.inStep_bind (hformat'.trans hformat.symm) ht hbind
    refine ⟨hmatches'.outcome_eq.trans hbind', ?_, ?_⟩
    · obtain ⟨header, u, u', hsource, hsource', -⟩ := hinstep.exists_opened
      refine ⟨header, ?_, ?_⟩
      · rw [hmatches.represents.header_eq, hsource, Source.header?]
      · rw [hmatches'.represents.header_eq, hsource', Source.header?]
    · intro k outcomes s₁ hran hbytes
      have hmatches := hmatches.represents.serveAll (List.replicate k .next)
      have hmatches' := hmatches'.represents.serveAll (List.replicate k .next)
      rw [hran] at hmatches
      obtain rfl := hmatches.outcome_eq
      rw [← hformat, ← Reader.format_serve _ (.bind t)] at hf
      obtain ⟨houtcome, hinstep⟩ := hinstep.nexts hf k hbytes
      obtain ⟨header, u, u', hsource, hsource', hu⟩ := hinstep.exists_opened
      refine ⟨_, u, u', Prod.ext (hmatches'.outcome_eq.trans houtcome) rfl, ?_, ?_, hu.pos_eq⟩
      · rw [hmatches.represents.target_eq, hsource, Source.tape?]
      · rw [hmatches'.represents.target_eq, hsource', Source.tape?]
  · intro e hbind hheader
    rw [hmatches.outcome_eq] at hbind
    rw [← hformat] at hheader
    exact hmatches'.outcome_eq.trans
      (Reader.bind_eq_error_of_surrounded (hformat'.trans hformat.symm) ht hheader hbind)

/-- Two instructions and a byte that is no opcode, three bytes further on and with an opcode
behind. -/
theorem reading_is_local_of_sample :
    let t := Tape.fixed (sampleCartridge.after ++ [200])
    let t' : Tape := ⟨[1, 2, 3], sampleCartridge.after ++ [200, 0], true⟩
    t.Surrounded [1, 2, 3] [0] t' ∧
      ∃ s, ((after sampleFormat () [.step]).serve (.bind t')).2.serveAll (List.replicate 3 .next) =
        ([.ok (.decoded ⟨11, samplePush, [.i32 5]⟩), .ok (.decoded ⟨16, samplePush, [.i32 7]⟩),
          .error (.unknownOpcode 200)], s) := by
  intro t t'
  have hload : sampleSchema.load = .ok sampleFormat := by decide +kernel
  have ht : t.Surrounded [1, 2, 3] [0] t' := ⟨rfl, rfl⟩
  obtain ⟨hbound, -⟩ := reading_is_local hload () () [] [.step] ht
  obtain ⟨-, -, hnexts⟩ := hbound (by decide +kernel)
  obtain ⟨s, -, -, hran, -⟩ := hnexts 3
    [.ok (.decoded ⟨8, samplePush, [.i32 5]⟩), .ok (.decoded ⟨13, samplePush, [.i32 7]⟩),
      .error (.unknownOpcode 200)] _ (Prod.ext (by decide +kernel) rfl)
    (by simp [ReadError.IsShortage])
  exact ⟨ht, s, hran⟩

end Lector

end Bytecode
