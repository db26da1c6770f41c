import Bytecode.Proofs.Canonical

/-!
# Reading a cartridge that is cut short

A finished cartridge may be cut at any offset. `cut_session` says what a reader makes of what is
left. A cut before the instructions is noticed when the tape is bound, and the part of the header
that it falls into is named. After a cut behind that, the instructions that are whole come out as
they were appended; if the cut falls between two instructions, nothing tells it from an end, and if
it falls inside one, reading that one runs out of bytes.

The bytes that a read needs are known from the wire form that it would have accepted. So the
lemmas below are about tapes that end inside a wire form (`Tape.EndsInside`): a read of this wire
form runs out of bytes, for values (`Kind.runsOut_decode`), whose length word still says how much
should follow, and for instructions (`Format.runsOut_readInstruction`). In particular no such read
gets as far as to look at the bytes of a text.
-/

namespace Bytecode

open History

namespace Tape

variable {α β : Type} {t t' : Tape} {as bs : List UInt8}

/-! ### Tapes that end too early -/

/-- The tape ends before all of `bs` has come: what lies ahead of the head is a beginning of `bs`,
and not the whole. -/
structure EndsInside (t : Tape) (bs : List UInt8) : Prop where
  /-- As far as there are bytes, they are those of `bs`. -/
  after_prefix : t.after <+: bs
  /-- There are too few of them. -/
  remaining_lt : t.remaining < bs.length

theorem Passes.size_eq (h : t.Passes bs t') : t'.size = t.size := by
  have hpos := h.pos_eq
  have hremaining := h.remaining_eq
  simp only [size]
  omega

/-- Where a beginning of two stretches lies ahead, the head passes over the first, and a beginning
of the second lies ahead then, or the tape ends inside the first. -/
theorem passes_or_endsInside (h : t.after <+: as ++ bs) :
    (∃ t', t.Passes as t' ∧ t'.after <+: bs) ∨ t.EndsInside as := by
  by_cases hlength : as.length ≤ t.remaining
  · left
    obtain ⟨rest, hrest⟩ := List.prefix_of_prefix_length_le (List.prefix_append as bs) h hlength
    refine ⟨_, passes_of_after_eq hrest.symm, ?_⟩
    rw [← hrest] at h
    exact (List.prefix_append_right_inj as).mp h
  · right
    have hlt : t.remaining < as.length := by omega
    have hle : t.after.length ≤ as.length := Nat.le_of_lt hlt
    exact ⟨List.prefix_of_prefix_length_le h (List.prefix_append as bs) hle, hlt⟩

/-- A tape that ends inside two stretches ends inside the first, or inside the second as soon as the
head has passed over the first. -/
theorem EndsInside.split (h : t.EndsInside (as ++ bs)) :
    t.EndsInside as ∨ ∃ t', t.Passes as t' ∧ t'.EndsInside bs := by
  rcases passes_or_endsInside h.after_prefix with ⟨t', hpasses, hprefix⟩ | hends
  · right
    have hlt := h.remaining_lt
    have hremaining := hpasses.remaining_eq
    rw [List.length_append] at hlt
    exact ⟨t', hpasses, hprefix, by omega⟩
  · exact Or.inl hends

/-! ### Reads that run out of bytes -/

/-- The read fails because it asks for bytes up to an offset that lies behind the end of the
tape. -/
def Reading.RunsOut (read : Reading α) (t : Tape) : Prop :=
  ∃ offset needed t', read t = .error (.truncated offset needed) t' ∧
    offset ≤ t.size ∧ t.size < offset + needed

theorem runsOut_take {count : ℕ} (h : t.remaining < count) : (take count).RunsOut t := by
  have hcount : ¬ count ≤ t.remaining := by omega
  refine ⟨t.pos, count, t, ?_, ?_, ?_⟩
  · rw [take, if_neg hcount]
  · rw [size]
    omega
  · rw [size]
    omega

theorem Reading.RunsOut.map {read : Reading α} (h : read.RunsOut t) (g : α → β) :
    Reading.RunsOut (g <$> read) t := by
  obtain ⟨offset, needed, t', hread, hbounds⟩ := h
  refine ⟨offset, needed, t', ?_, hbounds⟩
  simp only [Functor.map, EStateM.map, hread]

theorem Reading.RunsOut.bind {read : Reading α} (h : read.RunsOut t) (next : α → Reading β) :
    Reading.RunsOut (read >>= next) t := by
  obtain ⟨offset, needed, t', hread, hbounds⟩ := h
  refine ⟨offset, needed, t', ?_, hbounds⟩
  simp only [Bind.bind, EStateM.bind, hread]

/-- A read runs out of bytes where its second part does, which still finds the tape as it is. -/
theorem Reading.RunsOut.bind_of_eq_ok {read : Reading α} {next : α → Reading β} {a : α}
    (hread : read t = .ok a t') (hsize : t'.size = t.size) (h : (next a).RunsOut t') :
    Reading.RunsOut (read >>= next) t := by
  obtain ⟨offset, needed, t'', hnext, hbounds⟩ := h
  rw [hsize] at hbounds
  refine ⟨offset, needed, t'', ?_, hbounds⟩
  simp only [Bind.bind, EStateM.bind, hread, hnext]

theorem runsOut_readNat {width : ℕ} (h : t.remaining < width) : (readNat width).RunsOut t :=
  (runsOut_take h).map _

theorem runsOut_readByte (h : t.remaining < 1) : readByte.RunsOut t := (runsOut_readNat h).map _

theorem runsOut_readWord (h : t.remaining < 4) : readWord.RunsOut t := (runsOut_readNat h).map _

theorem runsOut_readText {count : ℕ} (h : t.remaining < count) : (readText count).RunsOut t := by
  obtain ⟨offset, needed, t', htake, hbounds⟩ := runsOut_take h
  refine ⟨offset, needed, t', ?_, hbounds⟩
  rw [readText, htake]

/-- A payload runs out of bytes behind its length word, if not in it. -/
theorem runsOut_prefixed {read : ℕ → Reading α} {payload : List UInt8}
    (hread : ∀ {count t}, t.remaining < count → (read count).RunsOut t)
    (hlimit : payload.length < lengthLimit) (h : t.EndsInside (Value.lengthPrefixed payload)) :
    Reading.RunsOut (readWord >>= fun length => read length.toNat) t := by
  rcases h.split with hword | ⟨t', hpasses, hpayload⟩
  · have hlt := hword.remaining_lt
    rw [LittleEndian.length_toBytes] at hlt
    exact (runsOut_readWord hlt).bind _
  · have hlength : (UInt32.ofNat payload.length).toNat = payload.length := by
      rw [UInt32.toNat_ofNat']
      exact Nat.mod_eq_of_lt hlimit
    have hword : readWord t = .ok (UInt32.ofNat payload.length) t' := by
      rw [readWord_eq_ok_iff, hlength]
      exact hpasses
    apply Reading.RunsOut.bind_of_eq_ok hword hpasses.size_eq
    apply hread
    rw [hlength]
    exact hpayload.remaining_lt

end Tape

open Tape in
/-- A value runs out of bytes where the tape ends inside its wire form. -/
theorem Kind.runsOut_decode {v : Value} (hv : v.Fits) {t : Tape} (h : t.EndsInside v.wire) :
    v.kind.decode.RunsOut t := by
  cases v with
  | i32 v =>
    have hlt : t.remaining < 4 := by simpa [Value.wire] using h.remaining_lt
    exact ((runsOut_readWord hlt).map _).map _
  | u32 v =>
    have hlt : t.remaining < 4 := by simpa [Value.wire] using h.remaining_lt
    exact (runsOut_readWord hlt).map _
  | f64 v =>
    have hlt : t.remaining < 8 := by simpa [Value.wire] using h.remaining_lt
    exact ((runsOut_readNat hlt).map _).map _
  | u8 v =>
    exact (runsOut_readByte h.remaining_lt).map _
  | bytes v =>
    have hdecode : bytes.decode = .bytes <$> (readWord >>= fun length => take length.toNat) :=
      (map_bind ..).symm
    rw [Value.kind, hdecode]
    exact (runsOut_prefixed runsOut_take hv h).map _
  | string v =>
    have hdecode : string.decode = .string <$> (readWord >>= fun length => readText length.toNat) :=
      (map_bind ..).symm
    rw [Value.kind, hdecode]
    exact (runsOut_prefixed runsOut_readText hv h).map _

/-! ### Instructions that are cut -/

/-- Reading a cartridge fails because it asks for bytes up to an offset that lies behind the end of
the tape. -/
def Parsing.RunsOut {α : Type} (parse : Parsing α) (t : Tape) : Prop :=
  ∃ offset needed, parse t = .error (.fault (.truncated offset needed)) ∧
    offset ≤ t.size ∧ t.size < offset + needed

theorem Parsing.RunsOut.bind {α β : Type} {parse : Parsing α} {t : Tape} (h : parse.RunsOut t)
    (next : α → Parsing β) : Parsing.RunsOut (parse >>= next) t := by
  obtain ⟨offset, needed, hparse, hbounds⟩ := h
  exact ⟨offset, needed, Parsing.bind_eq_error_iff.mpr (Or.inl hparse), hbounds⟩

theorem Parsing.RunsOut.bind_of_eq_ok {α β : Type} {parse : Parsing α} {next : α → Parsing β}
    {a : α} {t t' : Tape} (hparse : parse t = .ok (a, t')) (hsize : t'.size = t.size)
    (h : Parsing.RunsOut (next a) t') : Parsing.RunsOut (parse >>= next) t := by
  obtain ⟨offset, needed, hnext, hbounds⟩ := h
  rw [hsize] at hbounds
  exact ⟨offset, needed, Parsing.bind_eq_error_iff.mpr (Or.inr ⟨a, t', hparse, hnext⟩), hbounds⟩

theorem Field.runsOut_read {field : Field} {v : Value} (hv : field.Admits v) {t : Tape}
    (h : t.EndsInside v.wire) : Parsing.RunsOut field.read t := by
  obtain ⟨hkind, hfits⟩ := hv
  obtain ⟨offset, needed, t', hread, hbounds⟩ := Kind.runsOut_decode hfits h
  refine ⟨offset, needed, ?_, hbounds⟩
  rw [Field.read, ← hkind, Tape.Reading.reporting, hread]

/-- A row of arguments runs out of bytes where the tape ends inside the row of their wire forms. -/
theorem runsOut_mapM_read {fields : List Field} {values : List Value}
    (hvalues : List.Forall₂ Field.Admits fields values) {t : Tape}
    (h : t.EndsInside (values.flatMap Value.wire)) :
    Parsing.RunsOut (fields.mapM Field.read) t := by
  induction hvalues generalizing t with
  | nil => exact absurd h.remaining_lt (Nat.not_lt_zero _)
  | @cons field v fields values hv _ ih =>
    rw [List.mapM_cons]
    rw [List.flatMap_cons] at h
    rcases h.split with hhead | ⟨t', hpasses, htail⟩
    · exact (Field.runsOut_read hv hhead).bind _
    · apply Parsing.RunsOut.bind_of_eq_ok (Field.read_eq_ok_iff.mpr ⟨hv, hpasses⟩) hpasses.size_eq
      exact (ih htail).bind _

/-- An instruction runs out of bytes where the tape ends inside its wire form, be it before the
opcode, between two arguments or inside one. -/
theorem Format.runsOut_readInstruction {f : Format} {e : Emission} (he : f.Admits e) {t : Tape}
    (h : t.EndsInside e.wire) : Parsing.RunsOut f.readInstruction t := by
  obtain ⟨hopcode, htakes⟩ := he
  rw [Emission.wire, Instruction.wire, ← List.singleton_append] at h
  rcases h.split with hbyte | ⟨t', hpasses, hargs⟩
  · obtain ⟨offset, needed, t', hread, hbounds⟩ := Tape.runsOut_readByte hbyte.remaining_lt
    refine ⟨offset, needed, ?_, hbounds⟩
    rw [readInstruction, hread]
  · obtain ⟨offset, needed, hread, hbounds⟩ := runsOut_mapM_read htakes hargs
    rw [hpasses.size_eq] at hbounds
    refine ⟨offset, needed, ?_, hbounds⟩
    rw [readInstruction, Tape.readByte_eq_ok_iff.mpr hpasses]
    simp only [hopcode, hread]

/-! ### Bodies that are cut -/

/-- The offset behind an instruction. -/
def Decoded.stop (d : Decoded) : Nat := d.offset + (d.instruction.wire d.args).length

theorem place_append (offset : ℕ) (es es' : List Emission) :
    place offset (es ++ es') =
      place offset es ++ place (offset + (es.flatMap Emission.wire).length) es' := by
  induction es generalizing offset with
  | nil => rfl
  | cons e es ih =>
    rw [List.cons_append, place, ih, place, List.flatMap_cons, List.length_append, Nat.add_assoc]
    rfl

theorem length_place (offset : ℕ) (es : List Emission) : (place offset es).length = es.length := by
  rw [← List.length_map, map_place]

theorem Emission.length_wire_pos (e : Emission) : 0 < e.wire.length := Nat.succ_pos _

/-- Instructions one after another lie between the offset of the first and the end of the last. -/
theorem bounds_of_mem_place {offset : ℕ} {es : List Emission} {d : Decoded}
    (hd : d ∈ place offset es) :
    offset ≤ d.offset ∧ d.offset < d.stop ∧
      d.stop ≤ offset + (es.flatMap Emission.wire).length := by
  induction es generalizing offset with
  | nil => cases hd
  | cons e es ih =>
    have hpos : 0 < (e.instruction.wire e.args).length := e.length_wire_pos
    rw [List.flatMap_cons, List.length_append, Emission.wire]
    rcases List.mem_cons.mp hd with rfl | hd
    · simp only [Decoded.stop]
      omega
    · have hbounds := ih hd
      rw [Emission.wire] at hbounds
      omega

/-- Of instructions one after another, those up to an offset are the ones before the first that goes
on behind it. -/
theorem filter_place {offset length : ℕ} {whole rest : List Emission}
    (hwhole : offset + (whole.flatMap Emission.wire).length ≤ length)
    (hrest : ∀ d ∈ place (offset + (whole.flatMap Emission.wire).length) rest, length < d.stop) :
    (place offset (whole ++ rest)).filter (fun d => d.stop ≤ length) = place offset whole := by
  have hkept : (place offset whole).filter (fun d => d.stop ≤ length) = place offset whole := by
    rw [List.filter_eq_self]
    intro d hd
    have hstop := (bounds_of_mem_place hd).2.2
    exact decide_eq_true (by omega)
  have hleft : (place (offset + (whole.flatMap Emission.wire).length) rest).filter
      (fun d => d.stop ≤ length) = [] := by
    rw [List.filter_eq_nil_iff]
    intro d hd
    have hstop := hrest d hd
    simpa using hstop
  rw [place_append, List.filter_append, hkept, hleft, List.append_nil]

/-- A beginning of the wire forms of instructions ends behind one of them or inside the next. -/
theorem exists_whole {es : List Emission} {t : Tape} (h : t.after <+: es.flatMap Emission.wire) :
    ∃ whole rest t', es = whole ++ rest ∧ t.Passes (whole.flatMap Emission.wire) t' ∧
      (t'.remaining = 0 ∨ ∃ e es', rest = e :: es' ∧ 0 < t'.remaining ∧ t'.EndsInside e.wire) := by
  induction es generalizing t with
  | nil =>
    have hnil : t.after = [] := List.prefix_nil.mp h
    exact ⟨[], [], t, rfl, Tape.Passes.refl t, Or.inl (by rw [Tape.remaining, hnil]; rfl)⟩
  | cons e es ih =>
    rw [List.flatMap_cons] at h
    rcases Tape.passes_or_endsInside h with ⟨t₁, hpasses, hprefix⟩ | hends
    · obtain ⟨whole, rest, t', rfl, hpasses', hrest⟩ := ih hprefix
      exact ⟨e :: whole, rest, t', rfl, hpasses.trans hpasses', hrest⟩
    · refine ⟨[], e :: es, t, rfl, Tape.Passes.refl t, ?_⟩
      rcases Nat.eq_zero_or_pos t.remaining with hzero | hpos
      · exact Or.inl hzero
      · exact Or.inr ⟨e, es, rfl, hpos, hends⟩

/-- Instructions one after another end with the last of them. -/
theorem exists_stop_eq (offset : ℕ) {es : List Emission} (h : es ≠ []) :
    ∃ d ∈ place offset es, d.stop = offset + (es.flatMap Emission.wire).length := by
  induction es generalizing offset with
  | nil => exact absurd rfl h
  | cons e es ih =>
    rw [List.flatMap_cons, List.length_append, ← Nat.add_assoc]
    cases es with
    | nil => exact ⟨_, List.mem_cons_self, rfl⟩
    | cons e' es =>
      obtain ⟨d, hd, hstop⟩ := ih (offset + e.wire.length) (List.cons_ne_nil e' es)
      exact ⟨d, List.mem_cons_of_mem _ hd, hstop⟩

/-- An instruction in which the tape ends, and those behind it, go on behind the end. -/
theorem size_lt_stop {e : Emission} {es : List Emission} {t : Tape} (h : t.EndsInside e.wire)
    {d : Decoded} (hd : d ∈ place t.pos (e :: es)) : t.size < d.stop := by
  have hlt := h.remaining_lt
  have hend : t.pos + e.wire.length ≤ d.stop := by
    rcases List.mem_cons.mp hd with rfl | hd
    · exact Nat.le_refl _
    · have hbounds := bounds_of_mem_place hd
      omega
  rw [Tape.size]
  omega

namespace Reader

variable {η ι : Type} {r r' : Reader η ι} {header : Header} {t : Tape}

/-- What reading on from a tape on which the wire forms of instructions break off comes to, once
the instructions that are whole have been read. -/
structure BreaksOff (written : List Decoded) (start length : Nat) (r : Reader η ι) : Prop where
  /-- Nothing is left exactly if the tape ends between two instructions. -/
  isFinished_iff : r.isFinished ↔ length = start ∨ ∃ d ∈ written, d.stop = length
  /-- Otherwise the head is before the instruction that is cut, and reading it runs out of bytes. -/
  next_eq_error : ¬ r.isFinished → ∃ d ∈ written, d.offset < length ∧ length < d.stop ∧
    r.pos? = some d.offset ∧ ∃ offset needed,
      r.next = .error (.fault (.truncated offset needed)) ∧
        offset ≤ length ∧ length < offset + needed

theorem isFinished_of_remaining_eq_zero (hr : r.source = .opened header t) (h : t.remaining = 0) :
    r.isFinished := by
  rw [isFinished, hr, Source.isFinished, h]
  rfl

theorem not_isFinished_of_remaining_pos (hr : r.source = .opened header t) (h : 0 < t.remaining) :
    ¬ r.isFinished := by
  rw [isFinished, hr, Source.isFinished, beq_iff_eq]
  omega

/-- Reading runs out of bytes where the tape ends inside an instruction. -/
theorem next_of_endsInside (hr : r.source = .opened header t) {e : Emission}
    (he : r.format.Admits e) (h : t.EndsInside e.wire) :
    ∃ offset needed, r.next = .error (.fault (.truncated offset needed)) ∧
      offset ≤ t.size ∧ t.size < offset + needed := by
  obtain ⟨offset, needed, hread, hbounds⟩ := Format.runsOut_readInstruction he h
  exact ⟨offset, needed, next_of_readInstruction_eq_error hr hread, hbounds⟩

theorem breaksOff_of_remaining_eq_zero (hr : r.source = .opened header t) (h : t.remaining = 0)
    {start : ℕ} {whole rest : List Emission}
    (hpos : t.pos = start + (whole.flatMap Emission.wire).length) :
    r.BreaksOff (place start (whole ++ rest)) start t.size := by
  have hsize : t.size = start + (whole.flatMap Emission.wire).length := by
    rw [Tape.size, h, Nat.add_zero, hpos]
  have hfinished := isFinished_of_remaining_eq_zero hr h
  refine ⟨iff_of_true hfinished ?_, fun hnot => absurd hfinished hnot⟩
  rcases eq_or_ne whole [] with rfl | hwhole
  · exact Or.inl hsize
  · obtain ⟨d, hd, hstop⟩ := exists_stop_eq start hwhole
    refine Or.inr ⟨d, ?_, hstop.trans hsize.symm⟩
    rw [place_append]
    exact List.mem_append_left _ hd

theorem breaksOff_of_endsInside (hr : r.source = .opened header t) (h : 0 < t.remaining)
    {e : Emission} (he : r.format.Admits e) (hends : t.EndsInside e.wire) {start : ℕ}
    {whole rest : List Emission} (hpos : t.pos = start + (whole.flatMap Emission.wire).length) :
    r.BreaksOff (place start (whole ++ e :: rest)) start t.size := by
  have hsize : t.size = t.pos + t.remaining := rfl
  have hwritten :
      place start (whole ++ e :: rest) = place start whole ++ place t.pos (e :: rest) := by
    rw [place_append, hpos]
  rw [hwritten]
  constructor
  · refine iff_of_false (not_isFinished_of_remaining_pos hr h) ?_
    rintro (hstart | ⟨d, hd, hstop⟩)
    · omega
    · rcases List.mem_append.mp hd with hd | hd
      · have hle := (bounds_of_mem_place hd).2.2
        omega
      · have hlt := size_lt_stop hends hd
        omega
  · intro _
    have hmem : ⟨t.pos, e.instruction, e.args⟩ ∈ place t.pos (e :: rest) := List.mem_cons_self
    refine ⟨_, List.mem_append_right _ hmem, ?_, size_lt_stop hends hmem, ?_,
      next_of_endsInside hr he hends⟩
    · show t.pos < t.size
      omega
    · rw [pos?, hr]
      rfl

/-- A tape on which the wire forms of instructions break off reads as the instructions that are
whole. -/
theorem nextMany_of_prefix (hr : r.source = .opened header t) {es : List Emission}
    (hes : ∀ e ∈ es, r.format.Admits e) (h : t.after <+: es.flatMap Emission.wire) :
    let written := place t.pos es
    let whole := written.filter fun d => d.stop ≤ t.size
    ∃ r₁, r.nextMany whole.length = .ok (whole, r₁) ∧ r₁.BreaksOff written t.pos t.size := by
  intro written whole
  obtain ⟨front, rest, t', rfl, hpasses, hrest⟩ := exists_whole h
  obtain ⟨hfront, hback⟩ := List.forall_mem_append.mp hes
  have hsize := hpasses.size_eq
  have hpos := hpasses.pos_eq
  -- `rest` begins where the tape ends, or with the instruction in which it ends
  have hbehind : ∀ d ∈ place t'.pos rest, t.size < d.stop := by
    intro d hd
    rw [← hsize]
    rcases hrest with hzero | ⟨e, es, rfl, -, hends⟩
    · have hbounds := bounds_of_mem_place hd
      rw [Tape.size]
      omega
    · exact size_lt_stop hends hd
  have hwhole : whole = place t.pos front := by
    apply filter_place
    · rw [← hsize, ← hpos, Tape.size]
      omega
    · rw [← hpos]
      exact hbehind
  have hmany : r.nextMany front.length =
      .ok (place t.pos front, { r with source := .opened header t' }) :=
    (nextMany_eq_ok_iff hr).mpr ⟨front, t', rfl, hfront, hpasses, rfl, rfl⟩
  rw [hwhole, length_place, ← hsize]
  refine ⟨_, hmany, ?_⟩
  rcases hrest with hzero | ⟨e, es, rfl, hremaining, hends⟩
  · exact breaksOff_of_remaining_eq_zero rfl hzero hpos
  · have he := hback e List.mem_cons_self
    exact breaksOff_of_endsInside (r := { r with source := .opened header t' }) rfl hremaining he
      hends hpos

end Reader

/-! ### Headers that are cut -/

/-- The name of a constant and the number of its bytes. -/
def Constant.part (c : Constant) : String × Nat := (c.name, c.value.wire.length)

/-- The name of a slot and the number of its bytes. -/
def Slot.part (s : Slot) : String × Nat := (s.name, s.width)

theorem sum_map_part (cs : List Constant) :
    ((cs.map Constant.part).map Prod.snd).sum = (cs.flatMap (·.value.wire)).length := by
  rw [List.map_map, List.length_flatMap]
  rfl

theorem slotsWidth_eq_sum (slots : List Slot) :
    slotsWidth slots = ((slots.map Slot.part).map Prod.snd).sum := by
  rw [List.map_map, slotsWidth]
  rfl

namespace Format

variable {f : Format}

/-- The parts of a header in wire order, each with its name and the number of its bytes. -/
def headerParts (f : Format) : List (String × Nat) :=
  f.header.map Constant.part ++ f.slots.map Slot.part

/-- The offset lies in a part of the header that has the name. -/
def PartAt (f : Format) (offset : Nat) (name : String) : Prop :=
  ∃ before width after, f.headerParts = before ++ (name, width) :: after ∧
    (before.map Prod.snd).sum ≤ offset ∧ offset < (before.map Prod.snd).sum + width

/-- In a beginning of a byte string that opens with the constants, the first fault is the part of
the header in which it ends. -/
theorem partAt_of_firstFault {bs : List UInt8} {length : ℕ} {name : String}
    (hopen : Constant.Open f.header bs) (hlength : length ≤ bs.length)
    (h : f.FirstFault (bs.take length) name) : f.PartAt length name := by
  have htake : (bs.take length).length = length := List.length_take_of_le hlength
  cases h with
  | @constant before after c hheader hbefore hfirst =>
    obtain ⟨hfits, hprefix⟩ := Constant.open_iff.mp hopen
    refine ⟨before.map Constant.part, c.value.wire.length,
      after.map Constant.part ++ f.slots.map Slot.part, ?_, ?_, ?_⟩
    · rw [headerParts, hheader, List.map_append, List.map_cons, List.append_assoc, List.cons_append]
      rfl
    · rw [sum_map_part, ← htake]
      exact (Constant.open_iff.mp hbefore).2.length_le
    · -- otherwise all of `c` would be there, too
      by_contra hle
      apply hfirst
      rw [hheader, List.append_cons] at hfits hprefix
      rw [List.flatMap_append] at hprefix
      rw [sum_map_part] at hle
      refine Constant.open_iff.mpr ⟨(List.forall_mem_append.mp hfits).1, ?_⟩
      rw [List.prefix_take_iff]
      refine ⟨(List.prefix_append _ _).trans hprefix, ?_⟩
      rw [List.flatMap_append, List.length_append, List.flatMap_singleton]
      omega
  | @slot before after s hslots hconstants hbefore hlt =>
    have hsum : ((f.header.map Constant.part ++ before.map Slot.part).map Prod.snd).sum =
        f.headerBytes.length + slotsWidth before := by
      rw [List.map_append, List.sum_append, sum_map_part, ← slotsWidth_eq_sum, headerBytes]
    have hwidth : slotsWidth (before ++ [s]) = slotsWidth before + s.width := by
      simp [slotsWidth]
    refine ⟨f.header.map Constant.part ++ before.map Slot.part, s.width, after.map Slot.part,
      ?_, ?_, ?_⟩
    · rw [headerParts, hslots, List.map_append, List.map_cons, List.append_assoc]
      rfl
    · rw [hsum, ← htake]
      exact hbefore
    · rw [hsum]
      rw [htake, hwidth] at hlt
      omega

end Format

/-! ### Sessions that are cut -/

namespace Format

variable {f : Format} {cut : Tape} {bs : List UInt8} {length : ℕ}

/-- A cut before the instructions makes reading the header fail at the part that it falls into. -/
theorem partAt_of_lt_bodyOffset (hopen : Constant.Open f.header bs) (hlength : length ≤ bs.length)
    (hcut : cut.after = bs.take length) (hlt : length < f.bodyOffset) :
    ∃ name, f.readHeader cut = .error (.corruptHeader name) ∧ f.PartAt length name := by
  have hremaining : cut.remaining = length := by
    rw [Tape.remaining, hcut, List.length_take_of_le hlength]
  cases hread : f.readHeader cut with
  | ok result =>
    have hle := (exists_readHeader_iff.mp ⟨result, hread⟩).2
    rw [bodyOffset_eq] at hlt
    omega
  | error e =>
    obtain ⟨name, rfl, hfault⟩ := firstFault_of_readHeader hread
    rw [hcut] at hfault
    exact ⟨name, rfl, partAt_of_firstFault hopen hlength hfault⟩

/-- After a cut behind the header, the header is there, and a beginning of what followed it. -/
theorem readHeader_of_bodyOffset_le (hopen : Constant.Open f.header bs)
    (hlength : length ≤ bs.length) (hcut : cut.after = bs.take length)
    (hle : f.bodyOffset ≤ length) :
    ∃ header t', f.readHeader cut = .ok (header, t') ∧ t'.pos = cut.pos + f.bodyOffset ∧
      t'.size = cut.size ∧ t'.after <+: bs.drop f.bodyOffset := by
  have hremaining : cut.remaining = length := by
    rw [Tape.remaining, hcut, List.length_take_of_le hlength]
  have hopen' : Constant.Open f.header cut.after := by
    obtain ⟨hfits, hprefix⟩ := Constant.open_iff.mp hopen
    rw [Constant.open_iff, hcut, List.prefix_take_iff]
    refine ⟨hfits, hprefix, ?_⟩
    rw [bodyOffset_eq] at hle
    show f.headerBytes.length ≤ length
    omega
  rw [bodyOffset_eq, ← hremaining] at hle
  obtain ⟨⟨header, t'⟩, hread⟩ := exists_readHeader_iff.mpr ⟨hopen', hle⟩
  have hpos := pos_of_readHeader hread
  rw [← bodyOffset_eq] at hpos
  obtain ⟨-, -, -, -, hpasses⟩ := readHeader_eq_ok_iff_passes.mp hread
  refine ⟨header, t', hread, hpos, hpasses.size_eq, ?_⟩
  have hbody := hpasses.pos_eq
  have hafter : t'.after = cut.after.drop f.bodyOffset := by
    rw [hpasses.after_eq, List.drop_left' (by omega)]
  rw [hafter, hcut, List.drop_take]
  exact List.take_prefix _ _

end Format

/-- **Cutting a session short.** A tape that was empty and holds a finished session is cut at some
length. If this is before the instructions, binding what is left names the part of the header that
the cut falls into. Otherwise binding succeeds, and the instructions that are wholly there come out
as they were appended. Then the reader is finished if the cut is before the first instruction or
behind one of them; and if it is inside one, the head stays before this one, and reading it runs out
of bytes. -/
theorem cut_session {η ι : Type} {s : Schema} {f : Format} (hload : s.load = .ok f)
    {w w₀ w₂ : Writer} (hw : w.format = f) {previous : Option Tape}
    (hbind : w.bind Tape.blank = .ok (previous, w₀)) {calls : List Call} {tape : Tape}
    (hfinish : (w₀.session calls).2.finish = .ok (tape, w₂)) {length : ℕ}
    (hlength : length ≤ tape.size) {cut : Tape} (hpos : cut.pos = 0)
    (hcut : cut.bytes = tape.bytes.take length) {r : Reader η ι} (hr : r.format = f) :
    let written := place f.bodyOffset (emissions f (w₀.session calls).1)
    let whole := written.filter fun d => d.stop ≤ length
    w₀.pos? = some f.bodyOffset ∧
      (length < f.bodyOffset → ∃ name, (r.bind cut).1 = .error (.corruptHeader name) ∧
        f.PartAt length name) ∧
      (f.bodyOffset ≤ length → ∃ event r₀ r₁, r.bind cut = (.ok event, r₀) ∧
        r₀.nextMany whole.length = .ok (whole, r₁) ∧
        r₁.BreaksOff written f.bodyOffset length) := by
  intro written whole
  obtain rfl := hr
  have hf := Schema.wellFormed_of_load hload
  have h : (w₀.session calls).2.Holds r.format Tape.blank (w₀.session calls).1 := by
    rw [← hw] at hf ⊢
    exact Writer.holds_of_session hf hbind calls
  have hbytes := h.bytes_of_finish hfinish
  have hfits : ∀ c ∈ r.format.header, c.value.Fits := by
    rw [← hw]
    exact (Writer.bind_eq_ok_iff.mp hbind).2.1
  have hopen : Constant.Open r.format.header tape.bytes := by
    rw [Constant.open_iff, hbytes, Format.preamble, List.append_assoc, List.append_assoc]
    exact ⟨hfits, List.prefix_append _ _⟩
  have hsize : tape.size = tape.bytes.length := by
    rw [Tape.bytes, List.length_append]
    rfl
  rw [hsize] at hlength
  have hafter : cut.after = tape.bytes.take length := by
    rw [← hcut, Tape.bytes, List.eq_nil_of_length_eq_zero hpos, List.nil_append]
  refine ⟨?_, ?_, ?_⟩
  · have hbegin := (Writer.holds_of_bind hbind).pos?_eq
    rw [hw] at hbegin
    simpa [Tape.blank, Tape.pos, body, emissions] using hbegin
  · intro hlt
    obtain ⟨name, hread, hpart⟩ := Format.partAt_of_lt_bodyOffset hopen hlength hafter hlt
    exact ⟨name, by rw [Reader.bind_of_readHeader_eq_error hread], hpart⟩
  · intro hle
    obtain ⟨header, t, hread, hstart, hend, hprefix⟩ :=
      Format.readHeader_of_bodyOffset_le hopen hlength hafter hle
    -- behind the header lies a beginning of the body
    rw [hbytes, List.drop_left' (Format.length_preamble _ _ _)] at hprefix
    have hend' : t.size = length := by
      rw [hend, Tape.size, hpos, Nat.zero_add, Tape.remaining, hafter,
        List.length_take_of_le hlength]
    rw [hpos, Nat.zero_add] at hstart
    have hadmits : ∀ e ∈ emissions r.format (w₀.session calls).1, r.format.Admits e :=
      fun e he => admits_of_mem_emissions hf he
    obtain ⟨r₁, hmany, hbreaks⟩ := Reader.nextMany_of_prefix
      (r := { r with source := .opened header t }) rfl hadmits hprefix
    rw [hstart, hend'] at hmany hbreaks
    exact ⟨_, _, r₁, Reader.bind_of_readHeader_eq_ok hread, hmany, hbreaks⟩

/-- The first bytes of a cartridge of `sampleFormat`, up to the middle of its second instruction. -/
def sampleCut : Tape := .fixed ([2, 0, 0, 0, 76, 87, 1, 10] ++ [0, 5, 0, 0, 0] ++ [0, 7])

/-- A session with two instructions, cut inside the second. -/
theorem cut_session_of_sample :
    ∃ w₀ tape w₂ r₀ r₁, (Writer.new sampleFormat).bind Tape.blank = .ok (none, w₀) ∧
      (w₀.session sampleCalls).2.finish = .ok (tape, w₂) ∧
      sampleCut.bytes = tape.bytes.take 15 ∧
      (∃ event, (Reader.new sampleFormat : Reader Unit Unit).bind sampleCut = (.ok event, r₀)) ∧
      r₀.nextMany 1 = .ok ([⟨8, samplePush, [.i32 5]⟩], r₁) ∧ r₁.pos? = some 13 ∧
      ∃ offset needed, r₁.next = .error (.fault (.truncated offset needed)) := by
  have hload : sampleSchema.load = .ok sampleFormat := by decide +kernel
  have hbind := Writer.bind_eq_ok_iff.mpr
    ⟨show Tape.blank.growable = true from rfl,
      show ∀ c ∈ (Writer.new sampleFormat).format.header, c.value.Fits by decide, rfl, rfl⟩
  have hholds := Writer.holds_of_session (Schema.wellFormed_of_load hload) hbind sampleCalls
  have hfinish := hholds.finish_eq_ok_iff.mpr ⟨by decide, rfl, rfl⟩
  obtain ⟨-, -, hcut⟩ := cut_session hload rfl hbind hfinish (by decide)
    (show sampleCut.pos = 0 from rfl) (show _ = List.take 15 _ by decide)
    (show (Reader.new sampleFormat : Reader Unit Unit).format = _ from rfl)
  obtain ⟨event, r₀, r₁, hread, hmany, hbreaks⟩ := hcut (by decide)
  have hcut : ¬ r₁.isFinished := by
    rw [hbreaks.isFinished_iff]
    decide
  obtain ⟨d, hd, -, hstop, hpos, offset, needed, hnext, -⟩ := hbreaks.next_eq_error hcut
  have hoffset : d.offset = 13 := by
    clear hpos
    revert d
    decide
  rw [hoffset] at hpos
  exact ⟨_, _, _, r₀, r₁, hbind, hfinish, by decide, ⟨event, hread⟩, hmany, hpos, offset, needed,
    hnext⟩

end Bytecode
