import Bytecode.Clerk
import Bytecode.Proofs.Canonical
import Bytecode.Proofs.Orders
import Bytecode.Proofs.Truncation

/-!
# Listings are what is decoded

A clerk writes the lines of a listing piece by piece, from within the handlers of a lector that it
uses again and again. `listing_is_decoding` says that nothing is left of earlier listings, and that
the text is the lines of what the lector would decode.

Both are had by way of `Format.transcript`, which reads a tape in one go and remembers nothing. To
drain a tape is to read all of it (`Lector.Represents.drain`), and to collect its instructions is
the same (`Lector.Represents.collect`). A reader that has a handler for every instruction calls one
for every instruction read (`Reader.Labels.filterMap_dispatch`); it has them all before a listing and
after it, whatever comes of it (`Clerk.Writes.transcribe_eq` for a clerk, `Lister.list_eq` for a
lister).
-/

namespace Bytecode

variable {σ : Type}

/-! ### Reading to the end -/

namespace Format

variable {f : Format} {t t' : Tape} {d : Decoded} {e : ReadError}

theorem readAll_of_remaining_eq_zero (f : Format) (h : t.remaining = 0) :
    f.readAll t = ⟨[], t, none⟩ := by
  rw [readAll, if_pos h]

theorem readAll_of_error (h : t.remaining ≠ 0) (hread : f.readInstruction t = .error e) :
    f.readAll t = ⟨[], t, some e⟩ := by
  rw [readAll, if_neg h]
  split
  · rename_i hread'
    cases hread.symm.trans hread'
    rfl
  · rename_i hread'
    cases hread.symm.trans hread'

theorem readAll_of_ok (h : t.remaining ≠ 0) (hread : f.readInstruction t = .ok (d, t')) :
    f.readAll t = { f.readAll t' with instructions := d :: (f.readAll t').instructions } := by
  rw [readAll, if_neg h]
  split
  · rename_i hread'
    cases hread.symm.trans hread'
  · rename_i hread'
    cases hread.symm.trans hread'
    rfl

/-- Whatever is read has been read somewhere on the way. -/
theorem exists_readInstruction_of_mem_readAll (hd : d ∈ (f.readAll t).instructions) :
    ∃ t₁ t₂, f.readInstruction t₁ = .ok (d, t₂) := by
  induction t using readAll.induct f with
  | case1 t hremaining =>
    rw [readAll_of_remaining_eq_zero f hremaining] at hd
    cases hd
  | case2 t hremaining e hread =>
    rw [readAll_of_error hremaining hread] at hd
    cases hd
  | case3 t hremaining d' t' hread _ ih =>
    rw [readAll_of_ok hremaining hread] at hd
    rcases List.mem_cons.mp hd with rfl | hd
    · exact ⟨t, t', hread⟩
    · exact ih hd

/-- What is read are instructions of the format. -/
theorem byOpcode?_of_mem_readAll (hd : d ∈ (f.readAll t).instructions) :
    f.byOpcode? d.instruction.opcode = some d.instruction := by
  obtain ⟨t₁, t₂, hread⟩ := exists_readInstruction_of_mem_readAll hd
  exact (readInstruction_eq_ok_iff.mp hread).2.1

/-- The listing of the cartridge at the head of a tape, by reading all of it: the line of its header
and the lines of its instructions. -/
def transcript (f : Format) (t : Tape) : Except ReadError String :=
  match f.readHeader t with
  | .error e => .error e
  | .ok (header, t') =>
    match (f.readAll t').failure with
    | some e => .error e
    | none =>
      .ok (Listing.headerLine f.title header ++ String.join ((f.readAll t').instructions.map
        fun d => Listing.instructionLine d.instruction d.args))

end Format

/-! ### Handlers for everything -/

namespace Reader

variable {η ι : Type} {f : Format} {header : η} {label : Instruction → ι} {r : Reader η ι}

/-- A reader has a handler for the header and one for every instruction. -/
structure Labels (f : Format) (header : η) (label : Instruction → ι) (r : Reader η ι) : Prop where
  format_eq : r.format = f
  headerHandler_eq : r.headerHandler = some header
  handler?_eq : ∀ opcode, r.handler? opcode = (f.byOpcode? opcode).map label

/-- Handlers are found as the instructions are for which they were installed. -/
theorem handler?_foldl_setHandler (label : Instruction → ι) {is : List Instruction}
    (hnodup : (is.map (·.opcode)).Nodup) (r : Reader η ι) (opcode : UInt8) :
    (is.foldl (fun r i => r.setHandler i.opcode (label i)) r).handler? opcode =
      ((is.find? (·.opcode == opcode)).map label).or (r.handler? opcode) := by
  induction is generalizing r with
  | nil => rfl
  | cons i is ih =>
    obtain ⟨hfresh, hnodup⟩ := List.nodup_cons.mp hnodup
    rw [List.foldl_cons, ih hnodup, handler?_setHandler, List.find?_cons]
    by_cases h : i.opcode = opcode
    · -- no later instruction has this opcode
      have hnone : is.find? (·.opcode == opcode) = none := by
        rw [List.find?_eq_none]
        intro j hj heq
        have hsame : j.opcode = i.opcode := (eq_of_beq heq).trans h.symm
        exact hfresh (List.mem_map.mpr ⟨j, hj, hsame⟩)
      simp [h, hnone]
    · rw [if_neg h, beq_false_of_ne h]

/-- Whoever has a handler for every instruction calls one for every instruction read. -/
theorem Labels.filterMap_dispatch (h : r.Labels f header label) (t : Tape) :
    (f.readAll t).instructions.filterMap r.dispatch =
      (f.readAll t).instructions.map fun d => .instruction (label d.instruction) d.args := by
  rw [← List.filterMap_eq_map]
  apply List.filterMap_congr
  intro d hd
  rw [dispatch, h.handler?_eq, Format.byOpcode?_of_mem_readAll hd]
  rfl

/-- A reader that is given the handlers one after another has them all. -/
theorem labels_foldl_setHandler (hf : f.WellFormed) (header : η) (label : Instruction → ι) :
    Labels f header label (f.instructions.foldl (fun r i => r.setHandler i.opcode (label i))
      ((new f).setHeaderHandler header)) := by
  have hconfigure (is : List Instruction) (r : Reader η ι) :
      (is.foldl (fun r i => r.setHandler i.opcode (label i)) r).format = r.format ∧
        (is.foldl (fun r i => r.setHandler i.opcode (label i)) r).headerHandler =
          r.headerHandler := by
    induction is generalizing r with
    | nil => exact ⟨rfl, rfl⟩
    | cons i is ih => exact ih (r.setHandler i.opcode (label i))
  refine ⟨(hconfigure _ _).1, (hconfigure _ _).2, fun opcode => ?_⟩
  rw [handler?_foldl_setHandler label hf.nodup_opcodes]
  exact Option.or_none

/-- The run of a reader with a handler for everything. -/
theorem Labels.run_eq (h : r.Labels f header label) {opening : Header} {t : Tape}
    (hsource : r.source = .opened opening t) :
    r.run.events = (f.readAll t).instructions.map
        (fun d => .instruction (label d.instruction) d.args) ∧
      r.run.failure = (f.readAll t).failure := by
  rw [← h.filterMap_dispatch, run, hsource, h.format_eq]
  exact ⟨rfl, rfl⟩

/-- The handlers are there whatever is bound. -/
theorem Labels.withSource (h : r.Labels f header label) (source : Source) :
    Labels f header label { r with source := source } := { h with }

end Reader

/-! ### Draining and collecting -/

namespace Lector

variable {f : Format} {s : Lector σ} {r : Reader (HeaderHandler σ) (Handler σ)} {header : Header}
  {t : Tape}

theorem Represents.isFinished_eq (h : s.Represents r) (hsource : r.source = .opened header t) :
    s.isFinished = (t.remaining == 0) := by
  have hheader : s.header = some header := by rw [h.header_eq, hsource]; rfl
  have ht : s.target = some t := by rw [h.target_eq, hsource]; rfl
  rw [isFinished, hheader, ht]

/-- To drain a tape is to read all of it and to call the handlers that are due. -/
theorem Represents.drain (h : s.Represents r) (hformat : r.format = f)
    (hsource : r.source = .opened header t) :
    s.drain.failure = (f.readAll t).failure ∧
      s.drain.lector.Represents { r with source := .opened header (f.readAll t).rest } ∧
      s.drain.lector.world =
        performAll ((f.readAll t).instructions.filterMap r.dispatch) s.world := by
  have hfinished := h.isFinished_eq hsource
  induction t using Format.readAll.induct f generalizing s r with
  | case1 t hremaining =>
    rw [Format.readAll_of_remaining_eq_zero f hremaining,
      drain_of_isFinished (by simp [hfinished, hremaining])]
    exact ⟨rfl, hsource ▸ h, rfl⟩
  | case2 t hremaining e hread =>
    have hnext := Reader.next_of_readInstruction_eq_error hsource (hformat.symm ▸ hread)
    obtain ⟨args, hstep⟩ := h.step_of_error hnext
    rw [Format.readAll_of_error hremaining hread,
      drain_of_error (by simp [hfinished, hremaining]) hstep]
    exact ⟨rfl, hsource ▸ h.withArgs args, rfl⟩
  | case3 t hremaining d t' hread _ ih =>
    have hnext := Reader.next_of_readInstruction_eq_ok hsource (hformat.symm ▸ hread)
    obtain ⟨s', hstep, h', hworld⟩ := h.step_of_ok hnext
    obtain ⟨hfailure, hrepresents, hcalls⟩ := ih h' hformat rfl (h'.isFinished_eq rfl)
    rw [Format.readAll_of_ok hremaining hread,
      drain_of_ok (by simp [hfinished, hremaining]) hstep]
    refine ⟨hfailure, hrepresents, hcalls.trans ?_⟩
    -- the call for the first instruction comes before those for the rest
    rw [hworld, ← performAll_append]
    show performAll ((r.dispatch d).toList ++ List.filterMap r.dispatch _) _ =
      performAll (List.filterMap r.dispatch (d :: _)) _
    rw [List.filterMap_cons]
    cases r.dispatch d <;> rfl

/-- To collect the instructions on a tape is to read all of it. -/
theorem Represents.collect (h : s.Represents r) (hformat : r.format = f)
    (hsource : r.source = .opened header t) :
    s.collect = ⟨(f.readAll t).instructions, (f.readAll t).failure⟩ := by
  have hfinished := h.isFinished_eq hsource
  induction t using Format.readAll.induct f generalizing s r with
  | case1 t hremaining =>
    rw [Format.readAll_of_remaining_eq_zero f hremaining,
      collect_of_isFinished (by simp [hfinished, hremaining])]
  | case2 t hremaining e hread =>
    have hnext := Reader.next_of_readInstruction_eq_error hsource (hformat.symm ▸ hread)
    obtain ⟨args, hnext'⟩ := h.next_of_error hnext
    rw [Format.readAll_of_error hremaining hread,
      collect_of_error (by simp [hfinished, hremaining]) hnext']
  | case3 t hremaining d t' hread _ ih =>
    have hnext := Reader.next_of_readInstruction_eq_ok hsource (hformat.symm ▸ hread)
    obtain ⟨s', hnext', h', -⟩ := h.next_of_ok hnext
    rw [Format.readAll_of_ok hremaining hread,
      collect_of_ok (by simp [hfinished, hremaining]) hnext',
      ih h' hformat rfl (h'.isFinished_eq rfl)]

end Lector

/-! ### Writing -/

namespace Listing

/-- Pieces written one after another are the pieces joined. -/
theorem foldl_append_eq {α : Type} (piece : α → String) (items : List α) (text : String) :
    items.foldl (fun text item => text ++ piece item) text =
      text ++ String.join (items.map piece) := by
  induction items generalizing text with
  | nil => simp
  | cons item items ih => rw [List.foldl_cons, ih, List.map_cons, String.join_cons,
      String.append_assoc]

theorem writeHeader_eq (title : String) (header : Header) (text : String) :
    writeHeader title header text = text ++ headerLine title header := by
  have hpieces := foldl_append_eq
    (fun slot : String × ℕ => ", " ++ slot.1 ++ "=" ++ toString slot.2)
    (header.counters ++ header.chunks) (text ++ "[" ++ title)
  simp only [← String.append_assoc] at hpieces
  rw [writeHeader, headerLine]
  simp only [hpieces, ← String.append_assoc]

theorem writeInstruction_eq (i : Instruction) (args : List Value) (text : String) :
    writeInstruction i args text = text ++ instructionLine i args := by
  have hpieces := foldl_append_eq (fun arg : Value => "  " ++ arg.text) args (text ++ i.mnemonic)
  simp only [← String.append_assoc] at hpieces
  rw [writeInstruction, instructionLine, hpieces]
  simp only [← String.append_assoc]

/-- Handlers that write lines leave the lines. -/
theorem performAll_writeInstruction (ds : List Decoded) (text : String) :
    performAll (ds.map fun d => .instruction (writeInstruction d.instruction) d.args) text =
      text ++ String.join (ds.map fun d => instructionLine d.instruction d.args) := by
  rw [performAll, List.foldl_map, ← foldl_append_eq]
  congr 1
  funext text d
  exact writeInstruction_eq d.instruction d.args text

end Listing

/-! ### Listing in place -/

theorem Lector.Represents.installAll {s : Lector σ} {r : Reader (HeaderHandler σ) (Handler σ)}
    (h : s.Represents r) {is : List Instruction} (his : ∀ i ∈ is, i ∈ s.format.instructions)
    (handler : Instruction → Handler σ) :
    (is.foldl (fun s i => s.install i.opcode (handler i)) s).Represents
      (is.foldl (fun r i => r.setHandler i.opcode (handler i)) r) := by
  induction is generalizing s r with
  | nil => exact h
  | cons i is ih =>
    obtain ⟨hi, his⟩ := List.forall_mem_cons.mp his
    exact ih (h.install hi (handler i)) his

namespace Clerk

variable {f : Format} {c : Clerk} {s s' : Lector String} {t : Tape}
  {r : Reader (HeaderHandler String) (Handler String)}

/-- A lector stands for a reader with a handler that writes a line for everything. -/
structure Writes (f : Format) (s : Lector String) : Prop where
  exists_reader : ∃ r : Reader (HeaderHandler String) (Handler String), s.Represents r ∧
    r.Labels f (Listing.writeHeader f.title) Listing.writeInstruction

theorem writes_new (hf : f.WellFormed) : Writes f (new f).lector := by
  have hnew := Lector.represents_new hf ""
  have hopened : Lector.Represents
      { Lector.new f "" with headerHandler := some (Listing.writeHeader f.title) }
      ((Reader.new f).setHeaderHandler (Listing.writeHeader f.title)) :=
    { hnew with headerHandler_eq := rfl }
  exact ⟨_, hopened.installAll (fun _ hi => hi) Listing.writeInstruction,
    Reader.labels_foldl_setHandler hf _ _⟩

theorem observing_of_ok {work : Lector.Work String Unit} (h : work s = .ok () s') :
    observing work s = .ok (.ok ()) s' := by
  show EStateM.tryCatch _ _ s = _
  rw [EStateM.tryCatch, bind_of_ok h]
  rfl

theorem observing_of_error {work : Lector.Work String Unit} {e : ReadError}
    (h : work s = .error e s') : observing work s = .ok (.error e) s' := by
  show EStateM.tryCatch _ _ s = _
  rw [EStateM.tryCatch, bind_of_error h]
  rfl

theorem drain_of_bind (hbind : Lector.bind t s = .ok () s') :
    drain t s =
      match s'.drain.failure with
      | none => .ok () s'.drain.lector
      | some e => .error e s'.drain.lector :=
  bind_of_ok hbind _

/-- In the end the tape is given back and the text is taken away. -/
theorem transcribe_of_observing {result : Except ReadError Unit}
    (h : observing (drain t) { s with world := "" } = .ok result s') :
    transcribe t s = .ok (result.map fun _ => s'.world)
      { s' with header := none, target := none, world := "" } := by
  refine (bind_of_ok rfl _).trans ((bind_of_ok h _).trans ?_)
  rfl

/-- The text of a tape that is read to its end is its transcript. -/
theorem Writes.observing_drain (h : Writes f s) (t : Tape) :
    ∃ result s', observing (drain t) { s with world := "" } = .ok result s' ∧
      (result.map fun _ => s'.world) = f.transcript t ∧ Writes f s' := by
  obtain ⟨r, hs, hr⟩ := h.exists_reader
  have hcleared := hs.withWorld ""
  rw [Format.transcript]
  cases hread : f.readHeader t with
  | error e =>
    obtain ⟨s', hbind, hs', -⟩ := hcleared.exists_bind_eq_error (hr.format_eq.symm ▸ hread)
    exact ⟨_, s', observing_of_error (bind_of_error hbind _), rfl, _, hs', hr.withSource _⟩
  | ok opened =>
    obtain ⟨header, t'⟩ := opened
    obtain ⟨s₁, hbind, hs₁, htext⟩ := hcleared.exists_bind_eq_ok (hr.format_eq.symm ▸ hread)
    obtain ⟨hfailure, hs', hworld⟩ := hs₁.drain hr.format_eq rfl
    have hwrites : Writes f s₁.drain.lector := ⟨_, hs', hr.withSource _⟩
    have hdrain := drain_of_bind hbind
    rw [hfailure] at hdrain
    cases hend : (f.readAll t').failure with
    | some e =>
      rw [hend] at hdrain
      refine ⟨_, _, observing_of_error hdrain, ?_, hwrites⟩
      simp only [hend]
      rfl
    | none =>
      rw [hend] at hdrain
      refine ⟨_, _, observing_of_ok hdrain, ?_, hwrites⟩
      simp only [hend]
      -- the header handler has written a line, and every instruction adds its own
      rw [hworld, (hr.withSource _).filterMap_dispatch, Listing.performAll_writeInstruction, htext,
        hr.headerHandler_eq]
      show Except.ok (Listing.writeHeader f.title header "" ++ _) = _
      rw [Listing.writeHeader_eq, String.empty_append]

theorem Writes.transcribe_eq (h : Writes f s) (t : Tape) :
    ∃ s', transcribe t s = .ok (f.transcript t) s' ∧ Writes f s' := by
  obtain ⟨result, s₁, hdrain, hresult, hs₁⟩ := h.observing_drain t
  obtain ⟨r, hrepresents, hr⟩ := hs₁.exists_reader
  refine ⟨_, (transcribe_of_observing hdrain).trans (by rw [hresult]), ?_⟩
  -- the tape goes, the handlers stay
  exact ⟨{ r with source := .absent }, { hrepresents with target_eq := rfl, header_eq := rfl },
    hr.withSource _⟩

theorem list_eq (h : Writes f c.lector) (t : Tape) :
    (c.list t).1 = f.transcript t ∧ Writes f (c.list t).2.lector := by
  obtain ⟨s', htranscribe, hs'⟩ := h.transcribe_eq t
  rw [list, htranscribe]
  exact ⟨rfl, hs'⟩

theorem writes_listAll (h : Writes f c.lector) (tapes : List Tape) :
    Writes f (c.listAll tapes).lector := by
  induction tapes generalizing c with
  | nil => exact h
  | cons t tapes ih => exact ih (list_eq h t).2

end Clerk

/-! ### Listing with labels -/

namespace Lister

variable {f : Format} {l : Lister}

theorem labels_new (hf : f.WellFormed) : (new f).reader.Labels f f.title id :=
  Reader.labels_foldl_setHandler hf f.title id

theorem list_eq (h : l.reader.Labels f f.title id) (t : Tape) :
    (l.list t).1 = f.transcript t ∧ (l.list t).2.reader.Labels f f.title id := by
  rw [Format.transcript]
  cases hread : f.readHeader t with
  | error e =>
    rw [list, Reader.bind_of_readHeader_eq_error (h.format_eq.symm ▸ hread)]
    exact ⟨rfl, h.withSource _⟩
  | ok opened =>
    obtain ⟨header, t'⟩ := opened
    rw [list, Reader.bind_of_readHeader_eq_ok (h.format_eq.symm ▸ hread)]
    refine ⟨?_, h.withSource _⟩
    obtain ⟨hevents, hfailure⟩ := (h.withSource (.opened header t')).run_eq rfl
    simp only [hevents, hfailure]
    simp only [h.headerHandler_eq, Option.map_some, Option.toList_some, List.singleton_append,
      List.map_cons, List.map_map, String.join_cons]
    cases (f.readAll t').failure <;> rfl

/-- Makes listings one after another and drops them. -/
def listAll (l : Lister) (tapes : List Tape) : Lister := tapes.foldl (fun l t => (l.list t).2) l

theorem labels_listAll (h : l.reader.Labels f f.title id) (tapes : List Tape) :
    (l.listAll tapes).reader.Labels f f.title id := by
  induction tapes generalizing l with
  | nil => exact h
  | cons t tapes ih => exact ih (list_eq h t).2

end Lister

/-! ### Listing is decoding -/

/-- The numbers in a row of slots go by the names of the slots. -/
theorem Slot.map_fst_of_admits {slots : List Slot} {entries : List (String × ℕ)}
    (h : List.Forall₂ Slot.Admits slots entries) : entries.map (·.1) = slots.map (·.name) := by
  induction h with
  | nil => rfl
  | cons hadmits _ ih => rw [List.map_cons, List.map_cons, hadmits.1, ih]

namespace Lector

variable {f : Format} {s s' : Lector σ} {t : Tape} {r : Reader (HeaderHandler σ) (Handler σ)}

theorem Represents.transcript_of_error (h : s.Represents r) (hformat : r.format = f) {e : ReadError}
    (hbind : bind t s = .error e s') : f.transcript t = .error e := by
  rw [Format.transcript, ← hformat]
  cases hread : r.format.readHeader t with
  | error e' =>
    obtain ⟨s₁, hbind', -, -⟩ := h.exists_bind_eq_error hread
    cases hbind.symm.trans hbind'
    rfl
  | ok opened =>
    obtain ⟨s₁, hbind', -, -⟩ := h.exists_bind_eq_ok hread
    cases hbind.symm.trans hbind'

theorem Represents.transcript_of_ok (h : s.Represents r) (hformat : r.format = f)
    (hbind : bind t s = .ok () s') :
    ∃ header, s'.header = some header ∧
      header.counters.map (·.1) = f.counters.map (·.name) ∧
      header.chunks.map (·.1) = f.chunks.map (·.name) ∧
      f.transcript t = match s'.collect.failure with
        | some e => .error e
        | none => .ok (Listing.headerLine f.title header ++ String.join
            (s'.collect.instructions.map
              fun d => Listing.instructionLine d.instruction d.args)) := by
  rw [Format.transcript, ← hformat]
  cases hread : r.format.readHeader t with
  | error e' =>
    obtain ⟨s₁, hbind', -, -⟩ := h.exists_bind_eq_error hread
    cases hbind.symm.trans hbind'
  | ok opened =>
    obtain ⟨header, t'⟩ := opened
    obtain ⟨s₁, hbind', hs₁, -⟩ := h.exists_bind_eq_ok hread
    cases hbind.symm.trans hbind'
    obtain ⟨-, -, hcounters, hchunks, -⟩ := Format.readHeader_eq_ok_iff_passes.mp hread
    rw [hs₁.collect rfl rfl]
    exact ⟨header, hs₁.header_eq, Slot.map_fst_of_admits hcounters, Slot.map_fst_of_admits hchunks,
      rfl⟩

end Lector

/-- **A listing is what is decoded.** Whatever has been listed before, and whether that went well or
not, a clerk makes of a tape what a new clerk makes of it, and what a lister makes of it. This is
what any lector for the format would say of the tape: the error with which it fails to bind it, or
the first error in reading its instructions one by one, or else a line for the header, with the
counters and then the chunks in the order of declaration, and a line for each instruction in
order. -/
theorem listing_is_decoding {schema : Schema} {f : Format} (hload : schema.load = .ok f)
    (earlier : List Tape) (t : Tape) (world : σ) (orders : List (Order σ)) :
    let result := (((Clerk.new f).listAll earlier).list t).1
    result = ((Clerk.new f).list t).1 ∧
      result = (((Lister.new f).listAll earlier).list t).1 ∧
      (∀ e s', Lector.bind t (Lector.after f world orders) = .error e s' → result = .error e) ∧
      ∀ s', Lector.bind t (Lector.after f world orders) = .ok () s' →
        ∃ header, s'.header = some header ∧
          header.counters.map (·.1) = f.counters.map (·.name) ∧
          header.chunks.map (·.1) = f.chunks.map (·.name) ∧
          result = match s'.collect.failure with
            | some e => .error e
            | none => .ok (Listing.headerLine f.title header ++ String.join
                (s'.collect.instructions.map fun d =>
                  Listing.instructionLine d.instruction d.args)) := by
  intro result
  have hf := Schema.wellFormed_of_load hload
  have hclerk := Clerk.writes_new hf
  have hlister := Lister.labels_new hf
  -- whoever makes the listing, it is the transcript of the tape
  have hresult : result = f.transcript t :=
    (Clerk.list_eq (Clerk.writes_listAll hclerk earlier) t).1
  have hfresh := (Clerk.list_eq hclerk t).1
  have hlisted := (Lister.list_eq (Lister.labels_listAll hlister earlier) t).1
  have h := Lector.represents_after hf world orders
  have hformat := Reader.format_serveAll (Reader.new f) orders
  rw [hresult]
  exact ⟨hfresh.symm, hlisted.symm, fun e s' => h.transcript_of_error hformat,
    fun s' => h.transcript_of_ok hformat⟩

/-- After a tape without a valid header and one that ends inside an instruction. -/
theorem listing_is_decoding_of_sample :
    (((Clerk.new sampleFormat).listAll [sampleTape, sampleCut]).list sampleCartridge).1 =
      .ok "[LW, labels=1, code=10]\nPUSH  5\nPUSH  7\n" := by
  have hload : sampleSchema.load = .ok sampleFormat := by decide +kernel
  obtain ⟨-, hlister, -, -⟩ :=
    listing_is_decoding hload [sampleTape, sampleCut] sampleCartridge () []
  rw [hlister]
  decide +kernel

end Bytecode
