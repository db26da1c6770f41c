import Bytecode.Lector
import Bytecode.Proofs.Draft
import Bytecode.Proofs.Passage

/-!
# Reading in place is reading

A computation that reads in place leaves a tape behind when it fails. It `Tape.Keeps` the bytes of
the tape, so that to put the head back is to put the tape back (`Tape.rewind_of_same`); and but for
that tape it reads what the computation without it reads (`Format.parse_scanHeader` for headers).

For instructions there are also the arguments at hand. Whatever they were before, they are those of
the instruction if it is read (`Lector.Assigns.readInstruction_of_ok`). If it is not, they may be
any, and nothing else has changed (`Lector.Assigns.readInstruction_of_error`).
-/

namespace Bytecode

/-! ### Reads keep the bytes -/

namespace Tape

variable {ε α β : Type} {t t' t'' : Tape}

/-- A tape with the same bytes, its head anywhere. -/
structure Same (t t' : Tape) : Prop where
  bytes_eq : t'.bytes = t.bytes
  growable_eq : t'.growable = t.growable

theorem Same.refl (t : Tape) : t.Same t := ⟨rfl, rfl⟩

theorem Same.trans (h : t.Same t') (h' : t'.Same t'') : t.Same t'' :=
  ⟨h'.bytes_eq.trans h.bytes_eq, h'.growable_eq.trans h.growable_eq⟩

theorem Passes.same {bs : List UInt8} (h : t.Passes bs t') : t.Same t' :=
  ⟨h.bytes_eq, h.growable_eq⟩

theorem Same.size_eq (h : t.Same t') : t'.size = t.size := by
  have hlength := congrArg List.length h.bytes_eq
  rwa [bytes, bytes, List.length_append, List.length_append] at hlength

/-- Rewinding takes back that the head has moved. -/
theorem rewind_of_same (h : t.Same t') : t'.rewind t.pos = t := by
  -- the tape is as long as it was, so there is an offset to go back to
  have hle : t.pos ≤ t'.size := by
    rw [h.size_eq, size]
    omega
  have hdrop : t.bytes.drop t.pos = t.after := drop_pos_bytes t 0
  rw [rewind, seek, if_pos hle]
  dsimp only
  rw [h.bytes_eq, h.growable_eq, take_pos_bytes, hdrop]

/-- The tape that a computation ends with, whether it succeeds or not. -/
def stop : EStateM.Result ε Tape α → Tape
  | .ok _ t => t
  | .error _ t => t

/-- A computation that moves the head and changes no bytes, whether it succeeds or not. -/
def Keeps (work : EStateM ε Tape α) : Prop := ∀ t : Tape, t.Same (stop (work t))

theorem keeps_pure (a : α) : Keeps (pure a : EStateM ε Tape α) := Same.refl

theorem keeps_throw (e : ε) : Keeps (throw e : EStateM ε Tape α) := Same.refl

theorem keeps_get : Keeps (get : EStateM ε Tape Tape) := Same.refl

theorem Keeps.map {work : EStateM ε Tape α} (h : Keeps work) (g : α → β) : Keeps (g <$> work) := by
  intro t
  have ht := h t
  simp only [Functor.map, EStateM.map]
  cases hwork : work t <;>
  · rw [hwork] at ht
    exact ht

theorem Keeps.bind {work : EStateM ε Tape α} {next : α → EStateM ε Tape β} (h : Keeps work)
    (hnext : ∀ a, Keeps (next a)) : Keeps (work >>= next) := by
  intro t
  have ht := h t
  simp only [Bind.bind, EStateM.bind]
  cases hwork : work t with
  | ok a t' =>
    rw [hwork] at ht
    exact ht.trans (hnext a t')
  | error e t' =>
    rw [hwork] at ht
    exact ht

theorem keeps_mapM {work : α → EStateM ε Tape β} (h : ∀ a, Keeps (work a)) (as : List α) :
    Keeps (as.mapM work) := by
  induction as with
  | nil => exact keeps_pure []
  | cons a as ih =>
    rw [List.mapM_cons]
    exact (h a).bind fun _ => ih.bind fun _ => keeps_pure _

theorem keeps_take (count : ℕ) : Keeps (take count) := by
  intro t
  cases h : take count t with
  | ok bs t' => exact (take_eq_ok_iff.mp h).2.same
  | error fault t' =>
    unfold take at h
    split at h
    · cases h
    · cases h
      exact Same.refl t

theorem keeps_readNat (width : ℕ) : Keeps (readNat width) := (keeps_take width).map _

theorem keeps_readWord : Keeps readWord := (keeps_readNat 4).map _

theorem keeps_readByte : Keeps readByte := (keeps_readNat 1).map _

theorem keeps_readText (count : ℕ) : Keeps (readText count) := by
  intro t
  have ht := keeps_take count t
  unfold readText
  cases htake : take count t with
  | error fault t' =>
    rw [htake] at ht
    exact ht
  | ok bs t' =>
    rw [htake] at ht
    dsimp only
    cases Text.ofUtf8? bs <;> exact ht

end Tape

theorem Kind.keeps_decode (k : Kind) : Tape.Keeps k.decode := by
  cases k with
  | i32 => exact (Tape.keeps_readWord.map _).map _
  | u32 => exact Tape.keeps_readWord.map _
  | f64 => exact ((Tape.keeps_readNat 8).map _).map _
  | u8 => exact ((Tape.keeps_readNat 1).map _).map _
  | bytes => exact Tape.keeps_readWord.bind fun _ => (Tape.keeps_take _).map _
  | string => exact Tape.keeps_readWord.bind fun _ => (Tape.keeps_readText _).map _

/-! ### Scanning -/

namespace Scan

variable {α β : Type}

/-- A scan without the tape that a failure leaves. -/
def parse (scan : Scan α) : Parsing α := fun t =>
  match scan t with
  | .ok a t' => .ok (a, t')
  | .error e _ => .error e

theorem parse_pure (a : α) : parse (pure a) = pure a := rfl

theorem parse_get : parse get = get := rfl

theorem parse_bind (scan : Scan α) (next : α → Scan β) :
    parse (scan >>= next) = parse scan >>= fun a => parse (next a) := by
  funext t
  simp only [parse, Bind.bind, EStateM.bind, StateT.bind, Except.bind]
  cases scan t <;> rfl

theorem parse_mapM (scan : α → Scan β) (as : List α) :
    parse (as.mapM scan) = as.mapM fun a => parse (scan a) := by
  induction as with
  | nil => rfl
  | cons a as ih =>
    rw [List.mapM_cons, List.mapM_cons, parse_bind]
    simp only [parse_bind, ih, parse_pure]

theorem parse_scan (read : Tape.Reading α) (report : Tape.Fault → ReadError) :
    parse (read.scan report) = read.reporting report := by
  funext t
  simp only [parse, Tape.Reading.scan, EStateM.adaptExcept, Tape.Reading.reporting]
  cases read t <;> rfl

theorem keeps_scan {read : Tape.Reading α} (h : Tape.Keeps read) (report : Tape.Fault → ReadError) :
    Tape.Keeps (read.scan report) := by
  intro t
  have ht := h t
  simp only [Tape.Reading.scan, EStateM.adaptExcept]
  cases hread : read t <;>
  · rw [hread] at ht
    exact ht

end Scan

open Scan in
theorem Constant.parse_scan (c : Constant) : c.scan.parse = c.read := by
  rw [Constant.scan, parse_bind, Scan.parse_scan, Constant.read]
  congr 1
  funext value
  split <;> rfl

open Scan in
theorem Slot.parse_scan (s : Slot) : s.scan.parse = s.read := by
  rw [Slot.scan, parse_bind, Scan.parse_scan, Slot.read]
  rfl

theorem Constant.keeps_scan (c : Constant) : Tape.Keeps c.scan := by
  apply (Scan.keeps_scan c.value.kind.keeps_decode _).bind
  intro value
  split
  · exact Tape.keeps_pure _
  · exact Tape.keeps_throw _

theorem Slot.keeps_scan (s : Slot) : Tape.Keeps s.scan :=
  (Scan.keeps_scan (Tape.keeps_readNat s.width) _).bind fun _ => Tape.keeps_pure _

namespace Format

theorem keeps_scanHeader (f : Format) (start : ℕ) : Tape.Keeps (f.scanHeader start) :=
  (Tape.keeps_mapM Constant.keeps_scan _).bind fun _ =>
    (Tape.keeps_mapM Slot.keeps_scan _).bind fun _ =>
      (Tape.keeps_mapM Slot.keeps_scan _).bind fun _ =>
        Tape.keeps_get.bind fun _ => Tape.keeps_pure _

/-- A header is scanned as it is read. -/
theorem parse_scanHeader (f : Format) (t : Tape) :
    (f.scanHeader t.pos).parse t = f.readHeader t := by
  simp only [scanHeader, Scan.parse_bind, Scan.parse_mapM, Constant.parse_scan, Slot.parse_scan,
    Scan.parse_get, Scan.parse_pure]
  rfl

end Format

/-! ### Reading instructions -/

namespace Lector

variable {σ α β : Type} {s s' : Lector σ} {t t' : Tape}

theorem readTarget_of_ok {read : Tape.Reading α} {a : α} (ht : s.target = some t)
    (h : read t = .ok a t') : readTarget read s = .ok a { s with target := some t' } := by
  unfold readTarget Tape.Reading.scan EStateM.adaptExcept
  rw [ht]
  simp only [h]

theorem readTarget_of_error {read : Tape.Reading α} {fault : Tape.Fault} (ht : s.target = some t)
    (h : read t = .error fault t') :
    readTarget read s = .error (.fault fault) { s with target := some t' } := by
  unfold readTarget Tape.Reading.scan EStateM.adaptExcept
  rw [ht]
  simp only [h]

/-- An argument that is read joins those at hand. -/
theorem readArgument_of_ok {field : Field} {value : Value} (ht : s.target = some t)
    (h : field.read t = .ok (value, t')) :
    readArgument field s = .ok () { s with args := s.args ++ [value], target := some t' } :=
  bind_of_ok (readTarget_of_ok ht (Tape.Reading.reporting_eq_ok_iff.mp h)) _

theorem readArgument_of_error {field : Field} {e : ReadError} (ht : s.target = some t)
    (h : field.read t = .error e) :
    ∃ t', t.Same t' ∧ readArgument field s = .error e { s with target := some t' } := by
  have hkeeps := field.kind.keeps_decode t
  unfold Field.read Tape.Reading.reporting at h
  cases hdecode : field.kind.decode t with
  | ok value t' =>
    rw [hdecode] at h
    cases h
  | error fault t' =>
    rw [hdecode] at h hkeeps
    cases h
    exact ⟨t', hkeeps, bind_of_error (readTarget_of_error ht hdecode) _⟩

theorem forM_readArgument_of_ok {fields : List Field} {values : List Value} (ht : s.target = some t)
    (h : fields.mapM Field.read t = .ok (values, t')) :
    fields.forM readArgument s = .ok () { s with args := s.args ++ values, target := some t' } := by
  induction fields generalizing s t values with
  | nil =>
    rw [List.mapM_nil] at h
    cases h
    rw [← ht, List.append_nil]
    rfl
  | cons field fields ih =>
    rw [List.mapM_cons] at h
    obtain ⟨value, t₁, hvalue, h⟩ := Parsing.bind_eq_ok_iff.mp h
    obtain ⟨rest, t₂, hrest, h⟩ := Parsing.bind_eq_ok_iff.mp h
    cases h
    refine (bind_of_ok (readArgument_of_ok ht hvalue) _).trans ?_
    refine (ih rfl hrest).trans ?_
    rw [List.append_assoc, List.singleton_append]

/-- When an argument cannot be read, those before it remain at hand. -/
theorem forM_readArgument_of_error {fields : List Field} {e : ReadError} (ht : s.target = some t)
    (h : fields.mapM Field.read t = .error e) :
    ∃ args t', t.Same t' ∧
      fields.forM readArgument s = .error e { s with args := args, target := some t' } := by
  induction fields generalizing s t with
  | nil => cases h
  | cons field fields ih =>
    rw [List.mapM_cons] at h
    rcases Parsing.bind_eq_error_iff.mp h with hfield | ⟨value, t₁, hvalue, h⟩
    · obtain ⟨t', hsame, hread⟩ := readArgument_of_error ht hfield
      exact ⟨s.args, t', hsame, bind_of_error hread _⟩
    · rcases Parsing.bind_eq_error_iff.mp h with hrest | ⟨rest, t₂, -, hpure⟩
      · obtain ⟨args, t', hsame, hread⟩ :=
          ih (s := { s with args := s.args ++ [value], target := some t₁ }) rfl hrest
        have hhead : t.Same t₁ := (Field.read_eq_ok_iff.mp hvalue).2.same
        exact ⟨args, t', hhead.trans hsame,
          (bind_of_ok (readArgument_of_ok ht hvalue) _).trans hread⟩
      · cases hpure

/-- The instructions in the table are those of the format. -/
def Assigns (s : Lector σ) : Prop :=
  ∀ opcode, s.instructions.get? opcode = s.format.byOpcode? opcode

theorem Assigns.assigned_of_some {opcode : UInt8} {i : Instruction} (h : s.Assigns)
    (hfound : s.format.byOpcode? opcode = some i) : assigned opcode s = .ok i s := by
  simp only [assigned, h opcode, hfound]

theorem Assigns.assigned_of_none {opcode : UInt8} (h : s.Assigns)
    (hfound : s.format.byOpcode? opcode = none) :
    assigned opcode s = .error (.unknownOpcode opcode) s := by
  simp only [assigned, h opcode, hfound]

variable {d : Decoded} {e : ReadError}

theorem Assigns.readWhole_of_ok (h : s.Assigns) (ht : s.target = some t)
    (hread : s.format.readInstruction t = .ok (d, t')) :
    readWhole s = .ok d.instruction { s with args := d.args, target := some t' } := by
  obtain ⟨-, hfound, htakes, hpasses⟩ := Format.readInstruction_eq_ok_iff.mp hread
  -- the opcode is the first byte of the wire form, the arguments are the rest
  rw [Instruction.wire, ← List.singleton_append] at hpasses
  obtain ⟨t₁, hhead, htail⟩ := hpasses.split
  have hopcode := readTarget_of_ok ht (Tape.readByte_eq_ok_iff.mpr hhead)
  have h₁ : Assigns { s with target := some t₁ } := h
  have hargs := forM_readArgument_of_ok (s := { s with args := [], target := some t₁ }) rfl
    (mapM_read_eq_ok_iff.mpr ⟨htakes, htail⟩)
  refine (bind_of_ok hopcode _).trans ((bind_of_ok (h₁.assigned_of_some hfound) _).trans ?_)
  exact (bind_of_ok ((bind_of_ok rfl _).trans hargs) _).trans rfl

theorem Assigns.readWhole_of_error (h : s.Assigns) (ht : s.target = some t)
    (hread : s.format.readInstruction t = .error e) :
    ∃ args t', t.Same t' ∧ readWhole s = .error e { s with args := args, target := some t' } := by
  have hkeeps := Tape.keeps_readByte t
  unfold Format.readInstruction at hread
  -- there is no byte, or no instruction with this opcode, or an argument cannot be read
  cases hopcode : Tape.readByte t with
  | error fault t' =>
    rw [hopcode] at hread hkeeps
    cases hread
    exact ⟨s.args, t', hkeeps, bind_of_error (readTarget_of_error ht hopcode) _⟩
  | ok opcode t₁ =>
    rw [hopcode] at hread hkeeps
    have hbyte := readTarget_of_ok ht hopcode
    have h₁ : Assigns { s with target := some t₁ } := h
    cases hfound : s.format.byOpcode? opcode with
    | none =>
      simp only [hfound] at hread
      cases hread
      refine ⟨s.args, t₁, hkeeps, (bind_of_ok hbyte _).trans ?_⟩
      exact bind_of_error (h₁.assigned_of_none hfound) _
    | some i =>
      simp only [hfound] at hread
      cases hargs : i.args.mapM Field.read t₁ with
      | ok r =>
        rw [hargs] at hread
        cases hread
      | error e' =>
        rw [hargs] at hread
        cases hread
        obtain ⟨args, t', hsame, hforM⟩ :=
          forM_readArgument_of_error (s := { s with args := [], target := some t₁ }) rfl hargs
        refine ⟨args, t', hkeeps.trans hsame, (bind_of_ok hbyte _).trans ?_⟩
        refine (bind_of_ok (h₁.assigned_of_some hfound) _).trans (bind_of_error ?_ _)
        exact (bind_of_ok rfl _).trans hforM

variable {header : Header}

/-- An instruction is read as from the tape alone, and its arguments are then those at hand,
whichever were before. -/
theorem Assigns.readInstruction_of_ok (h : s.Assigns) (hheader : s.header = some header)
    (ht : s.target = some t) (hread : s.format.readInstruction t = .ok (d, t')) :
    readInstruction s = .ok d.instruction { s with args := d.args, target := some t' } := by
  simp only [readInstruction, hheader, ht, h.readWhole_of_ok ht hread]

/-- When an instruction cannot be read, only the arguments at hand may have changed: the head has
been put back. -/
theorem Assigns.readInstruction_of_error (h : s.Assigns) (hheader : s.header = some header)
    (ht : s.target = some t) (hread : s.format.readInstruction t = .error e) :
    ∃ args, readInstruction s = .error e { s with args := args } := by
  obtain ⟨args, t', hsame, hwhole⟩ := h.readWhole_of_error ht hread
  refine ⟨args, ?_⟩
  simp only [readInstruction, hheader, ht, hwhole, Option.map_some, Tape.rewind_of_same hsame]

theorem readInstruction_of_none (h : s.header = none) : readInstruction s = .error .notBound s := by
  simp only [readInstruction, h]

/-! ### Binding a tape -/

theorem scanHeader_of_ok {f : Format} (h : f.readHeader t = .ok (header, t')) :
    f.scanHeader t.pos t = .ok header t' := by
  have hparse := f.parse_scanHeader t
  rw [h, Scan.parse] at hparse
  cases hscan : f.scanHeader t.pos t with
  | error e t₁ =>
    rw [hscan] at hparse
    cases hparse
  | ok header' t₁ =>
    rw [hscan] at hparse
    cases hparse
    rfl

theorem scanHeader_of_error {f : Format} (h : f.readHeader t = .error e) :
    ∃ t', t.Same t' ∧ f.scanHeader t.pos t = .error e t' := by
  have hparse := f.parse_scanHeader t
  have hkeeps := f.keeps_scanHeader t.pos t
  rw [h, Scan.parse] at hparse
  cases hscan : f.scanHeader t.pos t with
  | error e' t' =>
    rw [hscan] at hparse hkeeps
    cases hparse
    exact ⟨t', hkeeps, rfl⟩
  | ok header t' =>
    rw [hscan] at hparse
    cases hparse

theorem bind_of_readHeader_ok (h : s.format.readHeader t = .ok (header, t')) :
    bind t s = .ok () { s with
      target := some t'
      header := some header
      world := s.headerHandler.elim s.world fun handler => handler header s.world } := by
  refine (bind_of_ok rfl _).trans ((bind_of_ok rfl _).trans ?_)
  simp only [scanHeader_of_ok h]
  refine (bind_of_ok rfl _).trans ((bind_of_ok rfl _).trans ?_)
  cases s.headerHandler <;> rfl

/-- A tape whose header is not valid stays bound, its head where it was. -/
theorem bind_of_readHeader_error (h : s.format.readHeader t = .error e) :
    bind t s = .error e { s with target := some t, header := none } := by
  obtain ⟨t', hsame, hscan⟩ := scanHeader_of_error h
  refine (bind_of_ok rfl _).trans ((bind_of_ok rfl _).trans ?_)
  simp only [hscan, Tape.rewind_of_same hsame]
  rfl

end Lector

end Bytecode
