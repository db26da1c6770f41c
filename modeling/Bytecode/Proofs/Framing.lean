import Bytecode.Proofs.Deck
import Bytecode.Proofs.Recital

/-!
# The frame of a deck

An action on a sound deck is regular (`Action.regular`): the deck stays sound and its store does not
become shorter, no sum overflows and no access goes out of range, and the tape of the deck is worked
in the same way unless the store is full. So it is with any number of actions (`Sound.grows_after`,
`Origin.tape_after`).

`framed_after` says of every deck that can come about what each action changes in it, and that it
changes nothing else.
-/

namespace Bytecode

namespace Deck

variable {d d' : Deck}

/-! ### Actions one by one -/

theorem seek_eq (offset : Nat) (d : Deck) :
    seek offset d =
      if offset ≤ d.store.length then .ok () { d with head := offset }
      else .error (.fault .outOfBounds) d := by
  rw [seek]
  split_ifs with hgt hle
  · exact absurd hle (Nat.not_le.mpr hgt)
  · rfl
  · rfl
  · exact absurd (Nat.not_lt.mp hgt) ‹_›

/-- Bytes are found both in the deck and on its tape, or in neither, for the same reason. -/
theorem peek_cases (h : d.Sound) (offset count : Nat) :
    (∃ bs, bs.length = count ∧ peek offset count d = .ok bs d ∧
      d.tape.peek offset count = .ok bs) ∨
    ∃ reason, peek offset count d = .error (.fault reason) d ∧
      d.tape.peek offset count = .error reason := by
  rw [peek_eq h, peek_tape]
  split_ifs with hle hlimit
  · exact .inl ⟨_, length_ahead hle, rfl, rfl⟩
  · exact .inr ⟨_, rfl, rfl⟩
  · exact .inr ⟨_, rfl, rfl⟩

theorem peekByte_cases (h : d.Sound) (offset : Nat) :
    (∃ n, peekByte offset d = .ok (UInt8.ofNat n) d ∧ d.tape.peekNat offset 1 = .ok n) ∨
    ∃ reason, peekByte offset d = .error (.fault reason) d ∧
      d.tape.peekNat offset 1 = .error reason := by
  obtain ⟨bs, hlength, hpeek, htape⟩ | ⟨reason, hpeek, htape⟩ := peek_cases h offset 1
  · obtain ⟨b, rfl⟩ := List.length_eq_one_iff.mp hlength
    refine .inl ⟨LittleEndian.ofBytes [b], ?_, by rw [Tape.peekNat, htape]; rfl⟩
    rw [peekByte, bind_of_ok hpeek, ofNat_ofBytes_singleton]
    rfl
  · exact .inr ⟨reason, bind_of_error hpeek _, by rw [Tape.peekNat, htape]; rfl⟩

theorem peekWord_cases (h : d.Sound) (offset : Nat) :
    (∃ n, peekWord offset d = .ok (UInt32.ofNat n) d ∧ d.tape.peekNat offset 4 = .ok n) ∨
    ∃ reason, peekWord offset d = .error (.fault reason) d ∧
      d.tape.peekNat offset 4 = .error reason := by
  obtain ⟨bs, hlength, hpeek, htape⟩ | ⟨reason, hpeek, htape⟩ := peek_cases h offset 4
  · obtain ⟨b₀, b₁, b₂, b₃, rfl⟩ := List.length_eq_four.mp hlength
    refine .inl ⟨LittleEndian.ofBytes [b₀, b₁, b₂, b₃], ?_, by rw [Tape.peekNat, htape]; rfl⟩
    rw [peekWord, bind_of_ok hpeek]
    rfl
  · exact .inr ⟨reason, bind_of_error hpeek _, by rw [Tape.peekNat, htape]; rfl⟩

/-- Whether a failure is an accident of the representation and no answer to whoever asked. -/
def Failure.isAccident : Failure → Bool
  | overflow | outOfRange => true
  | fault _ | refused _ | full => false

namespace Action

/-- Nothing goes wrong when something is done to a deck. -/
structure Regular (a : Action) (d : Deck) : Prop where
  grows : d.Grows (left (a.serve d))
  not_isAccident {e : Failure} {d' : Deck} : a.serve d = .error e d' → e.isAccident = false
  /-- On the tape of the deck it comes to the same. -/
  onTape_tape : a.onTape d.tape = toTape (a.serve d) ∨ ∃ d', a.serve d = .error .full d'

variable {a : Action}

theorem regular_of_ok {v : Option Value} (hserve : a.serve d = .ok v d') (hgrows : d.Grows d')
    (htape : a.onTape d.tape = .ok v d'.tape) : a.Regular d := by
  constructor
  · rwa [hserve]
  · intro e d'' herror
    rw [hserve] at herror
    cases herror
  · rw [hserve]
    exact .inl htape

theorem regular_of_error {e : Failure} (hserve : a.serve d = .error e d') (hgrows : d.Grows d')
    (he : e.isAccident = false) (htape : a.onTape d.tape = .error e d'.tape ∨ e = .full) :
    a.Regular d := by
  constructor
  · rwa [hserve]
  · intro e' d'' herror
    rw [hserve] at herror
    cases herror
    exact he
  · rw [hserve]
    exact htape.imp id fun hfull => ⟨d', by rw [hfull]⟩

theorem regular_read (h : d.Sound) (r : Read) : (read r).Regular d := by
  by_cases hle : d.head + r.width ≤ d.store.length
  · have hrun := Read.run_of_le h hle
    have htape := Read.onTape_tape_of_le h hle
    cases hv : r.value? ((d.store.drop d.head).take r.width) with
    | some v =>
      rw [hv] at hrun htape
      refine regular_of_ok (map_of_ok hrun _) (h.grows_moved hle) ?_
      rw [onTape, htape]
      rfl
    | none =>
      rw [hv] at hrun htape
      refine regular_of_error (map_of_error hrun _) (h.grows_moved hle) rfl (.inl ?_)
      rw [onTape, htape]
      rfl
  · have hgt := Nat.not_le.mp hle
    refine regular_of_error (map_of_error (Read.run_of_gt h hgt) _) h.grows rfl (.inl ?_)
    rw [onTape, Read.onTape_tape_of_gt h hgt]

theorem regular_encode (h : d.Sound) (k : Kind) (v : Value) : (encode k v).Regular d := by
  cases hcoerce : k.coerce v with
  | none =>
    refine regular_of_error (map_of_error (encode_of_eq_none hcoerce d) _) h.grows rfl (.inl ?_)
    rw [onTape, Kind.encode, hcoerce]
  | some w =>
    by_cases hw : w.Fits
    · have hwrites : Writes w.wire (Deck.encode k v) := writes_encode hcoerce hw
      have hencode : k.encode v d.tape = .ok (d.written w.wire).tape :=
        Kind.encode_eq_ok_iff.mpr ⟨w, hcoerce, hw, h.write_tape w.wire⟩
      by_cases hroom : d.head + w.wire.length < storeLimit
      · refine regular_of_ok (map_of_ok (hwrites.eq_ok h hroom) _) (h.grows_written hroom) ?_
        rw [onTape, hencode]
      · obtain ⟨d', hfull, hgrows⟩ := hwrites.eq_full h (Nat.not_lt.mp hroom)
        exact regular_of_error (map_of_error hfull _) hgrows rfl (.inr rfl)
    · have hencode : Deck.encode k v d = .error (.refused (.tooLong w.payload.length)) d := by
        rw [encode_of_eq_some hcoerce, writeValue_of_not_fits hw]
      refine regular_of_error (map_of_error hencode _) h.grows rfl (.inl ?_)
      rw [onTape, Kind.encode, hcoerce]
      dsimp only
      rw [if_neg (show ¬ w.payload.length < lengthLimit from hw)]

/-- Everything that can be done to a sound deck is regular. -/
theorem regular (h : d.Sound) (a : Action) : a.Regular d := by
  cases a with
  | read r => exact regular_read h r
  | encode k v => exact regular_encode h k v
  | seek offset =>
    have hseek := seek_eq offset d
    have htape := seek_tape d offset
    split_ifs at hseek htape with hle
    · refine regular_of_ok (map_of_ok hseek _) (h.grows_moved hle) ?_
      rw [onTape, htape]
    · refine regular_of_error (map_of_error hseek _) h.grows rfl (.inl ?_)
      rw [onTape, htape]
  | peek offset count =>
    obtain ⟨bs, -, hpeek, htape⟩ | ⟨reason, hpeek, htape⟩ := peek_cases h offset count
    · refine regular_of_ok (map_of_ok hpeek _) h.grows ?_
      rw [onTape, htape]
    · refine regular_of_error (map_of_error hpeek _) h.grows rfl (.inl ?_)
      rw [onTape, htape]
  | peekByte offset =>
    obtain ⟨n, hpeek, htape⟩ | ⟨reason, hpeek, htape⟩ := peekByte_cases h offset
    · refine regular_of_ok (map_of_ok hpeek _) h.grows ?_
      rw [onTape, htape]
    · refine regular_of_error (map_of_error hpeek _) h.grows rfl (.inl ?_)
      rw [onTape, htape]
  | peekWord offset =>
    obtain ⟨n, hpeek, htape⟩ | ⟨reason, hpeek, htape⟩ := peekWord_cases h offset
    · refine regular_of_ok (map_of_ok hpeek _) h.grows ?_
      rw [onTape, htape]
    · refine regular_of_error (map_of_error hpeek _) h.grows rfl (.inl ?_)
      rw [onTape, htape]
  | write bs =>
    have hwrite := write_eq h bs.property
    split_ifs at hwrite with hroom
    · refine regular_of_ok (map_of_ok hwrite _) (h.grows_written hroom) ?_
      rw [onTape, h.write_tape]
    · exact regular_of_error (map_of_error hwrite _) h.grows rfl (.inr rfl)
  | poke offset bs =>
    have hpoke := poke_eq h offset bs.property
    have htape := h.patch_tape offset bs.val
    split_ifs at hpoke htape with hle
    · refine regular_of_ok (map_of_ok hpoke _) (h.grows_spliced hle) ?_
      rw [onTape, htape]
    · refine regular_of_error (map_of_error hpoke _) h.grows rfl (.inl ?_)
      rw [onTape, htape]

end Action

/-! ### Actions one after another -/

theorem Sound.grows_after (h : d.Sound) (actions : List Action) : d.Grows (after actions d) := by
  induction actions generalizing d with
  | nil => exact h.grows
  | cons a actions ih =>
    have hstep := (Action.regular h a).grows
    exact hstep.trans (ih hstep.sound)

theorem Origin.sound_after (origin : Origin) (actions : List Action) :
    (after actions origin.deck).Sound :=
  (origin.sound.grows_after actions).sound

/-- The tape that is left when the same is done to a tape. -/
def tapeAfter (actions : List Action) (t : Tape) : Tape :=
  actions.foldl (fun t a => Tape.stop (a.onTape t)) t

theorem left_toTape {α : Type} (result : EStateM.Result Failure Deck α) :
    Tape.stop (toTape result) = (left result).tape := by
  cases result <;> rfl

/-- Actions on a deck are actions on its tape, as long as the store does not get full. -/
theorem Sound.tape_after (h : d.Sound) {actions : List Action}
    (hroom : ∀ earlier a later, actions = earlier ++ a :: later →
      ∀ d', a.serve (after earlier d) ≠ .error .full d') :
    (after actions d).tape = tapeAfter actions d.tape := by
  induction actions generalizing d with
  | nil => rfl
  | cons a actions ih =>
    have hregular := Action.regular h a
    have htape : a.onTape d.tape = toTape (a.serve d) := by
      refine hregular.onTape_tape.resolve_right ?_
      rintro ⟨d', hfull⟩
      exact hroom [] a actions rfl d' hfull
    have hnext := ih hregular.grows.sound fun earlier a' later heq =>
      hroom (a :: earlier) a' later (by rw [heq]; rfl)
    show (after actions (left (a.serve d))).tape = tapeAfter actions (Tape.stop (a.onTape d.tape))
    rw [hnext, htape, left_toTape]

theorem Origin.tape_deck (origin : Origin) : origin.deck.tape = origin.tape := by
  cases origin <;> rfl

/-- From the start on, a deck that does not get full holds the tape of the same actions. -/
theorem Origin.tape_after (origin : Origin) {actions : List Action}
    (hroom : ∀ earlier a later, actions = earlier ++ a :: later →
      ∀ d', a.serve (after earlier origin.deck) ≠ .error .full d') :
    (after actions origin.deck).tape = tapeAfter actions origin.tape := by
  rw [origin.sound.tape_after hroom, origin.tape_deck]

/-! ### The frame -/

/-- What is so of every deck that comes about as `origin` says. -/
structure Framed (origin : Origin) (d : Deck) : Prop where
  head_le : d.head ≤ d.store.length
  head_add_remaining : d.head + d.remaining = d.store.length
  growable_eq : d.growable = origin.deck.growable
  /-- The store never becomes shorter, -/
  length_le (later : List Action) : d.store.length ≤ (after later d).store.length
  /-- so that the head can always go back to where it was. -/
  seek_back (later : List Action) :
    seek d.head (after later d) = .ok () { after later d with head := d.head }
  /-- No sum of offsets overflows. -/
  not_overflow (a : Action) (d' : Deck) : a.serve d ≠ .error .overflow d'
  /-- No access goes out of range. -/
  not_outOfRange (a : Action) (d' : Deck) : a.serve d ≠ .error .outOfRange d'
  /-- The head goes to any offset that there is; to another it does not move. -/
  seek_eq (offset : Nat) :
    seek offset d =
      if offset ≤ d.store.length then .ok () { d with head := offset }
      else .error (.fault .outOfBounds) d
  /-- A read moves the head, forward or not at all. -/
  left_read (r : Read) :
    ∃ head, d.head ≤ head ∧ left (r.run d) = { d with head := head }
  /-- Bytes that are looked at from an absolute offset are left alone, as is the head. -/
  left_peek (offset count : Nat) : left (peek offset count d) = d
  left_peekByte (offset : Nat) : left (peekByte offset d) = d
  left_peekWord (offset : Nat) : left (peekWord offset d) = d
  /-- Bytes are written over those after the head and beyond the end, if there is a store so long;
  if not, nothing has changed. -/
  write_eq (bs : Block) :
    write bs d =
      if d.head + bs.val.length < storeLimit then
        .ok () { d with
          store := d.store.take d.head ++ bs.val ++ d.store.drop (d.head + bs.val.length)
          head := d.head + bs.val.length }
      else .error .full d
  /-- A value is written as the bytes of what it converts to. -/
  encode_eq {k : Kind} {v w : Value} : k.coerce v = some w → w.Fits →
    d.head + w.wire.length < storeLimit →
    encode k v d =
      .ok () { d with
        store := d.store.take d.head ++ w.wire ++ d.store.drop (d.head + w.wire.length)
        head := d.head + w.wire.length }
  /-- A value that is refused changes nothing. -/
  encode_refused {k : Kind} {v : Value} : (∀ w, k.coerce v = some w → ¬ w.Fits) →
    ∃ reason, encode k v d = .error (.refused reason) d
  /-- Where there is no store so long, the writing is cut short. -/
  encode_full {k : Kind} {v w : Value} : k.coerce v = some w → w.Fits →
    storeLimit ≤ d.head + w.wire.length → ∃ d', encode k v d = .error .full d'
  /-- Whatever is written, the store ends where it did or where the writing did. -/
  length_written (bs : List UInt8) :
    (d.store.take d.head ++ bs ++ d.store.drop (d.head + bs.length)).length =
      max d.store.length (d.head + bs.length)
  /-- Bytes that are all there are replaced, and nothing else; if they are not, nothing changes. -/
  poke_eq (offset : Nat) (bs : Block) :
    poke offset bs d =
      if offset + bs.val.length ≤ d.store.length then
        .ok () { d with
          store := d.store.take offset ++ bs.val ++ d.store.drop (offset + bs.val.length) }
      else .error (.fault .outOfBounds) d
  length_poked {offset : Nat} {bs : List UInt8} : offset + bs.length ≤ d.store.length →
    (d.store.take offset ++ bs ++ d.store.drop (offset + bs.length)).length = d.store.length
  /-- On the tape of the deck everything comes to the same, unless the store is full. -/
  onTape_tape (a : Action) :
    a.onTape d.tape = toTape (a.serve d) ∨ ∃ d', a.serve d = .error .full d'

theorem left_read_of_sound (h : d.Sound) (r : Read) :
    ∃ head, d.head ≤ head ∧ left (r.run d) = { d with head := head } := by
  by_cases hle : d.head + r.width ≤ d.store.length
  · refine ⟨d.head + r.width, Nat.le_add_right _ _, ?_⟩
    rw [Read.run_of_le h hle]
    cases r.value? ((d.store.drop d.head).take r.width) <;> rfl
  · refine ⟨d.head, Nat.le_refl _, ?_⟩
    rw [Read.run_of_gt h (Nat.not_le.mp hle)]
    rfl

theorem left_peek_of_sound (h : d.Sound) (offset count : Nat) : left (peek offset count d) = d := by
  obtain ⟨bs, -, hpeek, -⟩ | ⟨reason, hpeek, -⟩ := peek_cases h offset count <;>
  · rw [hpeek]
    rfl

theorem left_peekByte_of_sound (h : d.Sound) (offset : Nat) : left (peekByte offset d) = d := by
  obtain ⟨n, hpeek, -⟩ | ⟨reason, hpeek, -⟩ := peekByte_cases h offset <;>
  · rw [hpeek]
    rfl

theorem left_peekWord_of_sound (h : d.Sound) (offset : Nat) : left (peekWord offset d) = d := by
  obtain ⟨n, hpeek, -⟩ | ⟨reason, hpeek, -⟩ := peekWord_cases h offset <;>
  · rw [hpeek]
    rfl

theorem encode_refused_of_sound {k : Kind} {v : Value}
    (hv : ∀ w, k.coerce v = some w → ¬ w.Fits) (d : Deck) :
    ∃ reason, encode k v d = .error (.refused reason) d := by
  cases hcoerce : k.coerce v with
  | none => exact ⟨_, encode_of_eq_none hcoerce d⟩
  | some w =>
    rw [encode_of_eq_some hcoerce]
    exact ⟨_, writeValue_of_not_fits (hv w hcoerce) d⟩

/-- **The frame of a deck.** Whatever has been done to a deck since it came about, its head is
inside its store, its store only ever becomes longer, and each action changes what it is there to
change and nothing else: no sum overflows, no access goes out of range, and no byte changes outside
the stretch that is written. -/
theorem framed_after (origin : Origin) (actions : List Action) :
    (after actions origin.deck).Framed origin := by
  have hgrows := origin.sound.grows_after actions
  have h := hgrows.sound
  exact {
    head_le := h.head_le
    head_add_remaining := Nat.add_sub_cancel' h.head_le
    growable_eq := hgrows.growable_eq
    length_le later := (h.grows_after later).length_le
    seek_back later := by
      have hle := Nat.le_trans h.head_le (h.grows_after later).length_le
      rw [seek_eq, if_pos hle]
    not_overflow a d' herror := absurd ((Action.regular h a).not_isAccident herror) (by decide)
    not_outOfRange a d' herror := absurd ((Action.regular h a).not_isAccident herror) (by decide)
    seek_eq offset := seek_eq offset _
    left_read r := left_read_of_sound h r
    left_peek offset count := left_peek_of_sound h offset count
    left_peekByte offset := left_peekByte_of_sound h offset
    left_peekWord offset := left_peekWord_of_sound h offset
    write_eq bs := write_eq h bs.property
    encode_eq hv hw := (writes_encode hv hw).eq_ok h
    encode_refused hv := encode_refused_of_sound hv _
    encode_full hv hw hfull :=
      have ⟨d', herror, _⟩ := (writes_encode hv hw).eq_full h hfull
      ⟨d', herror⟩
    length_written bs := length_splice h.head_le
    poke_eq offset bs := poke_eq h offset bs.property
    length_poked hle := length_splice_of_le hle
    onTape_tape a := (Action.regular h a).onTape_tape }

/-- A number and a byte string, of whose length word a byte is replaced, and over whose end another
number is written. -/
theorem framed_after_of_sample :
    let actions : List Action := [.encode .u32 (.u32 7), .encode .bytes (.bytes [1, 2]),
      .poke 4 ⟨[9], by decide⟩, .seek 8, .encode .u32 (.u32 0x0A0B0C0D), .seek 13]
    let d : Deck := ⟨[7, 0, 0, 0, 9, 0, 0, 0, 0x0D, 0x0C, 0x0B, 0x0A], 12, true⟩
    after actions Origin.blank.deck = d ∧ d.Framed .blank := by
  intro actions d
  have hafter : after actions Origin.blank.deck = d := by decide
  exact ⟨hafter, hafter ▸ framed_after .blank actions⟩

end Deck

end Bytecode
