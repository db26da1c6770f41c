import Bytecode.Proofs.Codec
import Bytecode.Wire.Deck

/-!
# What work on a deck does

A deck is sound when its head is inside the store (`Deck.Sound`). On a sound deck each operation has
one equation, which says when it succeeds, what it finds, what it leaves and with which failure it
stops otherwise: `peek_eq` and `take_eq`, from which `Read.run_of_le` and `Read.run_of_gt` follow,
`write_eq` and `poke_eq`. None of these equations mentions an overflow or an access out of range,
and the sums in their conditions are not bounded. Writing a value is writing its wire form
(`writes_encode`).

The tape of a sound deck is worked in the same way, operation by operation (the `_tape` lemmas).
-/

namespace Bytecode

namespace Deck

variable {d : Deck} {bs cs : List UInt8} {offset count : Nat}

/-- The head is inside the store, and the store has a size that a store can have. -/
structure Sound (d : Deck) : Prop where
  head_le : d.head ≤ d.store.length
  length_lt : d.store.length < storeLimit

theorem Origin.sound (origin : Origin) : origin.deck.Sound := by
  cases origin with
  | blank => exact ⟨Nat.le_refl 0, Nat.two_pow_pos 63⟩
  | fixed bs => exact ⟨Nat.zero_le _, bs.property⟩

/-- The head of a sound deck can be anywhere in the store. -/
theorem Sound.moved (h : d.Sound) (hoffset : offset ≤ d.store.length) :
    Sound { d with head := offset } :=
  ⟨hoffset, h.length_lt⟩

/-! ### Opening work -/

section Work

variable {ε σ α β : Type} {work : EStateM ε σ α} {s s' : σ} {e : ε}

theorem get_eq (s : σ) : (get : EStateM ε σ σ) s = .ok s s := rfl

/-- The result of work that has got to `s` and succeeds there with what it has found, if it has
found anything. -/
def conclude (e : ε) (s : σ) : Option α → EStateM.Result ε σ α
  | some a => .ok a s
  | none => .error e s

theorem map_of_conclude {found : Option α} (h : work s = conclude e s' found) (g : α → β) :
    (g <$> work) s = conclude e s' (found.map g) := by
  cases found with
  | some a => exact map_of_ok h g
  | none => exact map_of_error h g

end Work

theorem moveTo_eq (offset : Nat) (d : Deck) :
    moveTo offset d = .ok () { d with head := offset } := rfl

/-! ### Reading -/

theorem sum?_eq_some {a b : Nat} (h : a + b < Tape.offsetLimit) : sum? a b = some (a + b) :=
  if_pos h

theorem sum?_eq_none_or (a b : Nat) : sum? a b = none ∨ sum? a b = some (a + b) := by
  rw [sum?]
  split_ifs <;> simp

/-- What ends inside the store has its end at an offset. -/
theorem Sound.sum?_of_le (h : d.Sound) (hle : offset + count ≤ d.store.length) :
    sum? offset count = some (offset + count) := by
  have hlength : d.store.length < 2 ^ 63 := h.length_lt
  refine sum?_eq_some ?_
  rw [Tape.offsetLimit]
  omega

theorem stretch?_add (d : Deck) (offset count : Nat) :
    d.stretch? offset (offset + count) =
      if offset + count ≤ d.store.length then some ((d.store.drop offset).take count)
      else none := by
  rw [stretch?, Nat.add_sub_cancel_left]
  simp only [Nat.le_add_right, true_and]

/-- Bytes are taken if there are as many, whatever their number is. -/
theorem take_eq (h : d.Sound) (count : Nat) :
    take count d =
      if d.head + count ≤ d.store.length then
        .ok ((d.store.drop d.head).take count) { d with head := d.head + count }
      else .error (.fault (.truncated d.head count)) d := by
  unfold take
  split_ifs with hle
  · rw [h.sum?_of_le hle]
    dsimp only
    rw [stretch?_add, if_pos hle]
  · -- if the sum does not overflow, it is beyond the end
    rcases sum?_eq_none_or d.head count with hsum | hsum <;> rw [hsum]
    dsimp only
    rw [stretch?_add, if_neg hle]

theorem peek_eq (h : d.Sound) (offset count : Nat) :
    peek offset count d =
      if offset + count ≤ d.store.length then .ok ((d.store.drop offset).take count) d
      else if Tape.offsetLimit ≤ offset + count then .error (.fault .outOfBounds) d
      else .error (.fault (.truncated offset count)) d := by
  unfold peek
  split_ifs with hle hlimit
  · rw [h.sum?_of_le hle]
    dsimp only
    rw [stretch?_add, if_pos hle]
  · rw [sum?, if_neg (Nat.not_lt.mpr hlimit)]
  · rw [sum?_eq_some (Nat.not_le.mp hlimit)]
    dsimp only
    rw [stretch?_add, if_neg hle]

/-! ### Sequential reads -/

/-- What bytes say to a read. Only as a text can they say nothing. -/
def Read.value? : Read → List UInt8 → Option Value
  | byte, bs => some (.u8 (UInt8.ofNat (LittleEndian.ofBytes bs)))
  | word, bs => some (.u32 (UInt32.ofNat (LittleEndian.ofBytes bs)))
  | int, bs => some (.i32 (UInt32.ofNat (LittleEndian.ofBytes bs)).toInt32)
  | double, bs => some (.f64 ⟨UInt64.ofNat (LittleEndian.ofBytes bs)⟩)
  | bytes _, bs => some (.bytes bs)
  | text _, bs => (Text.ofUtf8? bs).map .string

theorem take_of_le (h : d.Sound) (hle : d.head + count ≤ d.store.length) :
    take count d =
      .ok ((d.store.drop d.head).take count) { d with head := d.head + count } := by
  rw [take_eq h, if_pos hle]

theorem take_of_gt (h : d.Sound) (hgt : d.store.length < d.head + count) :
    take count d = .error (.fault (.truncated d.head count)) d := by
  rw [take_eq h, if_neg (Nat.not_le.mpr hgt)]

theorem length_ahead (hle : offset + count ≤ d.store.length) :
    ((d.store.drop offset).take count).length = count := by
  rw [List.length_take, List.length_drop]
  omega

/-- The bytes taken are always as many as the word has. -/
theorem takeWord_eq (h : d.Sound) (width : Nat) : takeWord width d = take width d := by
  by_cases hle : d.head + width ≤ d.store.length
  · rw [takeWord, bind_of_ok (take_of_le h hle), if_pos (length_ahead hle), take_of_le h hle]
    rfl
  · have htake := take_of_gt h (Nat.not_le.mp hle)
    rw [takeWord, bind_of_error htake, htake]

theorem ofNat_ofBytes_singleton (b : UInt8) : UInt8.ofNat (LittleEndian.ofBytes [b]) = b := by
  simp [LittleEndian.ofBytes]

theorem readByte_of_le (h : d.Sound) (hle : d.head + 1 ≤ d.store.length) :
    readByte d =
      .ok (UInt8.ofNat (LittleEndian.ofBytes ((d.store.drop d.head).take 1)))
        { d with head := d.head + 1 } := by
  obtain ⟨b, hb⟩ := List.length_eq_one_iff.mp (length_ahead hle)
  rw [readByte, bind_of_ok (take_of_le h hle), hb, ofNat_ofBytes_singleton]
  rfl

theorem readText_of_le (h : d.Sound) (hle : d.head + count ≤ d.store.length) :
    readText count d =
      conclude (.fault (.malformedText d.head)) { d with head := d.head + count }
        (Text.ofUtf8? ((d.store.drop d.head).take count)) := by
  rw [readText, bind_of_ok (get_eq d), bind_of_ok (take_of_le h hle)]
  cases Text.ofUtf8? ((d.store.drop d.head).take count) <;> rfl

theorem readText_of_gt (h : d.Sound) (hgt : d.store.length < d.head + count) :
    readText count d = .error (.fault (.truncated d.head count)) d := by
  rw [readText, bind_of_ok (get_eq d), bind_of_error (take_of_gt h hgt)]

/-- A read fails on a deck that ends too early, and leaves it as it is. -/
theorem Read.run_of_gt (h : d.Sound) {r : Read} (hgt : d.store.length < d.head + r.width) :
    r.run d = .error (.fault (.truncated d.head r.width)) d := by
  have hword : takeWord r.width d = .error (.fault (.truncated d.head r.width)) d := by
    rw [takeWord_eq h, take_of_gt h hgt]
  cases r with
  | byte => exact map_of_error (bind_of_error (take_of_gt h hgt) _) _
  | word | int | double => exact map_of_error (map_of_error hword _) _
  | bytes count => exact map_of_error (take_of_gt h hgt) _
  | text count => exact map_of_error (readText_of_gt h hgt) _

/-- Where there are enough bytes, a read moves the head over them, whether or not they say
something. -/
theorem Read.run_of_le (h : d.Sound) {r : Read} (hle : d.head + r.width ≤ d.store.length) :
    r.run d =
      conclude (.fault (.malformedText d.head)) { d with head := d.head + r.width }
        (r.value? ((d.store.drop d.head).take r.width)) := by
  have hword : takeWord r.width d =
      .ok ((d.store.drop d.head).take r.width) { d with head := d.head + r.width } := by
    rw [takeWord_eq h, take_of_le h hle]
  cases r with
  | byte => exact map_of_ok (readByte_of_le h hle) _
  | word | int | double => exact map_of_ok (map_of_ok hword _) _
  | bytes count => exact map_of_ok (take_of_le h hle) _
  | text count => exact map_of_conclude (readText_of_le h hle) _

/-! ### Writing -/

/-- The bytes of a store after a stretch from an offset has been replaced. -/
def splice (offset : Nat) (bs store : List UInt8) : List UInt8 :=
  store.take offset ++ bs ++ store.drop (offset + bs.length)

theorem length_splice {store : List UInt8} (h : offset ≤ store.length) :
    (splice offset bs store).length = max store.length (offset + bs.length) := by
  simp only [splice, List.length_append, List.length_take, List.length_drop]
  omega

theorem length_splice_of_le {store : List UInt8} (h : offset + bs.length ≤ store.length) :
    (splice offset bs store).length = store.length := by
  rw [length_splice (by omega), Nat.max_eq_left h]

/-- A replacement that reaches the end of the store leaves nothing of what is there. -/
theorem splice_append {store extra : List UInt8} (h : offset ≤ store.length)
    (hextra : store.length + extra.length ≤ offset + bs.length) :
    splice offset bs (store ++ extra) = splice offset bs store := by
  have hdrop : (store ++ extra).drop (offset + bs.length) = [] :=
    List.drop_eq_nil_of_le (by rwa [List.length_append])
  have hdrop' : store.drop (offset + bs.length) = [] := List.drop_eq_nil_of_le (by omega)
  rw [splice, splice, List.take_append_of_le_length h, hdrop, hdrop']

theorem resize_eq {size : Nat} (hlimit : size < storeLimit) (hle : d.store.length ≤ size) :
    resize size d =
      .ok () { d with store := d.store ++ List.replicate (size - d.store.length) 0 } := by
  rw [resize, if_pos hlimit, List.take_of_length_le hle]

theorem overwrite_eq (h : offset + bs.length ≤ d.store.length) :
    overwrite offset (offset + bs.length) bs d =
      .ok () { d with store := splice offset bs d.store } :=
  if_pos ⟨Nat.le_add_right _ _, h, (Nat.add_sub_cancel_left _ _).symm⟩

/-- What writing has made of a deck. -/
def written (bs : List UInt8) (d : Deck) : Deck :=
  { d with store := splice d.head bs d.store, head := d.head + bs.length }

@[simp]
theorem head_written (bs : List UInt8) (d : Deck) : (d.written bs).head = d.head + bs.length := rfl

theorem Sound.length_written (h : d.Sound) (bs : List UInt8) :
    (d.written bs).store.length = max d.store.length (d.head + bs.length) :=
  length_splice h.head_le

theorem Sound.written (h : d.Sound) (hroom : d.head + bs.length < storeLimit) :
    (d.written bs).Sound where
  head_le := by
    rw [h.length_written]
    exact Nat.le_max_right _ _
  length_lt := by
    rw [h.length_written]
    exact Nat.max_lt.mpr ⟨h.length_lt, hroom⟩

theorem Sound.take_written (h : d.Sound) (bs : List UInt8) :
    (d.written bs).store.take (d.head + bs.length) = d.store.take d.head ++ bs :=
  List.take_left' (by rw [List.length_append, List.length_take_of_le h.head_le])

theorem Sound.drop_written (h : d.Sound) (bs : List UInt8) :
    (d.written bs).store.drop (d.head + bs.length) = d.store.drop (d.head + bs.length) :=
  List.drop_left' (by rw [List.length_append, List.length_take_of_le h.head_le])

/-- To write twice is to write at once. -/
theorem Sound.written_written (h : d.Sound) (bs cs : List UInt8) :
    (d.written bs).written cs = d.written (bs ++ cs) := by
  have hstore : splice (d.head + bs.length) cs (d.written bs).store =
      splice d.head (bs ++ cs) d.store := by
    rw [splice, h.take_written, ← List.drop_drop, h.drop_written, List.drop_drop, splice]
    simp only [List.length_append, List.append_assoc, Nat.add_assoc]
  rw [Deck.written, head_written, hstore, Nat.add_assoc, ← List.length_append]
  rfl

/-- Bytes are written unless the store would become too long. -/
theorem write_eq (h : d.Sound) (hbs : bs.length < storeLimit) :
    write bs d =
      if d.head + bs.length < storeLimit then .ok () (d.written bs) else .error .full d := by
  have hhead := h.head_le
  -- two sizes below the limit have a sum that is an offset
  have hsum : sum? d.head bs.length = some (d.head + bs.length) := by
    have hlength := h.length_lt
    simp only [storeLimit] at hlength hbs
    refine sum?_eq_some ?_
    rw [Tape.offsetLimit]
    omega
  rw [write, bind_of_ok (get_eq d), hsum]
  dsimp only
  by_cases hend : d.store.length < d.head + bs.length
  · rw [if_pos hend]
    split_ifs with hroom
    · rw [bind_of_ok (resize_eq hroom (Nat.le_of_lt hend)),
        bind_of_ok (overwrite_eq (by simp; omega)), splice_append hhead (by simp; omega)]
      rfl
    · have hresize : resize (d.head + bs.length) d = .error .full d := if_neg hroom
      rw [bind_of_error hresize]
  · have hroom : d.head + bs.length < storeLimit := by
      have hlength := h.length_lt
      omega
    rw [if_neg hend, if_pos hroom, bind_of_ok (overwrite_eq (Nat.not_lt.mp hend))]
    rfl

/-- Bytes are replaced if they are all there, and then the store keeps its length. -/
theorem poke_eq (h : d.Sound) (offset : Nat) (hbs : bs.length < storeLimit) :
    poke offset bs d =
      if offset + bs.length ≤ d.store.length then
        .ok () { d with store := splice offset bs d.store }
      else .error (.fault .outOfBounds) d := by
  rw [poke, bind_of_ok (get_eq d)]
  split_ifs with hle
  · have hroom : offset + bs.length < storeLimit := Nat.lt_of_le_of_lt hle h.length_lt
    have hmoved : Sound { d with head := offset } := h.moved (by omega)
    have hwrite := write_eq hmoved hbs
    rw [if_pos hroom] at hwrite
    rw [h.sum?_of_le hle]
    dsimp only
    rw [if_neg (Nat.not_lt.mpr hle), bind_of_ok (moveTo_eq offset d), bind_of_ok hwrite]
    rfl
  · rcases sum?_eq_none_or offset bs.length with hsum | hsum <;> rw [hsum]
    · rfl
    · dsimp only
      rw [if_pos (Nat.not_le.mp hle)]
      rfl

/-! ### Writing values -/

/-- A deck to which a deck can come by actions: its store has not become shorter. -/
structure Grows (d d' : Deck) : Prop where
  sound : d'.Sound
  length_le : d.store.length ≤ d'.store.length
  growable_eq : d'.growable = d.growable

theorem Sound.grows (h : d.Sound) : d.Grows d := ⟨h, Nat.le_refl _, rfl⟩

theorem Grows.trans {d' d'' : Deck} (h : d.Grows d') (h' : d'.Grows d'') : d.Grows d'' where
  sound := h'.sound
  length_le := Nat.le_trans h.length_le h'.length_le
  growable_eq := h'.growable_eq.trans h.growable_eq

theorem Sound.grows_moved (h : d.Sound) (hoffset : offset ≤ d.store.length) :
    d.Grows { d with head := offset } :=
  ⟨h.moved hoffset, Nat.le_refl _, rfl⟩

theorem Sound.grows_written (h : d.Sound) (hroom : d.head + bs.length < storeLimit) :
    d.Grows (d.written bs) where
  sound := h.written hroom
  length_le := by
    rw [h.length_written]
    exact Nat.le_max_left _ _
  growable_eq := rfl

theorem Sound.grows_spliced (h : d.Sound) (hle : offset + bs.length ≤ d.store.length) :
    d.Grows { d with store := splice offset bs d.store } := by
  have hlength := length_splice_of_le hle
  refine ⟨⟨?_, ?_⟩, Nat.le_of_eq hlength.symm, rfl⟩ <;> dsimp only <;> rw [hlength]
  · exact h.head_le
  · exact h.length_lt

/-- Work that writes given bytes, if the store can be made long enough for all of them. -/
structure Writes (bs : List UInt8) (work : Work Unit) : Prop where
  eq_ok {d : Deck} : d.Sound → d.head + bs.length < storeLimit → work d = .ok () (d.written bs)
  eq_full {d : Deck} : d.Sound → storeLimit ≤ d.head + bs.length →
    ∃ d', work d = .error .full d' ∧ d.Grows d'

theorem writes_write (hbs : bs.length < storeLimit) : Writes bs (write bs) where
  eq_ok h hroom := by rw [write_eq h hbs, if_pos hroom]
  eq_full {d} h hfull := by
    refine ⟨d, ?_, h.grows⟩
    rw [write_eq h hbs, if_neg (Nat.not_lt.mpr hfull)]

/-- Work in sequence writes the bytes in sequence. -/
theorem Writes.seq {work work' : Work Unit} (h : Writes bs work) (h' : Writes cs work') :
    Writes (bs ++ cs) (work >>= fun _ => work') where
  eq_ok {d} hd hroom := by
    rw [List.length_append] at hroom
    have hfirst : d.head + bs.length < storeLimit := by omega
    have hthen : (d.written bs).head + cs.length < storeLimit := by
      rw [head_written]
      omega
    rw [bind_of_ok (h.eq_ok hd hfirst), h'.eq_ok (hd.written hfirst) hthen, hd.written_written]
  eq_full {d} hd hfull := by
    rw [List.length_append] at hfull
    by_cases hfirst : d.head + bs.length < storeLimit
    · have hthen : storeLimit ≤ (d.written bs).head + cs.length := by
        rw [head_written]
        omega
      obtain ⟨d', herror, hgrows⟩ := h'.eq_full (hd.written hfirst) hthen
      exact ⟨d', (bind_of_ok (h.eq_ok hd hfirst) _).trans herror,
        (hd.grows_written hfirst).trans hgrows⟩
    · obtain ⟨d', herror, hgrows⟩ := h.eq_full hd (Nat.not_lt.mp hfirst)
      exact ⟨d', bind_of_error herror _, hgrows⟩

theorem writes_writeNat {width : Nat} (hwidth : width < storeLimit) (n : Nat) :
    Writes (LittleEndian.toBytes width n) (writeNat width n) :=
  writes_write (by rwa [LittleEndian.length_toBytes])

theorem writes_writePrefixed (hlength : bs.length < lengthLimit) :
    Writes (Value.lengthPrefixed bs) (writePrefixed bs) := by
  rw [writePrefixed, if_pos hlength]
  exact (writes_writeNat (by decide) _).seq
    (writes_write (Nat.lt_trans hlength (by decide)))

theorem writePrefixed_of_le (hlength : lengthLimit ≤ bs.length) (d : Deck) :
    writePrefixed bs d = .error (.refused (.tooLong bs.length)) d := by
  rw [writePrefixed, if_neg (Nat.not_lt.mpr hlength)]
  rfl

/-- A value is written in its wire form. -/
theorem writes_writeValue {v : Value} (hv : v.Fits) : Writes v.wire (writeValue v) := by
  cases v with
  | i32 v | u32 v | f64 v => exact writes_writeNat (by decide) _
  | u8 v => exact writes_write (show 1 < storeLimit by decide)
  | bytes v | string v => exact writes_writePrefixed hv

theorem writeValue_of_not_fits {v : Value} (hv : ¬ v.Fits) (d : Deck) :
    writeValue v d = .error (.refused (.tooLong v.payload.length)) d := by
  cases v with
  | i32 | u32 | f64 | u8 => exact absurd (Value.fits_of_isNumeric rfl) hv
  | bytes v | string v => exact writePrefixed_of_le (Nat.not_lt.mp hv) d

theorem encode_of_eq_none {k : Kind} {v : Value} (hv : k.coerce v = none) (d : Deck) :
    encode k v d = .error (.refused (.mismatch k)) d := by
  rw [encode, hv]
  rfl

theorem encode_of_eq_some {k : Kind} {v w : Value} (hv : k.coerce v = some w) :
    encode k v = writeValue w := by
  rw [encode, hv]

theorem writes_encode {k : Kind} {v w : Value} (hv : k.coerce v = some w) (hw : w.Fits) :
    Writes w.wire (encode k v) := by
  rw [encode_of_eq_some hv]
  exact writes_writeValue hw

/-! ### The tape of a deck -/

theorem tape_bytes (d : Deck) : d.tape.bytes = d.store := List.take_append_drop d.head d.store

theorem tape_remaining (d : Deck) : d.tape.remaining = d.store.length - d.head := List.length_drop

theorem Sound.tape_pos (h : d.Sound) : d.tape.pos = d.head := List.length_take_of_le h.head_le

theorem tape_size (d : Deck) : d.tape.size = d.store.length := by
  rw [← tape_bytes d, Tape.bytes, List.length_append]
  rfl

theorem take_tape_of_le (h : d.Sound) (hle : d.head + count ≤ d.store.length) :
    Tape.take count d.tape =
      .ok ((d.store.drop d.head).take count) (tape { d with head := d.head + count }) := by
  have hcount : count ≤ d.tape.remaining := by
    rw [tape_remaining]
    have := h.head_le
    omega
  rw [Tape.take, if_pos hcount]
  simp only [tape, List.take_add, List.drop_drop]

theorem take_tape_of_gt (h : d.Sound) (hgt : d.store.length < d.head + count) :
    Tape.take count d.tape = .error (.truncated d.head count) d.tape := by
  have hcount : ¬ count ≤ d.tape.remaining := by
    rw [tape_remaining]
    have := h.head_le
    omega
  rw [Tape.take, if_neg hcount, h.tape_pos]

theorem Read.onTape_tape_of_gt (h : d.Sound) {r : Read}
    (hgt : d.store.length < d.head + r.width) :
    r.onTape d.tape = .error (.truncated d.head r.width) d.tape := by
  have htake := take_tape_of_gt h hgt
  cases r with
  | byte | word | double => exact map_of_error (map_of_error (map_of_error htake _) _) _
  | int => exact map_of_error (map_of_error (map_of_error (map_of_error htake _) _) _) _
  | bytes count => exact map_of_error htake _
  | text count =>
    refine map_of_error ?_ _
    rw [Tape.readText, show Tape.take count d.tape = _ from htake]

theorem Read.onTape_tape_of_le (h : d.Sound) {r : Read}
    (hle : d.head + r.width ≤ d.store.length) :
    r.onTape d.tape =
      conclude (.malformedText d.head) (tape { d with head := d.head + r.width })
        (r.value? ((d.store.drop d.head).take r.width)) := by
  have htake := take_tape_of_le h hle
  cases r with
  | byte | word | double => exact map_of_ok (map_of_ok (map_of_ok htake _) _) _
  | int => exact map_of_ok (map_of_ok (map_of_ok (map_of_ok htake _) _) _) _
  | bytes count => exact map_of_ok htake _
  | text count =>
    have hread : Tape.readText count d.tape =
        conclude (.malformedText d.head) (tape { d with head := d.head + count })
          (Text.ofUtf8? ((d.store.drop d.head).take count)) := by
      rw [Tape.readText, show Tape.take count d.tape = _ from htake, h.tape_pos]
      dsimp only [width]
      cases Text.ofUtf8? ((d.store.drop d.head).take count) <;> rfl
    exact map_of_conclude hread _

/-- A result on the tape that a deck holds. -/
def toTape {α : Type} : EStateM.Result Failure Deck α → EStateM.Result Failure Tape α
  | .ok a d => .ok a d.tape
  | .error e d => .error e d.tape

theorem seek_tape (d : Deck) (offset : Nat) :
    d.tape.seek offset =
      if offset ≤ d.store.length then .ok (tape { d with head := offset })
      else .error .outOfBounds := by
  rw [Tape.seek, tape_size, tape_bytes]
  rfl

theorem peek_tape (d : Deck) (offset count : Nat) :
    d.tape.peek offset count =
      if offset + count ≤ d.store.length then .ok ((d.store.drop offset).take count)
      else if Tape.offsetLimit ≤ offset + count then .error .outOfBounds
      else .error (.truncated offset count) := by
  rw [Tape.peek, tape_size, tape_bytes]

theorem Sound.write_tape (h : d.Sound) (bs : List UInt8) :
    d.tape.write bs = (d.written bs).tape := by
  rw [Tape.write, tape.eq_def (d.written bs), head_written, h.take_written, h.drop_written,
    ← List.drop_drop]
  rfl

theorem Sound.patch_tape (h : d.Sound) (offset : Nat) (bs : List UInt8) :
    d.tape.patch offset bs =
      if offset + bs.length ≤ d.store.length then
        .ok (tape { d with store := splice offset bs d.store })
      else .error .outOfBounds := by
  rw [Tape.patch, tape_size, tape_bytes, h.tape_pos]
  rfl

end Deck

end Bytecode
