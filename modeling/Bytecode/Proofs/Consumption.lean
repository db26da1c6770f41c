import Bytecode.Proofs.Framing

/-!
# What a read consumes

A read of a deck succeeds exactly when there are enough bytes, and when they are a text if a text is
to be read (`Read.exists_run_eq_ok_iff`). It then yields what the bytes stand for and moves the head
over them. The tape of the deck is read in the same way.

A read that fails leaves the deck as it is, with one exception: bytes that are found not to be a
text are consumed. `read_finds_or_misses` has both, and `malformed_text_is_consumed` is an instance
of the exception.
-/

namespace Bytecode

/-- The bytes of a value as such, without a length word. -/
def Value.content (v : Value) : List UInt8 := if v.kind.isNumeric then v.wire else v.payload

namespace Deck

variable {d d' : Deck} {r : Read} {v : Value}

namespace Read

/-! ### Values and their bytes -/

/-- A successful read yields the value of its kind whose bytes are the next ones. -/
theorem passes_of_onTape_eq_ok {t t' : Tape} (h : r.onTape t = .ok v t') :
    v.kind = r.kind ∧ v.content.length = r.width ∧ t.Passes v.content t' := by
  cases r with
  | byte =>
    obtain ⟨b, hb, rfl⟩ := Tape.Reading.map_eq_ok_iff.mp h
    exact ⟨rfl, rfl, Tape.readByte_eq_ok_iff.mp hb⟩
  | word =>
    obtain ⟨w, hw, rfl⟩ := Tape.Reading.map_eq_ok_iff.mp h
    exact ⟨rfl, LittleEndian.length_toBytes 4 _, Tape.readWord_eq_ok_iff.mp hw⟩
  | int =>
    obtain ⟨i, hi, rfl⟩ := Tape.Reading.map_eq_ok_iff.mp h
    exact ⟨rfl, LittleEndian.length_toBytes 4 _, Tape.readInt_eq_ok_iff.mp hi⟩
  | double =>
    obtain ⟨x, hx, rfl⟩ := Tape.Reading.map_eq_ok_iff.mp h
    exact ⟨rfl, LittleEndian.length_toBytes 8 _, Tape.readDouble_eq_ok_iff.mp hx⟩
  | bytes count =>
    obtain ⟨bs, hbs, rfl⟩ := Tape.Reading.map_eq_ok_iff.mp h
    obtain ⟨hlength, hpasses⟩ := Tape.take_eq_ok_iff.mp hbs
    exact ⟨rfl, hlength, hpasses⟩
  | text count =>
    obtain ⟨s, hs, rfl⟩ := Tape.Reading.map_eq_ok_iff.mp h
    obtain ⟨hlength, hpasses⟩ := Tape.readText_eq_ok_iff.mp hs
    exact ⟨rfl, hlength, hpasses⟩

/-- Bytes say nothing only if they should be a text and are none. -/
theorem value?_eq_none_iff {bs : List UInt8} :
    r.value? bs = none ↔ r.kind = .string ∧ ∀ s, Text.utf8 s ≠ bs := by
  cases r with
  | text count =>
    have hkind : (text count).kind = .string := rfl
    rw [value?, Option.map_eq_none_iff, and_iff_right hkind, Option.eq_none_iff_forall_ne_some]
    exact forall_congr' fun s => not_congr Text.ofUtf8?_eq_some_iff
  | byte | word | int | double | bytes => simp [value?, kind]

/-! ### Success and failure -/

/-- A read succeeds if there are enough bytes, which are a text if one is to be read, and not
otherwise. -/
theorem exists_run_eq_ok_iff (h : d.Sound) :
    (∃ v d', r.run d = .ok v d') ↔
      d.head + r.width ≤ d.store.length ∧
        (r.kind = .string → ∃ s, Text.utf8 s = (d.store.drop d.head).take r.width) := by
  by_cases hle : d.head + r.width ≤ d.store.length
  · rw [run_of_le h hle, and_iff_right hle]
    cases hv : r.value? ((d.store.drop d.head).take r.width) with
    | some v =>
      refine iff_of_true ⟨v, _, rfl⟩ fun hkind => ?_
      by_contra hnone
      rw [value?_eq_none_iff.mpr ⟨hkind, not_exists.mp hnone⟩] at hv
      cases hv
    | none =>
      obtain ⟨hkind, hnone⟩ := value?_eq_none_iff.mp hv
      refine iff_of_false (by rintro ⟨v, d', ⟨⟩⟩) fun htext => ?_
      obtain ⟨s, hs⟩ := htext hkind
      exact hnone s hs
  · rw [run_of_gt h (Nat.not_le.mp hle)]
    exact iff_of_false (by rintro ⟨v, d', ⟨⟩⟩) fun htext => hle htext.1

/-- What a read comes to if it succeeds. -/
structure Finds (r : Read) (d : Deck) (v : Value) (d' : Deck) : Prop where
  kind_eq : v.kind = r.kind
  content_eq : v.content = (d.store.drop d.head).take r.width
  /-- The head has moved over the bytes, and nothing else has changed. -/
  deck_eq : d' = { d with head := d.head + r.width }
  onTape_tape : r.onTape d.tape = .ok v d'.tape

theorem finds_of_run_eq_ok (h : d.Sound) (hrun : r.run d = .ok v d') : r.Finds d v d' := by
  have hle : d.head + r.width ≤ d.store.length := ((exists_run_eq_ok_iff h).mp ⟨v, d', hrun⟩).1
  have htape := onTape_tape_of_le h hle
  rw [run_of_le h hle] at hrun
  cases hv : r.value? ((d.store.drop d.head).take r.width) with
  | none =>
    rw [hv] at hrun
    cases hrun
  | some v' =>
    rw [hv] at hrun htape
    cases hrun
    obtain ⟨hkind, hlength, hpasses⟩ := passes_of_onTape_eq_ok htape
    have hahead : d.store.drop d.head = v.content ++ _ := hpasses.after_eq
    refine ⟨hkind, ?_, rfl, htape⟩
    rw [hahead, List.take_left' hlength]

/-- What a read comes to if it fails. -/
inductive Misses (r : Read) (d : Deck) : Failure → Deck → Prop where
  /-- There are too few bytes, and nothing has changed. -/
  | short : d.store.length < d.head + r.width →
    r.onTape d.tape = .error (.truncated d.head r.width) d.tape →
    Misses r d (.fault (.truncated d.head r.width)) d
  /-- The bytes are not a text, and the head has moved over them. -/
  | malformed : r.kind = .string → 0 < r.width → d.head + r.width ≤ d.store.length →
    (∀ s, Text.utf8 s ≠ (d.store.drop d.head).take r.width) →
    r.onTape d.tape = .error (.malformedText d.head) (tape { d with head := d.head + r.width }) →
    Misses r d (.fault (.malformedText d.head)) { d with head := d.head + r.width }

theorem misses_of_run_eq_error (h : d.Sound) {e : Failure} (hrun : r.run d = .error e d') :
    r.Misses d e d' := by
  by_cases hle : d.head + r.width ≤ d.store.length
  · have htape := onTape_tape_of_le h hle
    rw [run_of_le h hle] at hrun
    cases hv : r.value? ((d.store.drop d.head).take r.width) with
    | some v =>
      rw [hv] at hrun
      cases hrun
    | none =>
      rw [hv] at hrun htape
      cases hrun
      obtain ⟨hkind, hnone⟩ := value?_eq_none_iff.mp hv
      -- no bytes at all are a text, the empty one
      have hwidth : 0 < r.width := by
        refine Nat.pos_of_ne_zero fun hzero => hnone "" ?_
        rw [hzero, List.take_zero]
        rfl
      exact .malformed hkind hwidth hle hnone htape
  · have hgt := Nat.not_le.mp hle
    rw [run_of_gt h hgt] at hrun
    cases hrun
    exact .short hgt (onTape_tape_of_gt h hgt)

end Read

/-- **What a read consumes.** Whatever has been done to a deck since it came about, a read succeeds
exactly if there are as many bytes as it asks for, which are a text if one is to be read. Then it
consumes just these bytes. If it fails, it consumes all of them when they are no text, and else
nothing. -/
theorem read_finds_or_misses (origin : Origin) (actions : List Action) (r : Read) :
    let d := after actions origin.deck
    ((∃ v d', r.run d = .ok v d') ↔
      d.head + r.width ≤ d.store.length ∧
        (r.kind = .string → ∃ s, Text.utf8 s = (d.store.drop d.head).take r.width)) ∧
    (∀ v d', r.run d = .ok v d' → r.Finds d v d') ∧
    (∀ e d', r.run d = .error e d' → r.Misses d e d') := by
  intro d
  have h : d.Sound := origin.sound_after actions
  exact ⟨Read.exists_run_eq_ok_iff h, fun v d' => Read.finds_of_run_eq_ok h,
    fun e d' => Read.misses_of_run_eq_error h⟩

/-- Three bytes, of which the first has been read. -/
theorem read_finds_or_misses_of_sample :
    let origin := Origin.fixed ⟨[2, 0xFF, 1], by decide⟩
    let d : Deck := ⟨[2, 0xFF, 1], 1, false⟩
    after [.read .byte] origin.deck = d ∧
      (Read.bytes 2).Finds d (.bytes [0xFF, 1]) ⟨[2, 0xFF, 1], 3, false⟩ ∧
      Read.word.Misses d (.fault (.truncated 1 4)) d ∧
      (Read.text 1).Misses d (.fault (.malformedText 1)) ⟨[2, 0xFF, 1], 2, false⟩ := by
  intro origin d
  have htext : (Read.text 1).run ⟨[2, 0xFF, 1], 1, false⟩ =
      .error (.fault (.malformedText 1)) ⟨[2, 0xFF, 1], 2, false⟩ := rfl
  have hread := read_finds_or_misses origin [.read .byte]
  exact ⟨rfl, (hread (.bytes 2)).2.1 _ _ rfl, (hread .word).2.2 _ _ rfl,
    (hread (.text 1)).2.2 _ _ htext⟩

/-- Reading the byte `0xFF` as a text fails, and the byte is gone. -/
theorem malformed_text_is_consumed :
    (Read.text 1).run (Origin.fixed ⟨[0xFF], by decide⟩).deck =
        .error (.fault (.malformedText 0)) ⟨[0xFF], 1, false⟩ ∧
      ¬ ∀ (origin : Origin) (actions : List Action) (r : Read) (e : Failure) (d' : Deck),
        r.run (after actions origin.deck) = .error e d' → d' = after actions origin.deck := by
  have hrun : (Read.text 1).run (Origin.fixed ⟨[0xFF], by decide⟩).deck =
      .error (.fault (.malformedText 0)) ⟨[0xFF], 1, false⟩ := rfl
  refine ⟨hrun, fun h => ?_⟩
  have hsame := h (.fixed ⟨[0xFF], by decide⟩) [] (.text 1) _ _ hrun
  revert hsame
  decide

end Deck

end Bytecode
