import Bytecode.Proofs.Naming

/-!
# Text that can be read off

A listing puts one piece of text behind another and never says how long they are. A piece is legible
(`Legible`) if it can be read off the text what was written and where it ends, as long as nothing
follows or something that begins with a character that stops it.

Numbers are stopped by whatever is no part of a number (`legible_toString_int`). Byte strings and
quoted texts stop by themselves, since no byte and no escaped character begins with the sign that
closes them (`legible_hexByte`, `legible_escapeChar`). So values of a kind are legible
(`Value.legible_text`), doubles apart: not-a-numbers are all written alike. Legible pieces stay so
in a row, whether their number is told by what closes the row (`Legible.eq_of_flatMap`) or by the
fields that they are for (`Legible.eq_of_forall₂`).

No value is written with a line feed (`Value.lineFeed_notMem_text`).
-/

namespace Bytecode

/-! ### Legible pieces -/

section

variable {α σ : Type} {Admitted : α → Prop} {write : α → List Char} {Stops : Char → Prop}

/-- Admitted things are written so that it can be read off what they are and where they end, if
nothing follows or something that begins with a stop. -/
def Legible (Admitted : α → Prop) (write : α → List Char) (Stops : Char → Prop) : Prop :=
  ∀ ⦃a a' rest rest'⦄, Admitted a → Admitted a' → (∀ c ∈ rest.head?, Stops c) →
    (∀ c ∈ rest'.head?, Stops c) → write a ++ rest = write a' ++ rest' → a = a' ∧ rest = rest'

/-- What is written with certain characters is stopped by all others. -/
theorem legible_of_forall_mem {p : Char → Bool}
    (hinj : ∀ a a', Admitted a → Admitted a' → write a = write a' → a = a')
    (hmem : ∀ a, Admitted a → ∀ c ∈ write a, p c) : Legible Admitted write (p · = false) := by
  intro a a' rest rest' ha ha' hrest hrest' heq
  have hstop {rest : List Char} (hrest : ∀ c ∈ rest.head?, p c = false) :
      rest.takeWhile p = [] := by
    cases rest with
    | nil => rfl
    | cons c rest => exact List.takeWhile_cons_of_neg (by simp [hrest c rfl])
  have hwrite := congrArg (List.takeWhile p) heq
  rw [List.takeWhile_append_of_pos (hmem a ha), List.takeWhile_append_of_pos (hmem a' ha'),
    hstop hrest, hstop hrest', List.append_nil, List.append_nil] at hwrite
  rw [hwrite] at heq
  exact ⟨hinj a a' ha ha' hwrite, List.append_cancel_left heq⟩

theorem Legible.mono {Stops' : Char → Prop} (h : Legible Admitted write Stops)
    (hstops : ∀ c, Stops' c → Stops c) : Legible Admitted write Stops' :=
  fun _ _ _ _ ha ha' hrest hrest' heq =>
    h ha ha' (fun c hc => hstops c (hrest c hc)) (fun c hc => hstops c (hrest' c hc)) heq

/-- Pieces in a row are read off if what closes the row is no piece. -/
theorem Legible.eq_of_flatMap (h : Legible Admitted write fun _ => True) {xs ys : List α}
    {rest rest' : List Char} (hxs : ∀ x ∈ xs, Admitted x) (hys : ∀ y ∈ ys, Admitted y)
    (hrest : ∀ a tail, Admitted a → write a ++ tail ≠ rest)
    (hrest' : ∀ a tail, Admitted a → write a ++ tail ≠ rest')
    (heq : xs.flatMap write ++ rest = ys.flatMap write ++ rest') : xs = ys ∧ rest = rest' := by
  induction xs generalizing ys with
  | nil =>
    cases ys with
    | nil => exact ⟨rfl, heq⟩
    | cons y ys =>
      rw [List.flatMap_nil, List.nil_append, List.flatMap_cons, List.append_assoc] at heq
      exact absurd heq.symm (hrest y _ (hys y List.mem_cons_self))
  | cons x xs ih =>
    obtain ⟨hx, hxs⟩ := List.forall_mem_cons.mp hxs
    rw [List.flatMap_cons, List.append_assoc] at heq
    cases ys with
    | nil => exact absurd heq (hrest' x _ hx)
    | cons y ys =>
      obtain ⟨hy, hys'⟩ := List.forall_mem_cons.mp hys
      rw [List.flatMap_cons, List.append_assoc] at heq
      obtain ⟨rfl, hbehind⟩ := h hx hy (fun _ _ => trivial) (fun _ _ => trivial) heq
      obtain ⟨rfl, hclose⟩ := ih hxs hys' hbehind
      exact ⟨rfl, hclose⟩

/-- Pieces in a row, one for each of some given fields, are read off if each begins with a stop. -/
theorem Legible.eq_of_forall₂ {Admits : σ → α → Prop} {fields : List σ} {xs ys : List α}
    {rest rest' : List Char} (h : ∀ field ∈ fields, Legible (Admits field) write Stops)
    (hopens : ∀ a, ∃ c tail, write a = c :: tail ∧ Stops c) (hxs : List.Forall₂ Admits fields xs)
    (hys : List.Forall₂ Admits fields ys) (hrest : ∀ c ∈ rest.head?, Stops c)
    (hrest' : ∀ c ∈ rest'.head?, Stops c)
    (heq : xs.flatMap write ++ rest = ys.flatMap write ++ rest') : xs = ys ∧ rest = rest' := by
  -- behind a piece comes the next one or what closes the row, and both begin with a stop
  have hstop (zs : List α) {rest : List Char} (hrest : ∀ c ∈ rest.head?, Stops c) :
      ∀ c ∈ (zs.flatMap write ++ rest).head?, Stops c := by
    cases zs with
    | nil => exact hrest
    | cons z zs =>
      obtain ⟨c, tail, hz, hc⟩ := hopens z
      rw [List.flatMap_cons, hz]
      intro c' hc'
      exact Option.some.inj hc' ▸ hc
  induction hxs generalizing ys with
  | nil =>
    cases hys
    exact ⟨rfl, heq⟩
  | @cons field x fields xs hx _ ih =>
    obtain ⟨y, ys, hy, hys', rfl⟩ := List.forall₂_cons_left_iff.mp hys
    obtain ⟨hfield, hfields⟩ := List.forall_mem_cons.mp h
    rw [List.flatMap_cons, List.flatMap_cons, List.append_assoc, List.append_assoc] at heq
    obtain ⟨rfl, hbehind⟩ := hfield hx hy (hstop xs hrest) (hstop ys hrest') heq
    obtain ⟨rfl, hclose⟩ := ih hfields hys' hbehind
    exact ⟨rfl, hclose⟩

end

/-! ### Numbers -/

/-- Whether a character is part of a decimal number. -/
def isNumeral (c : Char) : Bool := c.isDigit || c == '-'

theorem isDigit_of_mem_repr {n : ℕ} {c : Char} (hc : c ∈ n.repr.toList) : c.isDigit = true := by
  rw [Nat.repr_eq_ofList_toDigits, String.toList_ofList] at hc
  exact Nat.isDigit_of_mem_toDigits (by decide) (by decide) hc

theorem isNumeral_of_mem_toString {n : ℤ} {c : Char} (hc : c ∈ (toString n).toList) :
    isNumeral c = true := by
  rw [Int.toString_eq_repr, Int.repr_eq_if] at hc
  rw [isNumeral, Bool.or_eq_true, beq_iff_eq]
  split at hc
  · exact Or.inl (isDigit_of_mem_repr hc)
  · rw [String.toList_append, List.mem_append] at hc
    exact hc.symm.imp isDigit_of_mem_repr List.mem_singleton.mp

theorem eq_of_repr_eq {m n : ℕ} (h : m.repr = n.repr) : m = n := by
  rw [Nat.repr_eq_ofList_toDigits, Nat.repr_eq_ofList_toDigits, String.ofList_inj] at h
  have hvalue := congrArg (Nat.ofDigitChars 10 · 0) h
  simpa only [Nat.ofDigitChars_ten_toDigits] using hvalue

/-- No natural number is written with a sign. -/
theorem repr_ne_append_minus (m n : ℕ) : m.repr ≠ "-" ++ n.repr := by
  intro h
  have hminus : '-' ∈ m.repr.toList := by
    rw [h, String.toList_append]
    exact List.mem_cons_self
  exact absurd (isDigit_of_mem_repr hminus) (by decide)

theorem eq_of_toString_eq {m n : ℤ} (h : toString m = toString n) : m = n := by
  rw [Int.toString_eq_repr, Int.toString_eq_repr, Int.repr_eq_if, Int.repr_eq_if] at h
  split_ifs at h with hm hn hn
  · have hsame := eq_of_repr_eq h
    omega
  · exact absurd h (repr_ne_append_minus _ _)
  · exact absurd h.symm (repr_ne_append_minus _ _)
  · rw [← String.toList_inj, String.toList_append, String.toList_append] at h
    have hsame := eq_of_repr_eq (String.toList_inj.mp (List.append_cancel_left h))
    omega

theorem legible_toString_int :
    Legible (fun _ : ℤ => True) (fun n => (toString n).toList) (isNumeral · = false) := by
  apply legible_of_forall_mem
  · exact fun m n _ _ h => eq_of_toString_eq (String.toList_inj.mp h)
  · exact fun n _ c hc => isNumeral_of_mem_toString hc

/-! ### Hexadecimal -/

theorem digitChar_inj {m n : ℕ} (hm : m < 16) (hn : n < 16) (h : m.digitChar = n.digitChar) :
    m = n := by
  have hall : ∀ m n : Fin 16, m.val.digitChar = n.val.digitChar → m = n := by decide
  exact congrArg Fin.val (hall ⟨m, hm⟩ ⟨n, hn⟩ h)

theorem legible_hexByte : Legible (fun _ => True) Text.hexByte fun _ => True := by
  intro b b' rest rest' _ _ _ _ heq
  obtain ⟨hhigh, hlow, hrest⟩ : _ ∧ _ ∧ _ := by
    simpa [Text.hexByte] using heq
  have hb := UInt8.toNat_lt b
  have hb' := UInt8.toNat_lt b'
  have hhigh := digitChar_inj (by omega) (by omega) hhigh
  have hlow := digitChar_inj (by omega) (by omega) hlow
  exact ⟨UInt8.toNat_inj.mp (by omega), hrest⟩

theorem exists_digitChar_of_mem_hexDigits {n : ℕ} {c : Char} (hc : c ∈ Text.hexDigits n) :
    ∃ d, c = Nat.digitChar d := by
  rw [Text.hexDigits] at hc
  induction n using Nat.strong_induction_on with
  | _ n ih =>
    rcases Nat.lt_or_ge n 16 with hlt | hle
    · rw [Nat.toDigits_of_lt_base hlt] at hc
      exact ⟨n, List.mem_singleton.mp hc⟩
    · rw [Nat.toDigits_of_base_le (by decide) hle, List.mem_append] at hc
      rcases hc with hc | hc
      · exact ih (n / 16) (Nat.div_lt_self (by omega) (by decide)) hc
      · exact ⟨n % 16, List.mem_singleton.mp hc⟩

theorem hexDigits_inj {m n : ℕ} (h : Text.hexDigits m = Text.hexDigits n) : m = n := by
  -- one digit against several
  have hne (c d : Char) (n : ℕ) : [c] ≠ Nat.toDigits 16 n ++ [d] := fun h => by
    have hpos := Nat.length_toDigits_pos (b := 16) (n := n)
    have hlength := congrArg List.length h
    rw [List.length_append, List.length_singleton, List.length_singleton] at hlength
    omega
  rw [Text.hexDigits, Text.hexDigits] at h
  induction m using Nat.strong_induction_on generalizing n with
  | _ m ih =>
    rw [Nat.toDigits_eq_if (by decide), Nat.toDigits_eq_if (n := n) (by decide)] at h
    split_ifs at h with hm hn hn
    · exact digitChar_inj hm hn (List.singleton_inj.mp h)
    · exact absurd h (hne _ _ _)
    · exact absurd h.symm (hne _ _ _)
    · obtain ⟨hdiv, hmod⟩ := List.append_inj' h rfl
      have hdiv := ih (m / 16) (Nat.div_lt_self (by omega) (by decide)) hdiv
      have hmod := digitChar_inj (Nat.mod_lt m (by decide)) (Nat.mod_lt n (by decide))
        (List.singleton_inj.mp hmod)
      omega

theorem legible_hexDigits :
    Legible (fun _ => True) Text.hexDigits ((fun c => c != '}') · = false) := by
  apply legible_of_forall_mem
  · exact fun _ _ _ _ h => hexDigits_inj h
  · intro n _ c hc
    obtain ⟨d, rfl⟩ := exists_digitChar_of_mem_hexDigits hc
    simp

/-! ### Quoted text -/

/-- The characters that are escaped by a letter, with their letters. -/
def letterEscapes : List (Char × Char) :=
  [('\x00', '0'), ('\t', 't'), ('\r', 'r'), ('\n', 'n'), ('"', '"'), ('\\', '\\')]

/-- A character is escaped by a letter or by its code point, or stands for itself. -/
theorem escapeChar_cases (c : Char) :
    (∃ e, (c, e) ∈ letterEscapes ∧ Text.escapeChar c = ['\\', e]) ∨
      Text.escapeChar c = Text.codePointEscape c ∨
      (c ≠ '\\' ∧ c ≠ '"' ∧ c ≠ '\n' ∧ Text.escapeChar c = [c]) := by
  unfold Text.escapeChar
  split_ifs with h0 ht hr hn hquote hbackslash hhidden
  · exact Or.inl ⟨'0', by rw [h0]; decide, rfl⟩
  · exact Or.inl ⟨'t', by rw [ht]; decide, rfl⟩
  · exact Or.inl ⟨'r', by rw [hr]; decide, rfl⟩
  · exact Or.inl ⟨'n', by rw [hn]; decide, rfl⟩
  · exact Or.inl ⟨'"', by rw [hquote]; decide, rfl⟩
  · exact Or.inl ⟨'\\', by rw [hbackslash]; decide, rfl⟩
  · exact Or.inr (Or.inl rfl)
  · exact Or.inr (Or.inr ⟨hbackslash, hquote, hn, rfl⟩)

theorem legible_escapeChar : Legible (fun _ => True) Text.escapeChar fun _ => True := by
  have hletter : ∀ entry ∈ letterEscapes, entry.2 ≠ 'u' := by decide
  have hinj : ∀ entry ∈ letterEscapes, ∀ entry' ∈ letterEscapes,
      entry.2 = entry'.2 → entry.1 = entry'.1 := by decide
  intro c c' rest rest' _ _ _ _ heq
  rcases escapeChar_cases c with ⟨e, he, hc⟩ | hc | ⟨hbackslash, -, -, hc⟩ <;>
    rcases escapeChar_cases c' with ⟨e', he', hc'⟩ | hc' | ⟨hbackslash', -, -, hc'⟩ <;>
    rw [hc, hc'] at heq
  -- both begin with a backslash or neither does, and then the next character decides
  · obtain ⟨heq, hrest⟩ : e = e' ∧ rest = rest' := by simpa using heq
    exact ⟨hinj _ he _ he' heq, hrest⟩
  · obtain ⟨hu, -⟩ : e = 'u' ∧ _ := by simpa [Text.codePointEscape] using heq
    exact absurd hu (hletter _ he)
  · obtain ⟨hsame, -⟩ : '\\' = c' ∧ _ := by simpa using heq
    exact absurd hsame.symm hbackslash'
  · obtain ⟨hu, -⟩ : 'u' = e' ∧ _ := by simpa [Text.codePointEscape] using heq
    exact absurd hu.symm (hletter _ he')
  · have hdigits : Text.hexDigits c.toNat ++ '}' :: rest = Text.hexDigits c'.toNat ++ '}' :: rest' := by
      simpa [Text.codePointEscape] using heq
    obtain ⟨hsame, hrest⟩ := legible_hexDigits trivial trivial (by simp) (by simp) hdigits
    exact ⟨Char.toNat_inj.mp hsame, (List.cons.inj hrest).2⟩
  · obtain ⟨hsame, -⟩ : '\\' = c' ∧ _ := by simpa [Text.codePointEscape] using heq
    exact absurd hsame.symm hbackslash'
  · obtain ⟨hsame, -⟩ : c = '\\' ∧ _ := by simpa using heq
    exact absurd hsame hbackslash
  · obtain ⟨hsame, -⟩ : c = '\\' ∧ _ := by simpa [Text.codePointEscape] using heq
    exact absurd hsame hbackslash
  · simpa using heq

/-- No character between quotes begins like the quote that closes. -/
theorem escapeChar_append_ne (c : Char) (tail rest : List Char) :
    Text.escapeChar c ++ tail ≠ '"' :: rest := by
  intro heq
  rcases escapeChar_cases c with ⟨e, -, hc⟩ | hc | ⟨-, hquote, -, hc⟩
  · rw [hc] at heq
    simp at heq
  · rw [hc] at heq
    simp [Text.codePointEscape] at heq
  · rw [hc] at heq
    exact hquote (List.cons.inj heq).1

/-! ### Values -/

namespace Value

variable {v : Value} {k : Kind}

/-- A value of an integer kind is written as the integer from which it can be made. -/
theorem exists_int (hv : v.kind = k) (hk : k = .i32 ∨ k = .u32 ∨ k = .u8) :
    ∃ n : ℤ, v.text = toString n ∧ k.ofInt? n = some v := by
  subst hv
  cases v with
  | i32 x => exact ⟨x.toInt, rfl, Kind.ofInt?_toInt x⟩
  | u32 x => exact ⟨x.toNat, rfl, Kind.ofInt?_toNat_word x⟩
  | u8 x => exact ⟨x.toNat, rfl, Kind.ofInt?_toNat_byte x⟩
  | f64 x => simp [kind] at hk
  | bytes x => simp [kind] at hk
  | string x => simp [kind] at hk

theorem legible_text_of_int (hk : k = .i32 ∨ k = .u32 ∨ k = .u8) :
    Legible (fun v : Value => v.kind = k) (·.text.toList) (isNumeral · = false) := by
  intro v v' rest rest' hv hv' hrest hrest' heq
  obtain ⟨n, htext, hmake⟩ := exists_int hv hk
  obtain ⟨n', htext', hmake'⟩ := exists_int hv' hk
  dsimp only at heq
  rw [htext, htext'] at heq
  obtain ⟨rfl, hclose⟩ := legible_toString_int trivial trivial hrest hrest' heq
  exact ⟨Option.some.inj (hmake.symm.trans hmake'), hclose⟩

theorem legible_text_bytes :
    Legible (fun v : Value => v.kind = .bytes) (·.text.toList) fun _ => True := by
  intro v v' rest rest' hv hv' _ _ heq
  cases v <;> cases hv
  cases v' <;> cases hv'
  rename_i bs bs'
  have hopened : bs.flatMap Text.hexByte ++ '>' :: rest = bs'.flatMap Text.hexByte ++ '>' :: rest' := by
    simpa [text, Text.hexBytes] using heq
  have hclose (b : UInt8) (tail rest : List Char) : Text.hexByte b ++ tail ≠ '>' :: rest := by
    intro h
    exact Nat.digitChar_ne '>' (by decide) (List.cons.inj h).1
  obtain ⟨rfl, hrest⟩ := legible_hexByte.eq_of_flatMap (fun _ _ => trivial) (fun _ _ => trivial)
    (fun b tail _ => hclose b tail rest) (fun b tail _ => hclose b tail rest') hopened
  exact ⟨rfl, (List.cons.inj hrest).2⟩

theorem legible_text_string :
    Legible (fun v : Value => v.kind = .string) (·.text.toList) fun _ => True := by
  intro v v' rest rest' hv hv' _ _ heq
  cases v <;> cases hv
  cases v' <;> cases hv'
  rename_i s s'
  have hopened : s.toList.flatMap Text.escapeChar ++ '"' :: rest =
      s'.toList.flatMap Text.escapeChar ++ '"' :: rest' := by
    simpa [text, Text.quoted] using heq
  obtain ⟨hsame, hrest⟩ := legible_escapeChar.eq_of_flatMap (fun _ _ => trivial)
    (fun _ _ => trivial) (fun c tail _ => escapeChar_append_ne c tail rest)
    (fun c tail _ => escapeChar_append_ne c tail rest') hopened
  rw [String.toList_inj.mp hsame]
  exact ⟨rfl, (List.cons.inj hrest).2⟩

/-- Values of a kind are legible, doubles apart. -/
theorem legible_text (hk : k ≠ .f64) :
    Legible (fun v : Value => v.kind = k) (·.text.toList) (isNumeral · = false) := by
  cases k with
  | i32 => exact legible_text_of_int (by decide)
  | u32 => exact legible_text_of_int (by decide)
  | u8 => exact legible_text_of_int (by decide)
  | f64 => exact absurd rfl hk
  | bytes => exact legible_text_bytes.mono fun _ _ => trivial
  | string => exact legible_text_string.mono fun _ _ => trivial

end Value

/-! ### Line feeds -/

theorem lineFeed_notMem_toString (n : ℤ) : '\n' ∉ (toString n).toList := fun h => by
  have hnumeral := isNumeral_of_mem_toString h
  simp [isNumeral] at hnumeral

theorem lineFeed_notMem_hexDigits (n : ℕ) : '\n' ∉ Text.hexDigits n := fun h => by
  obtain ⟨d, hd⟩ := exists_digitChar_of_mem_hexDigits h
  exact Nat.digitChar_ne '\n' (by decide) hd.symm

theorem lineFeed_notMem_escapeChar (c : Char) : '\n' ∉ Text.escapeChar c := by
  have hletter : ∀ entry ∈ letterEscapes, entry.2 ≠ '\n' := by decide
  rcases escapeChar_cases c with ⟨e, he, hc⟩ | hc | ⟨-, -, hfeed, hc⟩
  · rw [hc]
    simpa using (hletter _ he).symm
  · rw [hc]
    simpa [Text.codePointEscape] using lineFeed_notMem_hexDigits c.toNat
  · rw [hc, List.mem_singleton]
    exact hfeed.symm

theorem Decimal.lineFeed_notMem_positional (d : Decimal) (minPlaces : ℕ) :
    '\n' ∉ (d.positional minPlaces).toList := by
  have hdigits : '\n' ∉ d.digitChars := fun h => by
    have hdigit := Nat.isDigit_of_mem_toDigits (by decide) (by decide) h
    simp at hdigit
  have htake (n : ℕ) : '\n' ∉ d.digitChars.take n := fun h => hdigits (List.mem_of_mem_take h)
  have hdrop (n : ℕ) : '\n' ∉ d.digitChars.drop n := fun h => hdigits (List.mem_of_mem_drop h)
  rw [positional, String.toList_ofList]
  split_ifs <;> simp [htake, hdrop, List.mem_replicate]

theorem Double.lineFeed_notMem_plain (x : Double) : '\n' ∉ x.plain.toList := by
  have hmagnitude : '\n' ∉ (x.shortest.positional 0).toList :=
    x.shortest.lineFeed_notMem_positional 0
  rw [plain, textWith]
  split_ifs <;> simp [hmagnitude]

/-- No value is written with a line feed. -/
theorem Value.lineFeed_notMem_text (v : Value) : '\n' ∉ v.text.toList := by
  cases v with
  | i32 x => exact lineFeed_notMem_toString x.toInt
  | u32 x => exact lineFeed_notMem_toString x.toNat
  | f64 x => exact x.lineFeed_notMem_plain
  | u8 x => exact lineFeed_notMem_toString x.toNat
  | bytes bs =>
    have hbyte (b : UInt8) : '\n' ∉ Text.hexByte b := fun h => by
      rcases List.mem_cons.mp h with h | h
      · exact Nat.digitChar_ne '\n' (by decide) h.symm
      · exact Nat.digitChar_ne '\n' (by decide) (List.mem_singleton.mp h).symm
    simp [text, Text.hexBytes, hbyte]
  | string s => simp [text, Text.quoted, lineFeed_notMem_escapeChar]

end Bytecode
