import Bytecode.Proofs.Registration
import Mathlib.Data.Nat.Nth

/-!
# The rule by which opcodes are assigned

`assignOpcodes_by_rule` says what is assigned without saying how: a declared opcode is kept, and the
instruction that is the `k`-th without one gets the `k`-th smallest number that no instruction of
the list declares, `Nat.nth` (`dueOpcode`). It says when there is no assignment, and which fault is
reported then (`AssignmentFault`).

The free opcodes are the numbers that no instruction declares, up to the end of the table; so the
one in the `k`-th place is the `k`-th such number (`nth_eq_of_getElem?_unclaimed`), and they are
used up exactly if all opcodes are taken (`findsNone_iff`). For the faults, what matters is the
first instruction that is at fault, since nothing is wrong with those before it
(`First.not_before`); there is one whenever there is any (`exists_first`).
-/

namespace Bytecode

/-! ### Opcodes that are due -/

/-- The number of instructions without a declared opcode. -/
def undeclared (is : List InstructionDecl) : Nat := is.countP (·.code.isNone)

/-- The opcode that is due to an instruction of a list, which comes behind others: the one it
declares, or else the next number that nobody in the whole list declares. -/
noncomputable def dueOpcode (is before : List InstructionDecl) (i : InstructionDecl) : Nat :=
  match i.code with
  | some code => code.toNat
  | none => Nat.nth (· ∉ declaredCodes is) (undeclared before)

section

variable {i : InstructionDecl} {is before after : List InstructionDecl}

theorem undeclared_cons_of_code {code : UInt32} (hcode : i.code = some code) :
    undeclared (i :: is) = undeclared is :=
  List.countP_cons_of_neg (by simp [hcode])

theorem undeclared_cons_of_none (hcode : i.code = none) :
    undeclared (i :: is) = undeclared is + 1 :=
  List.countP_cons_of_pos (by simp [hcode])

/-- In a list of all numbers with a property that are below a bound, the one in the `k`-th place is
the `k`-th such number. -/
theorem nth_eq_of_getElem?_filter_range {p : ℕ → Prop} [DecidablePred p] {bound k n : ℕ}
    (h : ((List.range bound).filter p)[k]? = some n) : Nat.nth p k = n := by
  have hmem := List.mem_of_getElem? h
  obtain ⟨hlt, hp⟩ := List.mem_filter.mp hmem
  rw [List.mem_range] at hlt
  have hp : p n := of_decide_eq_true hp
  -- the number stands behind those below it, and is not listed twice
  have hsplit : List.range bound = List.range n ++ n :: List.range' (n + 1) (bound - (n + 1)) := by
    have hall := List.range'_append_1 (s := 0) (m := n) (n := bound - (n + 1) + 1)
    have hbound : n + (bound - (n + 1) + 1) = bound := by omega
    rw [Nat.zero_add, List.range'_succ, hbound] at hall
    rw [List.range_eq_range', List.range_eq_range', hall]
  have hplace : ((List.range bound).filter p)[Nat.count p n]? = some n := by
    rw [hsplit, List.filter_append, List.filter_cons_of_pos (by simpa using hp),
      List.getElem?_append_right (by rw [Nat.count, List.countP_eq_length_filter]), Nat.count,
      List.countP_eq_length_filter, Nat.sub_self, List.getElem?_cons_zero]
  have hk : k < ((List.range bound).filter p).length := (List.getElem?_eq_some_iff.mp h).1
  have hsame : k = Nat.count p n :=
    (List.getElem?_inj hk (List.nodup_range.filter _)).mp (h.trans hplace.symm)
  rw [hsame, Nat.nth_count hp]

theorem unclaimed_eq (is : List InstructionDecl) :
    unclaimed (declaredClaims is) = (List.range opcodeLimit).filter (· ∉ declaredCodes is) := by
  apply List.filter_congr
  intro opcode _
  rw [Bool.eq_iff_iff, Option.isNone_iff_eq_none, lookup_eq_none_iff_notMem, map_fst_declaredClaims,
    decide_eq_true_iff]

theorem nth_eq_of_getElem?_unclaimed {k n : ℕ}
    (h : (unclaimed (declaredClaims is))[k]? = some n) :
    Nat.nth (· ∉ declaredCodes is) k = n :=
  nth_eq_of_getElem?_filter_range (unclaimed_eq is ▸ h)

/-- An instruction without a declared opcode takes the free one whose place is the number of such
instructions before it. -/
theorem getElem?_of_takeOpcodes {free : List Nat} {opcodes : List UInt8}
    (h : takeOpcodes free (before ++ i :: after) = .ok opcodes) (hcode : i.code = none) :
    ∃ opcode, free[undeclared before]? = some opcode ∧
      opcodes[before.length]? = some (UInt8.ofNat opcode) := by
  induction before generalizing free opcodes with
  | nil =>
    obtain ⟨code, rest, hsome, -⟩ | ⟨opcode, free, rest, -, rfl, -, rfl⟩ := takeOpcodes_cases h
    · cases hcode.symm.trans hsome
    · exact ⟨opcode, rfl, rfl⟩
  | cons j before ih =>
    obtain ⟨code, rest, hj, hrest, rfl⟩ | ⟨opcode, free, rest, hj, rfl, hrest, rfl⟩ :=
      takeOpcodes_cases h
    · rw [undeclared_cons_of_code hj]
      exact ih hrest
    · rw [undeclared_cons_of_none hj]
      exact ih hrest

theorem exists_opcode_of_assignOpcodes {opcodes : List UInt8}
    (h : assignOpcodes is = .ok opcodes) (his : is = before ++ i :: after) :
    ∃ opcode, opcodes[before.length]? = some opcode ∧ opcode.toNat = dueOpcode is before i := by
  have hi : is[before.length]? = some i := by simp [his]
  rw [dueOpcode]
  cases hcode : i.code with
  | some code =>
    have hcodes := forall₂_of_assignOpcodes h
    obtain ⟨hk, hget⟩ := List.getElem?_eq_some_iff.mp hi
    have hk' : before.length < opcodes.length := hcodes.length_eq ▸ hk
    refine ⟨opcodes[before.length], List.getElem?_eq_getElem hk', ?_⟩
    exact hcodes.get hk hk' code (by rw [List.get_eq_getElem, hget, hcode]; rfl)
  | none =>
    obtain ⟨-, -, htake⟩ := assignOpcodes_eq_ok_iff.mp h
    obtain ⟨n, hfree, hopcode⟩ := getElem?_of_takeOpcodes (his ▸ htake) hcode
    rw [← his] at hfree
    refine ⟨UInt8.ofNat n, hopcode, ?_⟩
    rw [nth_eq_of_getElem?_unclaimed hfree, UInt8.toNat_ofNat']
    exact Nat.mod_eq_of_lt (lt_of_mem_unclaimed (List.mem_of_getElem? hfree))

end

/-! ### Faults -/

/-- An instruction declares an opcode that is no byte, or that an instruction before it declares. -/
def Misdeclares (before : List InstructionDecl) (i : InstructionDecl) : Prop :=
  ∃ code ∈ i.code, opcodeLimit ≤ code.toNat ∨ code.toNat ∈ declaredCodes before

/-- An instruction without a declared opcode finds all opcodes taken: each of them is declared
somewhere in the list, or due to an instruction before. -/
def FindsNone (is before : List InstructionDecl) (i : InstructionDecl) : Prop :=
  i.code = none ∧ ∀ opcode < opcodeLimit, opcode ∈ declaredCodes is ∨
    ∃ k < undeclared before, Nat.nth (· ∉ declaredCodes is) k = opcode

/-- The first instruction of a list to be at fault, where that may depend on those before it. -/
structure First (AtFault : List InstructionDecl → InstructionDecl → Prop)
    (is before : List InstructionDecl) (i : InstructionDecl) : Prop where
  exists_after : ∃ after, is = before ++ i :: after
  at_fault : AtFault before i
  not_before : ∀ before' j after', before = before' ++ j :: after' → ¬ AtFault before' j

/-- The fault that is reported of a list of instructions, which depends on the first instruction
that declares an opcode wrongly, and if there is none, on the first that gets none. -/
inductive AssignmentFault (is : List InstructionDecl) : SchemaError → Prop where
  | tooLarge {before : List InstructionDecl} {i : InstructionDecl} {code : UInt32}
      (first : First Misdeclares is before i) (declared : i.code = some code)
      (large : opcodeLimit ≤ code.toNat) :
      AssignmentFault is (.opcodeOutOfRange i.name code.toNat)
  | repeated {before : List InstructionDecl} {i j : InstructionDecl} {code : UInt32}
      (first : First Misdeclares is before i) (declared : i.code = some code)
      (small : code.toNat < opcodeLimit) (earlier : j ∈ before) (same : j.code = some code) :
      AssignmentFault is (.duplicateOpcode code.toNat j.name i.name)
  | usedUp {before : List InstructionDecl} {i : InstructionDecl}
      (sound : ∀ before' j after', is = before' ++ j :: after' → ¬ Misdeclares before' j)
      (first : First (FindsNone is) is before i) :
      AssignmentFault is (.opcodeOutOfRange i.name opcodeLimit)

section

variable {AtFault : List InstructionDecl → InstructionDecl → Prop}
  {i : InstructionDecl} {is before after : List InstructionDecl}

theorem exists_first (his : is = before ++ i :: after) (h : AtFault before i) :
    ∃ before' i', First AtFault is before' i' := by
  induction hlength : before.length using Nat.strong_induction_on generalizing before i after with
  | _ n ih =>
    by_cases hearlier : ∃ before' j after', before = before' ++ j :: after' ∧ AtFault before' j
    · obtain ⟨before', j, after', hbefore, hj⟩ := hearlier
      have hlt : before'.length < n := by
        rw [← hlength, hbefore, List.length_append, List.length_cons]
        omega
      have hsplit : is = before' ++ j :: (after' ++ i :: after) := by
        rw [his, hbefore, List.append_assoc, List.cons_append]
      exact ih before'.length hlt hsplit hj rfl
    · exact ⟨before, i, ⟨after, his⟩, h, fun before' j after' heq hj =>
        hearlier ⟨before', j, after', heq, hj⟩⟩

/-! ### Wrongly declared opcodes -/

theorem declaredCodes_append (is is' : List InstructionDecl) :
    declaredCodes (is ++ is') = declaredCodes is ++ declaredCodes is' :=
  List.filterMap_append

/-- Where no instruction declares an opcode wrongly, the declared opcodes are distinct bytes. -/
theorem sound_of_not_misdeclares
    (h : ∀ before j after, is = before ++ j :: after → ¬ Misdeclares before j) :
    (∀ code ∈ declaredCodes is, code < opcodeLimit) ∧ (declaredCodes is).Nodup := by
  induction is using List.reverseRecOn with
  | nil => simp [declaredCodes]
  | append_singleton is i ih =>
    obtain ⟨hlt, hnodup⟩ := ih fun before j after his =>
      h before j (after ++ [i]) (by rw [his, List.append_assoc, List.cons_append])
    have hi := h is i [] rfl
    have hnil : declaredCodes [] = [] := rfl
    rw [declaredCodes_append]
    cases hcode : i.code with
    | none =>
      rw [declaredCodes_of_none hcode, hnil, List.append_nil]
      exact ⟨hlt, hnodup⟩
    | some code =>
      have hright : ¬ (opcodeLimit ≤ code.toNat ∨ code.toNat ∈ declaredCodes is) := fun hwrong =>
        hi ⟨code, hcode, hwrong⟩
      rw [not_or, Nat.not_le] at hright
      rw [declaredCodes_of_code hcode, hnil]
      refine ⟨?_, ?_⟩
      · rw [List.forall_mem_append]
        exact ⟨hlt, fun c hc => List.mem_singleton.mp hc ▸ hright.1⟩
      · refine List.nodup_append.mpr ⟨hnodup, List.nodup_singleton _, ?_⟩
        intro c hc c' hc' heq
        obtain rfl := List.mem_singleton.mp hc'
        exact hright.2 (heq ▸ hc)

theorem collectClaims_append (made : List Claim) (is is' : List InstructionDecl) :
    collectClaims made (is ++ is') =
      collectClaims made is >>= fun made' => collectClaims made' is' := by
  induction is generalizing made with
  | nil => rfl
  | cons i is ih =>
    rw [List.cons_append, collectClaims, collectClaims]
    cases i.code with
    | none => exact ih made
    | some code =>
      dsimp only
      split
      · rfl
      · cases made.lookup code.toNat with
        | some first => rfl
        | none => exact ih _

/-- The instructions before the first that declares an opcode wrongly have their claims. -/
theorem First.collectClaims_before (h : First Misdeclares is before i) :
    collectClaims [] before = .ok (declaredClaims before) := by
  obtain ⟨hlt, hnodup⟩ := sound_of_not_misdeclares h.not_before
  exact collectClaims_eq_ok_iff.mpr ⟨rfl, hlt, fresh_nil_iff.mpr hnodup⟩

theorem First.assignOpcodes_of_large (h : First Misdeclares is before i) {code : UInt32}
    (hcode : i.code = some code) (hlarge : opcodeLimit ≤ code.toNat) :
    assignOpcodes is = .error (.opcodeOutOfRange i.name code.toNat) := by
  obtain ⟨after, his⟩ := h.exists_after
  rw [assignOpcodes, his, collectClaims_append, h.collectClaims_before, except_ok_bind,
    collectClaims]
  simp only [hcode, if_pos hlarge]
  rfl

/-- The instruction that has claimed an opcode is the one that declares it. -/
theorem lookup_declaredClaims {j : InstructionDecl} {code : UInt32}
    (hnodup : (declaredCodes before).Nodup) (hj : j ∈ before) (hcode : j.code = some code) :
    (declaredClaims before).lookup code.toNat = some j.name := by
  have hmem : (code.toNat, j.name) ∈ declaredClaims before :=
    List.mem_filterMap.mpr ⟨j, hj, by rw [hcode, Option.map_some]⟩
  rw [← map_fst_declaredClaims] at hnodup
  exact (lookup_eq_some_iff_mem hnodup).mpr hmem

theorem First.assignOpcodes_of_repeated (h : First Misdeclares is before i) {code : UInt32}
    (hcode : i.code = some code) (hsmall : code.toNat < opcodeLimit) {j : InstructionDecl}
    (hj : j ∈ before) (hsame : j.code = some code) :
    assignOpcodes is = .error (.duplicateOpcode code.toNat j.name i.name) := by
  obtain ⟨after, his⟩ := h.exists_after
  obtain ⟨-, hnodup⟩ := sound_of_not_misdeclares h.not_before
  rw [assignOpcodes, his, collectClaims_append, h.collectClaims_before, except_ok_bind,
    collectClaims]
  simp only [hcode, if_neg (Nat.not_le_of_lt hsmall), lookup_declaredClaims hnodup hj hsame]
  rfl

theorem First.exists_fault_of_misdeclares (h : First Misdeclares is before i) :
    ∃ e, AssignmentFault is e ∧ assignOpcodes is = .error e := by
  obtain ⟨code, hcode, hwrong⟩ := h.at_fault
  rcases Nat.lt_or_ge code.toNat opcodeLimit with hsmall | hlarge
  · have hmem := hwrong.resolve_left (Nat.not_le_of_lt hsmall)
    obtain ⟨j, hj, hsome⟩ := List.mem_filterMap.mp hmem
    obtain ⟨code', hcode', hsame⟩ := Option.map_eq_some_iff.mp hsome
    obtain rfl := UInt32.toNat_inj.mp hsame
    exact ⟨_, .repeated h hcode hsmall hj hcode',
      h.assignOpcodes_of_repeated hcode hsmall hj hcode'⟩
  · exact ⟨_, .tooLarge h hcode hlarge, h.assignOpcodes_of_large hcode hlarge⟩

/-! ### Too many instructions -/

/-- All opcodes are taken exactly if as many instructions as there are free opcodes come before. -/
theorem findsNone_iff : FindsNone is before i ↔
    i.code = none ∧ (unclaimed (declaredClaims is)).length ≤ undeclared before := by
  refine and_congr_right fun _ => ?_
  have hmem {opcode : ℕ} : opcode ∈ unclaimed (declaredClaims is) ↔
      opcode < opcodeLimit ∧ opcode ∉ declaredCodes is := by
    rw [unclaimed_eq, List.mem_filter, List.mem_range, decide_eq_true_iff]
  constructor
  · intro htaken
    by_contra hle
    -- otherwise the next free opcode would be due to two instructions
    have hk := Nat.lt_of_not_le hle
    have hnext := List.getElem?_eq_getElem hk
    have hfree := hmem.mp (List.getElem_mem hk)
    obtain ⟨k, hlt, hnth⟩ := (htaken _ hfree.1).resolve_left hfree.2
    have hget := List.getElem?_eq_getElem (hlt.trans hk)
    have hsame := (nth_eq_of_getElem?_unclaimed hget).symm.trans hnth
    rw [← hsame, ← hget] at hnext
    have hplace := (List.getElem?_inj hk (List.nodup_range.filter _)).mp hnext
    omega
  · intro hle opcode hlt
    by_cases hdeclared : opcode ∈ declaredCodes is
    · exact Or.inl hdeclared
    · obtain ⟨k, hk⟩ := List.mem_iff_getElem?.mp (hmem.mpr ⟨hlt, hdeclared⟩)
      have hplace := (List.getElem?_eq_some_iff.mp hk).1
      exact Or.inr ⟨k, hplace.trans_le hle, nth_eq_of_getElem?_unclaimed hk⟩

/-- Opcodes are taken up to the first instruction for which none is left. -/
theorem takeOpcodes_eq_error {free : List Nat} (hcode : i.code = none)
    (hle : free.length ≤ undeclared before)
    (hbefore : ∀ before' j after', before = before' ++ j :: after' → j.code = none →
      undeclared before' < free.length) :
    takeOpcodes free (before ++ i :: after) = .error (.opcodeOutOfRange i.name opcodeLimit) := by
  induction before generalizing free with
  | nil =>
    obtain rfl := List.eq_nil_of_length_eq_zero (Nat.le_zero.mp hle)
    simp only [List.nil_append, takeOpcodes, hcode]
  | cons j before ih =>
    rw [List.cons_append]
    cases hdeclared : j.code with
    | some code =>
      rw [undeclared_cons_of_code hdeclared] at hle
      rw [takeOpcodes_of_code hdeclared, ih hle]
      · rfl
      · intro before' j' after' heq hj'
        have hlt := hbefore (j :: before') j' after' (by rw [heq, List.cons_append]) hj'
        rwa [undeclared_cons_of_code hdeclared] at hlt
    | none =>
      cases free with
      | nil => exact absurd (hbefore [] j before rfl hdeclared) (Nat.not_lt_zero _)
      | cons opcode free =>
        rw [undeclared_cons_of_none hdeclared, List.length_cons, Nat.add_le_add_iff_right] at hle
        rw [takeOpcodes_of_free hdeclared, ih hle]
        · rfl
        · intro before' j' after' heq hj'
          have hlt := hbefore (j :: before') j' after' (by rw [heq, List.cons_append]) hj'
          rwa [undeclared_cons_of_none hdeclared, List.length_cons, Nat.add_lt_add_iff_right] at hlt

theorem exists_of_takeOpcodes_eq_error {free : List Nat} {e : SchemaError}
    (h : takeOpcodes free is = .error e) :
    ∃ before i after, is = before ++ i :: after ∧ i.code = none ∧
      free.length ≤ undeclared before := by
  by_contra hnone
  have henough : ∃ opcodes, takeOpcodes free is = .ok opcodes := by
    rw [exists_takeOpcodes_iff]
    clear h
    induction is using List.reverseRecOn with
    | nil => exact Nat.zero_le _
    | append_singleton is i ih =>
      have hle := ih fun ⟨before, j, after, his, hj⟩ =>
        hnone ⟨before, j, after ++ [i], by rw [his, List.append_assoc, List.cons_append], hj⟩
      rw [List.countP_append, List.countP_singleton]
      cases hcode : i.code with
      | some code => simpa using hle
      | none =>
        have hlt := Nat.lt_of_not_le fun hle' => hnone ⟨is, i, [], rfl, hcode, hle'⟩
        simpa [undeclared] using hlt
  obtain ⟨opcodes, hok⟩ := henough
  rw [h] at hok
  cases hok

theorem assignOpcodes_eq_takeOpcodes
    (hsound : ∀ before j after, is = before ++ j :: after → ¬ Misdeclares before j) :
    assignOpcodes is = takeOpcodes (unclaimed (declaredClaims is)) is := by
  obtain ⟨hlt, hnodup⟩ := sound_of_not_misdeclares hsound
  have hclaims := collectClaims_eq_ok_iff.mpr
    ⟨List.nil_append (declaredClaims is), hlt, fresh_nil_iff.mpr hnodup⟩
  rw [assignOpcodes, hclaims, except_ok_bind]

theorem First.assignOpcodes_of_findsNone
    (hsound : ∀ before j after, is = before ++ j :: after → ¬ Misdeclares before j)
    (h : First (FindsNone is) is before i) :
    assignOpcodes is = .error (.opcodeOutOfRange i.name opcodeLimit) := by
  obtain ⟨after, his⟩ := h.exists_after
  obtain ⟨hcode, hle⟩ := findsNone_iff.mp h.at_fault
  rw [assignOpcodes_eq_takeOpcodes hsound]
  generalize hfree : unclaimed (declaredClaims is) = free at hle
  rw [his]
  refine takeOpcodes_eq_error hcode hle fun before' j after' heq hj => Nat.lt_of_not_le fun hle' => ?_
  exact h.not_before before' j after' heq (findsNone_iff.mpr ⟨hj, hfree ▸ hle'⟩)

/-! ### The rule -/

/-- If opcodes are not assigned, one of the faults is there and is reported. -/
theorem exists_fault_of_error {e : SchemaError} (h : assignOpcodes is = .error e) :
    ∃ e', AssignmentFault is e' ∧ assignOpcodes is = .error e' := by
  by_cases hsound : ∀ before j after, is = before ++ j :: after → ¬ Misdeclares before j
  · rw [assignOpcodes_eq_takeOpcodes hsound] at h
    obtain ⟨before, i, after, his, hcode, hle⟩ := exists_of_takeOpcodes_eq_error h
    obtain ⟨before', i', hfirst⟩ := exists_first his (findsNone_iff.mpr ⟨hcode, hle⟩)
    exact ⟨_, .usedUp hsound hfirst, hfirst.assignOpcodes_of_findsNone hsound⟩
  · push Not at hsound
    obtain ⟨before, j, after, his, hwrong⟩ := hsound
    obtain ⟨before', i', hfirst⟩ := exists_first his hwrong
    exact hfirst.exists_fault_of_misdeclares

theorem AssignmentFault.assignOpcodes_eq {e : SchemaError} (h : AssignmentFault is e) :
    assignOpcodes is = .error e := by
  cases h with
  | tooLarge first declared large => exact first.assignOpcodes_of_large declared large
  | repeated first declared small earlier same =>
    exact first.assignOpcodes_of_repeated declared small earlier same
  | usedUp sound first => exact first.assignOpcodes_of_findsNone sound

end

/-- **Opcodes are assigned by the rule.** A registrar assigns what `assignOpcodes` assigns, and
never looks for a place that there is not. There is an assignment exactly if the declared opcodes
are distinct bytes and there are not more instructions than opcodes; then there is one opcode for
each instruction, in order, and it is the one that is due. Otherwise what is reported is the fault
of the first instruction that declares an opcode wrongly, and if there is none, of the first that
finds all opcodes taken. -/
theorem assignOpcodes_by_rule (is : List InstructionDecl) :
    (Registrar.assign is = (assignOpcodes is).mapError .refused ∧
      ∀ place, Registrar.assign is ≠ .error (.outOfRange place)) ∧
    ((∃ opcodes, assignOpcodes is = .ok opcodes) ↔
      (∀ code ∈ declaredCodes is, code ≤ 255) ∧ (declaredCodes is).Nodup ∧ is.length ≤ 256) ∧
    (∀ opcodes, assignOpcodes is = .ok opcodes → opcodes.length = is.length ∧
      ∀ before i after, is = before ++ i :: after →
        ∃ opcode, opcodes[before.length]? = some opcode ∧
          opcode.toNat = dueOpcode is before i) ∧
    ∀ e, assignOpcodes is = .error e ↔ AssignmentFault is e := by
  have hassign := Registrar.assign_eq is
  refine ⟨⟨hassign, fun place hplace => ?_⟩, ?_, fun opcodes h => ⟨?_, ?_⟩, fun e => ⟨?_, ?_⟩⟩
  · rw [hassign] at hplace
    cases h : assignOpcodes is with
    | error e =>
      rw [h] at hplace
      cases hplace
    | ok opcodes =>
      rw [h] at hplace
      cases hplace
  · rw [exists_assignOpcodes_iff]
    simp only [opcodeLimit, Nat.lt_succ_iff]
  · exact (forall₂_of_assignOpcodes h).length_eq.symm
  · intro before i after his
    exact exists_opcode_of_assignOpcodes h his
  · intro h
    obtain ⟨e', hfault, he'⟩ := exists_fault_of_error h
    obtain rfl := Except.error.inj (he'.symm.trans h)
    exact hfault
  · exact AssignmentFault.assignOpcodes_eq

end Bytecode
