import Bytecode.Proofs.Checks
import Mathlib.Data.List.Perm.Basic

/-!
# How opcodes are assigned

Declared opcodes are collected first, as long as they are bytes and fresh
(`collectClaims_eq_ok_iff`). The opcodes that are given out are then, up to order, the declared ones
followed by the first of the unclaimed ones (`perm_of_takeOpcodes`); so they are distinct
(`nodup_of_assignOpcodes`).

Whether there are enough of them is a matter of counting: the claimed and the unclaimed opcodes make
up all of them (`length_unclaimed`), so that every instruction gets one exactly if there are no more
instructions than opcodes (`exists_assignOpcodes_iff`).
-/

namespace Bytecode

/-! ### Declared opcodes -/

/-- The opcodes that a list of instructions declares, with the names of the instructions. -/
def declaredClaims (is : List InstructionDecl) : List Claim :=
  is.filterMap fun i => i.code.map fun code => (code.toNat, i.name)

/-- The declared opcodes alone. -/
def declaredCodes (is : List InstructionDecl) : List Nat :=
  is.filterMap fun i => i.code.map UInt32.toNat

section

variable {i : InstructionDecl} {is : List InstructionDecl}

theorem declaredClaims_of_code {code : UInt32} (hcode : i.code = some code) :
    declaredClaims (i :: is) = (code.toNat, i.name) :: declaredClaims is := by
  simp [declaredClaims, hcode]

theorem declaredClaims_of_none (hcode : i.code = none) :
    declaredClaims (i :: is) = declaredClaims is := by
  simp [declaredClaims, hcode]

theorem declaredCodes_of_code {code : UInt32} (hcode : i.code = some code) :
    declaredCodes (i :: is) = code.toNat :: declaredCodes is := by
  simp [declaredCodes, hcode]

theorem declaredCodes_of_none (hcode : i.code = none) :
    declaredCodes (i :: is) = declaredCodes is := by
  simp [declaredCodes, hcode]

end

theorem map_fst_declaredClaims (is : List InstructionDecl) :
    (declaredClaims is).map Prod.fst = declaredCodes is := by
  simp only [declaredClaims, declaredCodes, List.map_filterMap, Option.map_map]
  rfl

theorem lookup_eq_none_iff_notMem {made : List Claim} {code : Nat} :
    made.lookup code = none ↔ code ∉ made.map Prod.fst := by
  rw [List.lookup_eq_none_iff]
  constructor
  · intro h hmem
    obtain ⟨claim, hclaim, rfl⟩ := List.mem_map.mp hmem
    simpa using h claim hclaim
  · intro h claim hclaim
    rw [bne_iff_ne]
    rintro rfl
    exact h (List.mem_map_of_mem hclaim)

/-- Where keys are different, what is found under one is what stands there. -/
theorem lookup_eq_some_iff_mem {κ α : Type} [BEq κ] [LawfulBEq κ] {entries : List (κ × α)}
    (hnodup : (entries.map Prod.fst).Nodup) {key : κ} {value : α} :
    entries.lookup key = some value ↔ (key, value) ∈ entries := by
  rw [List.lookup_eq_some_iff]
  constructor
  · rintro ⟨before, after, rfl, -⟩
    exact List.mem_append_right before List.mem_cons_self
  · intro hmem
    obtain ⟨before, after, rfl⟩ := List.append_of_mem hmem
    refine ⟨before, after, rfl, fun entry hentry => bne_iff_ne.mpr ?_⟩
    rintro rfl
    rw [List.map_append, List.map_cons] at hnodup
    exact (List.nodup_append.mp hnodup).2.2 _ (List.mem_map_of_mem hentry) _ List.mem_cons_self rfl

/-- Claims are accepted if they are bytes that nobody else claims, and are added in order. -/
theorem collectClaims_eq_ok_iff {made made' : List Claim} {is : List InstructionDecl} :
    collectClaims made is = .ok made' ↔ made ++ declaredClaims is = made' ∧
      (∀ code ∈ declaredCodes is, code < opcodeLimit) ∧
      Fresh (made.map Prod.fst) (declaredCodes is) := by
  induction is generalizing made with
  | nil => simp [collectClaims, declaredClaims, declaredCodes, fresh_nil]
  | cons i is ih =>
    unfold collectClaims
    cases hcode : i.code with
    | none =>
      rw [declaredClaims_of_none hcode, declaredCodes_of_none hcode]
      exact ih
    | some code =>
      rw [declaredClaims_of_code hcode, declaredCodes_of_code hcode, List.forall_mem_cons,
        fresh_cons]
      dsimp only
      by_cases hlimit : opcodeLimit ≤ code.toNat
      · rw [if_pos hlimit]
        refine iff_of_false (by simp) ?_
        rintro ⟨-, ⟨hlt, -⟩, -⟩
        omega
      · rw [if_neg hlimit]
        cases hlookup : made.lookup code.toNat with
        | some first =>
          refine iff_of_false (by simp) ?_
          rintro ⟨-, -, hfresh, -⟩
          rw [lookup_eq_none_iff_notMem.mpr hfresh] at hlookup
          cases hlookup
        | none =>
          -- the claim goes to the end of the list, and is seen from then on
          have hseen : Fresh ((made ++ [(code.toNat, i.name)]).map Prod.fst) (declaredCodes is) ↔
              Fresh (code.toNat :: made.map Prod.fst) (declaredCodes is) :=
            fresh_congr fun x => by simp [or_comm]
          have hfresh := lookup_eq_none_iff_notMem.mp hlookup
          dsimp only
          rw [ih, hseen, List.append_assoc, List.singleton_append, and_iff_right hfresh,
            and_iff_right (Nat.lt_of_not_le hlimit)]

/-! ### Given out opcodes -/

section

variable {i : InstructionDecl} {is : List InstructionDecl} {free : List Nat}

/-- A declared opcode is kept. -/
theorem takeOpcodes_of_code {code : UInt32} (hcode : i.code = some code) :
    takeOpcodes free (i :: is) = (code.toUInt8 :: ·) <$> takeOpcodes free is := by
  simp only [takeOpcodes, hcode]

/-- An instruction that declares none takes the first free opcode. -/
theorem takeOpcodes_of_free {opcode : Nat} (hcode : i.code = none) :
    takeOpcodes (opcode :: free) (i :: is) = (UInt8.ofNat opcode :: ·) <$> takeOpcodes free is := by
  simp only [takeOpcodes, hcode]

/-- The first instruction gets the opcode that it declares, or else the first of the free ones, and
the others get theirs. -/
theorem takeOpcodes_cases {opcodes : List UInt8} (h : takeOpcodes free (i :: is) = .ok opcodes) :
    (∃ code rest, i.code = some code ∧ takeOpcodes free is = .ok rest ∧
      opcodes = code.toUInt8 :: rest) ∨
    ∃ opcode free' rest, i.code = none ∧ free = opcode :: free' ∧
      takeOpcodes free' is = .ok rest ∧ opcodes = UInt8.ofNat opcode :: rest := by
  cases hcode : i.code with
  | some code =>
    rw [takeOpcodes_of_code hcode] at h
    obtain ⟨rest, hrest, rfl⟩ := except_map_eq_ok_iff.mp h
    exact .inl ⟨code, rest, rfl, hrest, rfl⟩
  | none =>
    cases free with
    | nil => simp [takeOpcodes, hcode] at h
    | cons opcode free =>
      rw [takeOpcodes_of_free hcode] at h
      obtain ⟨rest, hrest, rfl⟩ := except_map_eq_ok_iff.mp h
      exact .inr ⟨opcode, free, rest, rfl, rfl, hrest, rfl⟩

end

/-- A declared opcode that is a byte is that byte. -/
theorem toNat_toUInt8_of_lt {code : UInt32} (h : code.toNat < opcodeLimit) :
    code.toUInt8.toNat = code.toNat := by
  rw [UInt32.toNat_toUInt8]
  exact Nat.mod_eq_of_lt h

/-- Every instruction gets an opcode, and one that declares it gets that. -/
theorem forall₂_of_takeOpcodes {free : List Nat} {is : List InstructionDecl} {opcodes : List UInt8}
    (h : takeOpcodes free is = .ok opcodes)
    (hdeclared : ∀ code ∈ declaredCodes is, code < opcodeLimit) :
    List.Forall₂ (fun i (opcode : UInt8) => ∀ code ∈ i.code, opcode.toNat = code.toNat) is
      opcodes := by
  induction is generalizing free opcodes with
  | nil =>
    cases h
    exact .nil
  | cons i is ih =>
    obtain ⟨code, rest, hcode, hrest, rfl⟩ | ⟨opcode, free, rest, hcode, rfl, hrest, rfl⟩ :=
      takeOpcodes_cases h
    · rw [declaredCodes_of_code hcode, List.forall_mem_cons] at hdeclared
      refine .cons ?_ (ih hrest hdeclared.2)
      intro code' hcode'
      obtain rfl : code = code' := Option.some.inj (hcode.symm.trans hcode')
      exact toNat_toUInt8_of_lt hdeclared.1
    · rw [declaredCodes_of_none hcode] at hdeclared
      refine .cons ?_ (ih hrest hdeclared)
      intro code hcode'
      rw [hcode] at hcode'
      cases hcode'

/-- The opcodes given out are the declared ones and the first of the free ones. -/
theorem perm_of_takeOpcodes {free : List Nat} {is : List InstructionDecl} {opcodes : List UInt8}
    (h : takeOpcodes free is = .ok opcodes) (hfree : ∀ opcode ∈ free, opcode < opcodeLimit)
    (hdeclared : ∀ code ∈ declaredCodes is, code < opcodeLimit) :
    ∃ count, (opcodes.map UInt8.toNat).Perm (declaredCodes is ++ free.take count) := by
  induction is generalizing free opcodes with
  | nil =>
    cases h
    exact ⟨0, by simp [declaredCodes]⟩
  | cons i is ih =>
    obtain ⟨code, rest, hcode, hrest, rfl⟩ | ⟨opcode, free, rest, hcode, rfl, hrest, rfl⟩ :=
      takeOpcodes_cases h
    · rw [declaredCodes_of_code hcode] at hdeclared ⊢
      obtain ⟨hlt, hdeclared⟩ := List.forall_mem_cons.mp hdeclared
      obtain ⟨count, hperm⟩ := ih hrest hfree hdeclared
      refine ⟨count, ?_⟩
      -- the declared opcode heads both lists
      rw [List.map_cons, toNat_toUInt8_of_lt hlt]
      exact hperm.cons _
    · rw [declaredCodes_of_none hcode] at hdeclared ⊢
      obtain ⟨hlt, hfree⟩ := List.forall_mem_cons.mp hfree
      obtain ⟨count, hperm⟩ := ih hrest hfree hdeclared
      refine ⟨count + 1, ?_⟩
      have hbyte : (UInt8.ofNat opcode).toNat = opcode := by
        rw [UInt8.toNat_ofNat']
        exact Nat.mod_eq_of_lt hlt
      -- the free opcode goes behind the declared ones
      rw [List.map_cons, hbyte, List.take_succ_cons]
      exact (hperm.cons _).trans List.perm_middle.symm

/-! ### All opcodes -/

theorem lt_of_mem_unclaimed {made : List Claim} {opcode : Nat} (h : opcode ∈ unclaimed made) :
    opcode < opcodeLimit :=
  List.mem_range.mp (List.mem_filter.mp h).1

theorem assignOpcodes_eq_ok_iff {is : List InstructionDecl} {opcodes : List UInt8} :
    assignOpcodes is = .ok opcodes ↔ (∀ code ∈ declaredCodes is, code < opcodeLimit) ∧
      (declaredCodes is).Nodup ∧ takeOpcodes (unclaimed (declaredClaims is)) is = .ok opcodes := by
  rw [assignOpcodes, except_bind_eq_ok_iff]
  simp only [collectClaims_eq_ok_iff, List.nil_append, List.map_nil, fresh_nil_iff]
  constructor
  · rintro ⟨_, ⟨rfl, hlt, hnodup⟩, h⟩
    exact ⟨hlt, hnodup, h⟩
  · rintro ⟨hlt, hnodup, h⟩
    exact ⟨_, ⟨rfl, hlt, hnodup⟩, h⟩

theorem forall₂_of_assignOpcodes {is : List InstructionDecl} {opcodes : List UInt8}
    (h : assignOpcodes is = .ok opcodes) :
    List.Forall₂ (fun i (opcode : UInt8) => ∀ code ∈ i.code, opcode.toNat = code.toNat) is
      opcodes := by
  obtain ⟨hlt, -, h⟩ := assignOpcodes_eq_ok_iff.mp h
  exact forall₂_of_takeOpcodes h hlt

theorem nodup_of_assignOpcodes {is : List InstructionDecl} {opcodes : List UInt8}
    (h : assignOpcodes is = .ok opcodes) : opcodes.Nodup := by
  obtain ⟨hlt, hnodup, h⟩ := assignOpcodes_eq_ok_iff.mp h
  obtain ⟨count, hperm⟩ := perm_of_takeOpcodes h (fun _ => lt_of_mem_unclaimed) hlt
  refine List.Nodup.of_map UInt8.toNat (hperm.nodup_iff.mpr ?_)
  rw [List.nodup_append]
  refine ⟨hnodup, ?_, ?_⟩
  · exact (List.nodup_range.filter _).sublist (List.take_sublist count _)
  · -- a free opcode is one that nobody claims
    rintro code hcode _ hfree rfl
    have hnone := (List.mem_filter.mp ((List.take_sublist count _).subset hfree)).2
    rw [Option.isNone_iff_eq_none, lookup_eq_none_iff_notMem, map_fst_declaredClaims] at hnone
    exact hnone hcode

/-! ### Enough opcodes -/

/-- Claimed and unclaimed opcodes together are all opcodes. -/
theorem length_unclaimed {made : List Claim} (hnodup : (made.map Prod.fst).Nodup)
    (hlt : ∀ code ∈ made.map Prod.fst, code < opcodeLimit) :
    (unclaimed made).length + made.length = opcodeLimit := by
  have hclaimed : ((List.range opcodeLimit).filter fun opcode => !(made.lookup opcode).isNone).Perm
      (made.map Prod.fst) := by
    refine (List.perm_ext_iff_of_nodup (List.nodup_range.filter _) hnodup).mpr fun opcode => ?_
    have hlookup : (!(made.lookup opcode).isNone) = true ↔ opcode ∈ made.map Prod.fst := by
      rw [Bool.not_eq_true', ← Bool.not_eq_true, Option.isNone_iff_eq_none,
        lookup_eq_none_iff_notMem, not_not]
    rw [List.mem_filter, List.mem_range, hlookup]
    exact and_iff_right_of_imp (hlt opcode)
  have hsplit := List.length_eq_length_filter_add (l := List.range opcodeLimit)
    fun opcode => (made.lookup opcode).isNone
  rw [List.length_range, hclaimed.length_eq, List.length_map] at hsplit
  exact hsplit.symm

/-- There are enough free opcodes if there are as many as instructions that declare none. -/
theorem exists_takeOpcodes_iff {free : List Nat} {is : List InstructionDecl} :
    (∃ opcodes, takeOpcodes free is = .ok opcodes) ↔ is.countP (·.code.isNone) ≤ free.length := by
  induction is generalizing free with
  | nil => simp [takeOpcodes]
  | cons i is ih =>
    cases hcode : i.code with
    | some code =>
      rw [takeOpcodes_of_code hcode, exists_except_map_eq_ok_iff, ih,
        List.countP_cons_of_neg (by simp [hcode])]
    | none =>
      rw [List.countP_cons_of_pos (by simp [hcode])]
      cases free with
      | nil => simp [takeOpcodes, hcode]
      | cons opcode free =>
        rw [takeOpcodes_of_free hcode, exists_except_map_eq_ok_iff, ih, List.length_cons,
          Nat.add_le_add_iff_right]

/-- Instructions with a declared opcode, and those without. -/
theorem length_declaredCodes (is : List InstructionDecl) :
    (declaredCodes is).length + is.countP (·.code.isNone) = is.length := by
  induction is with
  | nil => rfl
  | cons i is ih =>
    cases hcode : i.code with
    | none =>
      rw [declaredCodes_of_none hcode, List.countP_cons_of_pos (by simp [hcode]), List.length_cons]
      omega
    | some code =>
      rw [declaredCodes_of_code hcode, List.countP_cons_of_neg (by simp [hcode]), List.length_cons,
        List.length_cons]
      omega

/-- Opcodes can be assigned exactly if the declared ones are distinct bytes and there are not more
instructions than opcodes. -/
theorem exists_assignOpcodes_iff {is : List InstructionDecl} :
    (∃ opcodes, assignOpcodes is = .ok opcodes) ↔
      (∀ code ∈ declaredCodes is, code < opcodeLimit) ∧ (declaredCodes is).Nodup ∧
        is.length ≤ opcodeLimit := by
  simp only [assignOpcodes_eq_ok_iff, exists_and_left, exists_takeOpcodes_iff]
  refine and_congr_right fun hlt => and_congr_right fun hnodup => ?_
  have hdeclared := length_declaredCodes is
  rw [← map_fst_declaredClaims] at hlt hnodup hdeclared
  have hfree := length_unclaimed hnodup hlt
  rw [List.length_map] at hdeclared
  omega

end Bytecode
