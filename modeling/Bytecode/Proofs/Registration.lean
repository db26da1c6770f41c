import Bytecode.Proofs.Opcodes
import Bytecode.Schema.Registrar

/-!
# A registrar assigns opcodes

`Registrar.assign_eq` says that a registrar, with its table and its mark, assigns what
`assignOpcodes` assigns, and refuses what that refuses, in the same words; in particular it never
looks for a place that there is not.

There is an invariant for each time that the instructions are gone through. The first time, the
table names the owners of the claims made so far (`Registrar.Declares`). The second time, the
opcodes that nobody owns, from the mark on, are the free opcodes that are left to be given out
(`Registrar.Supplies`).
-/

namespace Bytecode.Registrar

variable {r : Registrar} {is done rest : List InstructionDecl} {i : InstructionDecl}

/-! ### Places -/

theorem lookUp_of_getElem? {α : Type} {entries : List α} {place : ℕ} {entry : α}
    (h : entries[place]? = some entry) : lookUp entries place = .ok entry := by
  rw [lookUp, h]

theorem enter_of_lt {α : Type} {entries : List α} {place : ℕ} (h : place < entries.length)
    (entry : α) : enter entries place entry = .ok (entries.set place entry) :=
  if_pos h

theorem give_of_lt {opcode position : ℕ} (hopcode : opcode < r.owners.length)
    (hposition : position < r.given.length) :
    r.give opcode position = .ok { r with
      owners := r.owners.set opcode (some position)
      given := r.given.set position (some (UInt8.ofNat opcode)) } := by
  rw [give, enter_of_lt hopcode, enter_of_lt hposition]
  rfl

/-- The declared opcode of an instruction, as a byte. -/
def declaredByte (i : InstructionDecl) : Option UInt8 := i.code.map UInt32.toUInt8

/-! ### Entering declared opcodes -/

/-- The books after the claims `made`, which are those of the instructions `done`. -/
structure Declares (is : List InstructionDecl) (made : List Claim)
    (done rest : List InstructionDecl) (r : Registrar) : Prop where
  is_eq : is = done ++ rest
  length_owners : r.owners.length = opcodeLimit
  /-- The owner of an opcode is the instruction that has claimed it. -/
  owner_eq : ∀ opcode < opcodeLimit, ∃ owner, r.owners[opcode]? = some owner ∧
    owner.map (fun position => is[position]?.map (·.name)) = (made.lookup opcode).map some
  given_eq : r.given = done.map declaredByte ++ List.replicate rest.length none
  mark_eq : r.mark = 0

theorem declares_blank (is : List InstructionDecl) :
    (blank is.length).Declares is [] [] is where
  is_eq := rfl
  length_owners := List.length_replicate
  owner_eq := by
    intro opcode hopcode
    exact ⟨none, List.getElem?_replicate_of_lt hopcode, rfl⟩
  given_eq := rfl
  mark_eq := rfl

section Declares

variable {made : List Claim} (h : r.Declares is made done (i :: rest))

include h

theorem Declares.lookUp_of_lookup_eq_none {code : ℕ} (hcode : code < opcodeLimit)
    (hlookup : made.lookup code = none) : lookUp r.owners code = .ok none := by
  obtain ⟨owner, howner, hname⟩ := h.owner_eq code hcode
  rw [hlookup, Option.map_none, Option.map_eq_none_iff] at hname
  rw [lookUp_of_getElem? howner, hname]

theorem Declares.lookUp_of_lookup_eq_some {code : ℕ} {first : String} (hcode : code < opcodeLimit)
    (hlookup : made.lookup code = some first) :
    ∃ position owner, lookUp r.owners code = .ok (some position) ∧
      lookUp is position = .ok owner ∧ owner.name = first := by
  obtain ⟨owner, howner, hname⟩ := h.owner_eq code hcode
  rw [hlookup, Option.map_some] at hname
  obtain ⟨position, rfl, hposition⟩ := Option.map_eq_some_iff.mp hname
  obtain ⟨j, hj, hfirst⟩ := Option.map_eq_some_iff.mp hposition
  exact ⟨position, j, lookUp_of_getElem? howner, lookUp_of_getElem? hj, hfirst⟩

/-- An instruction that declares nothing leaves the books as they are. -/
theorem Declares.skip (hcode : i.code = none) : r.Declares is made (done ++ [i]) rest where
  is_eq := by rw [h.is_eq, List.append_assoc, List.singleton_append]
  length_owners := h.length_owners
  owner_eq := h.owner_eq
  given_eq := by
    have hbyte : declaredByte i = none := by rw [declaredByte, hcode, Option.map_none]
    rw [h.given_eq, List.map_append, List.map_singleton, hbyte, List.append_assoc,
      List.singleton_append, List.length_cons, List.replicate_succ]
  mark_eq := h.mark_eq

/-- A fresh opcode is given to the instruction that declares it. -/
theorem Declares.exists_give {code : UInt32} (hcode : i.code = some code)
    (hlt : code.toNat < opcodeLimit) (hlookup : made.lookup code.toNat = none) :
    ∃ r', r.give code.toNat done.length = .ok r' ∧
      r'.Declares is (made ++ [(code.toNat, i.name)]) (done ++ [i]) rest := by
  have hlength : (done.map declaredByte).length = done.length := List.length_map _
  have hopcode : code.toNat < r.owners.length := h.length_owners ▸ hlt
  have hposition : done.length < r.given.length := by
    rw [h.given_eq, List.length_append, hlength, List.length_replicate, List.length_cons]
    omega
  refine ⟨_, give_of_lt hopcode hposition, ?_, ?_, ?_, ?_, h.mark_eq⟩
  · rw [h.is_eq, List.append_assoc, List.singleton_append]
  · exact List.length_set.trans h.length_owners
  · intro opcode hlt'
    rw [List.lookup_append]
    by_cases hsame : code.toNat = opcode
    · subst hsame
      refine ⟨some done.length, List.getElem?_set_self hopcode, ?_⟩
      have hi : is[done.length]? = some i := by simp [h.is_eq]
      rw [hlookup, Option.map_some, hi]
      simp
    · obtain ⟨owner, howner, hname⟩ := h.owner_eq opcode hlt'
      refine ⟨owner, (List.getElem?_set_ne hsame).trans howner, ?_⟩
      have hother : List.lookup opcode [(code.toNat, i.name)] = none := by
        simp [List.lookup_cons, beq_false_of_ne (Ne.symm hsame)]
      rw [hname, hother, Option.or_none]
  · have hbyte : declaredByte i = some (UInt8.ofNat code.toNat) := by
      rw [declaredByte, hcode, Option.map_some]
      rfl
    rw [h.given_eq, ← hlength, List.set_append_right _ _ le_rfl, Nat.sub_self, List.length_cons,
      List.replicate_succ, List.set_cons_zero, List.map_append, List.map_singleton, hbyte,
      List.append_assoc, List.singleton_append]

end Declares

/-- The declared opcodes are entered as they are collected. -/
theorem Declares.foldlM_enterDeclared {made : List Claim} (h : r.Declares is made done rest) :
    match collectClaims made rest with
    | .error e => (rest.zipIdx done.length).foldlM (enterDeclared is) r = .error (.refused e)
    | .ok made' => ∃ r', (rest.zipIdx done.length).foldlM (enterDeclared is) r = .ok r' ∧
        r'.Declares is made' is [] := by
  induction rest generalizing made done r with
  | nil =>
    obtain rfl : is = done := h.is_eq.trans (List.append_nil done)
    exact ⟨r, rfl, h⟩
  | cons i rest ih =>
    have hdone : done.length + 1 = (done ++ [i]).length := by simp
    rw [List.zipIdx_cons, List.foldlM_cons, hdone, collectClaims]
    cases hcode : i.code with
    | none =>
      have hstep : enterDeclared is r (i, done.length) = .ok r := by simp only [enterDeclared, hcode]
      rw [hstep]
      exact ih (h.skip hcode)
    | some code =>
      dsimp only
      by_cases hlimit : opcodeLimit ≤ code.toNat
      · have hstep : enterDeclared is r (i, done.length) =
            .error (.refused (.opcodeOutOfRange i.name code.toNat)) := by
          simp only [enterDeclared, hcode, if_pos hlimit]
        rw [if_pos hlimit, hstep]
        rfl
      · have hlt := Nat.lt_of_not_le hlimit
        rw [if_neg hlimit]
        cases hlookup : made.lookup code.toNat with
        | some first =>
          obtain ⟨position, owner, howner, hnamed, rfl⟩ := h.lookUp_of_lookup_eq_some hlt hlookup
          have hstep : enterDeclared is r (i, done.length) =
              .error (.refused (.duplicateOpcode code.toNat owner.name i.name)) := by
            simp only [enterDeclared, hcode, if_neg hlimit, howner, except_ok_bind, hnamed]
          rw [hstep]
          rfl
        | none =>
          obtain ⟨r', hgive, h'⟩ := h.exists_give hcode hlt hlookup
          have hstep : enterDeclared is r (i, done.length) = .ok r' := by
            simp only [enterDeclared, hcode, if_neg hlimit, h.lookUp_of_lookup_eq_none hlt hlookup,
              except_ok_bind, hgive]
          rw [hstep]
          exact ih h'

/-! ### Free opcodes -/

/-- The opcodes from the mark on that nobody owns. -/
def freeFrom (owners : List (Option Nat)) (mark : Nat) : List Nat :=
  (List.range' mark (owners.length - mark)).filter fun opcode => owners[opcode]? == some none

section FreeFrom

variable {owners : List (Option Nat)} {mark opcode : ℕ} {free : List Nat}

theorem freeFrom_of_le (h : owners.length ≤ mark) : freeFrom owners mark = [] := by
  rw [freeFrom, Nat.sub_eq_zero_of_le h]
  rfl

theorem freeFrom_of_lt (h : mark < owners.length) :
    freeFrom owners mark =
      if owners[mark].isSome then freeFrom owners (mark + 1)
      else mark :: freeFrom owners (mark + 1) := by
  have hrange : List.range' mark (owners.length - mark) =
      mark :: List.range' (mark + 1) (owners.length - (mark + 1)) := by
    rw [← List.range'_succ]
    congr 1
    omega
  rw [freeFrom, hrange, List.filter_cons, List.getElem?_eq_getElem h]
  cases owners[mark] <;> rfl

/-- The mark stops at the first free opcode. -/
theorem firstFree_eq (owners : List (Option Nat)) (mark : ℕ) (hmark : mark ≤ owners.length) :
    firstFree owners mark = (freeFrom owners mark).headD owners.length := by
  induction mark using firstFree.induct owners with
  | case1 mark h hsome ih =>
    rw [firstFree, dif_pos h, if_pos hsome, freeFrom_of_lt h, if_pos hsome]
    exact ih h
  | case2 mark h hnone =>
    rw [firstFree, dif_pos h, if_neg hnone, freeFrom_of_lt h, if_neg hnone]
    rfl
  | case3 mark h =>
    rw [firstFree, dif_neg h, freeFrom_of_le (Nat.le_of_not_lt h)]
    exact Nat.le_antisymm hmark (Nat.le_of_not_lt h)

/-- Behind the first free opcode are the others. -/
theorem freeFrom_eq_cons (h : freeFrom owners mark = opcode :: free) :
    opcode < owners.length ∧ free = freeFrom owners (opcode + 1) := by
  induction mark using firstFree.induct owners with
  | case1 mark hlt hsome ih =>
    rw [freeFrom_of_lt hlt, if_pos hsome] at h
    exact ih h
  | case2 mark hlt hnone =>
    rw [freeFrom_of_lt hlt, if_neg hnone] at h
    obtain ⟨rfl, rfl⟩ := List.cons.inj h
    exact ⟨hlt, rfl⟩
  | case3 mark hlt =>
    rw [freeFrom_of_le (Nat.le_of_not_lt hlt)] at h
    cases h

/-- When an opcode is given away, those behind it are as free as they were. -/
theorem freeFrom_set (owners : List (Option Nat)) {opcode : ℕ} (h : opcode < owners.length)
    (position : ℕ) :
    freeFrom (owners.set opcode (some position)) opcode = freeFrom owners (opcode + 1) := by
  have hlength : (owners.set opcode (some position)).length = owners.length := List.length_set
  rw [freeFrom_of_lt (hlength.symm ▸ h), if_pos (by rw [List.getElem_set_self]; rfl), freeFrom,
    freeFrom, hlength]
  apply List.filter_congr
  intro other hother
  have hne : opcode ≠ other := by
    have := List.left_le_of_mem_range' hother
    omega
  rw [List.getElem?_set_ne hne]

end FreeFrom

/-! ### Entering free opcodes -/

/-- The books when the opcodes `free` are left for the instructions `rest`. -/
structure Supplies (free : List Nat) (opcodes : List UInt8) (rest : List InstructionDecl)
    (r : Registrar) : Prop where
  length_owners : r.owners.length = opcodeLimit
  mark_le : r.mark ≤ opcodeLimit
  free_eq : freeFrom r.owners r.mark = free
  given_eq : r.given = opcodes.map some ++ rest.map declaredByte

/-- With all declared opcodes entered, the opcodes that nobody claims are free. -/
theorem Declares.supplies {made : List Claim} (h : r.Declares is made is []) :
    r.Supplies (unclaimed made) [] is where
  length_owners := h.length_owners
  mark_le := h.mark_eq ▸ Nat.zero_le opcodeLimit
  free_eq := by
    rw [freeFrom, h.mark_eq, h.length_owners, Nat.sub_zero, ← List.range_eq_range', unclaimed]
    apply List.filter_congr
    intro opcode hopcode
    obtain ⟨owner, howner, hname⟩ := h.owner_eq opcode (List.mem_range.mp hopcode)
    rw [howner]
    cases owner with
    | none =>
      rw [Option.map_none, eq_comm, Option.map_eq_none_iff] at hname
      rw [hname]
      rfl
    | some position =>
      cases hlookup : made.lookup opcode with
      | none =>
        rw [hlookup] at hname
        cases hname
      | some first => rfl
  given_eq := by rw [h.given_eq, List.length_nil, List.replicate_zero, List.append_nil]; rfl

section Supplies

variable {free : List Nat} {opcodes : List UInt8} (h : r.Supplies free opcodes (i :: rest))

include h

theorem Supplies.lookUp_given : lookUp r.given opcodes.length = .ok (declaredByte i) := by
  apply lookUp_of_getElem?
  rw [h.given_eq, List.getElem?_append_right (by simp)]
  simp

/-- A declared opcode stays with its instruction. -/
theorem Supplies.keep {code : UInt32} (hcode : i.code = some code) :
    r.Supplies free (opcodes ++ [code.toUInt8]) rest where
  length_owners := h.length_owners
  mark_le := h.mark_le
  free_eq := h.free_eq
  given_eq := by
    have hbyte : declaredByte i = some code.toUInt8 := by rw [declaredByte, hcode, Option.map_some]
    rw [h.given_eq, List.map_cons, hbyte, List.map_append, List.append_assoc]
    rfl

theorem Supplies.firstFree_eq : firstFree r.owners r.mark = free.headD opcodeLimit := by
  rw [Registrar.firstFree_eq _ _ (h.length_owners ▸ h.mark_le), h.free_eq, h.length_owners]

end Supplies

/-- The first free opcode goes to the instruction at hand. -/
theorem Supplies.exists_give {opcode : ℕ} {free : List Nat} {opcodes : List UInt8}
    (h : r.Supplies (opcode :: free) opcodes (i :: rest)) :
    opcode < opcodeLimit ∧
      ∃ r', ({ r with mark := opcode } : Registrar).give opcode opcodes.length = .ok r' ∧
        r'.Supplies free (opcodes ++ [UInt8.ofNat opcode]) rest := by
  obtain ⟨hlt, hfree⟩ := freeFrom_eq_cons h.free_eq
  have hlength : (opcodes.map some).length = opcodes.length := List.length_map _
  have hposition : opcodes.length < r.given.length := by
    rw [h.given_eq, List.length_append, hlength, List.length_map, List.length_cons]
    omega
  refine ⟨h.length_owners ▸ hlt, _, give_of_lt hlt hposition, ?_, ?_, ?_, ?_⟩
  · exact List.length_set.trans h.length_owners
  · exact Nat.le_of_lt (h.length_owners ▸ hlt)
  · exact (freeFrom_set r.owners hlt _).trans hfree.symm
  · rw [h.given_eq, ← hlength, List.set_append_right _ _ le_rfl, Nat.sub_self, List.map_cons,
      List.set_cons_zero, List.map_append, List.append_assoc]
    rfl

/-- A run of the registrar refuses what is refused, or adds what is taken to the opcodes that it has
given out before. -/
def Completes (opcodes : List UInt8) (taken : Except SchemaError (List UInt8))
    (run : Except Failure Registrar) : Prop :=
  match taken with
  | .error e => run = .error (.refused e)
  | .ok taken => ∃ r', run = .ok r' ∧ r'.given = (opcodes ++ taken).map some

theorem Completes.cons {opcodes : List UInt8} {taken : Except SchemaError (List UInt8)}
    {run : Except Failure Registrar} {opcode : UInt8}
    (h : Completes (opcodes ++ [opcode]) taken run) :
    Completes opcodes ((opcode :: ·) <$> taken) run := by
  cases taken with
  | error e => exact h
  | ok taken =>
    obtain ⟨r', hrun, hgiven⟩ := h
    exact ⟨r', hrun, by rw [hgiven, List.append_assoc, List.singleton_append]⟩

/-- The free opcodes are entered as they are taken. -/
theorem Supplies.foldlM_enterFree {free : List Nat} {opcodes : List UInt8}
    (h : r.Supplies free opcodes rest) :
    Completes opcodes (takeOpcodes free rest)
      ((rest.zipIdx opcodes.length).foldlM enterFree r) := by
  induction rest generalizing free opcodes r with
  | nil =>
    refine ⟨r, rfl, ?_⟩
    rw [h.given_eq, List.map_nil, List.append_nil, List.append_nil]
  | cons i rest ih =>
    have hlength (opcode : UInt8) : opcodes.length + 1 = (opcodes ++ [opcode]).length := by simp
    rw [List.zipIdx_cons, List.foldlM_cons]
    cases hcode : i.code with
    | some code =>
      have hstep : enterFree r (i, opcodes.length) = .ok r := by
        rw [enterFree, h.lookUp_given, declaredByte, hcode]
        rfl
      rw [hstep, except_ok_bind, hlength code.toUInt8, takeOpcodes_of_code hcode]
      exact (ih (h.keep hcode)).cons
    | none =>
      have hfirst := h.firstFree_eq
      cases free with
      | nil =>
        have hstep : enterFree r (i, opcodes.length) =
            .error (.refused (.opcodeOutOfRange i.name opcodeLimit)) := by
          simp only [enterFree, h.lookUp_given, declaredByte, hcode, Option.map_none, except_ok_bind,
            hfirst, List.headD_nil, le_refl, if_true]
          rfl
        simp only [hstep, takeOpcodes, hcode]
        rfl
      | cons opcode free =>
        obtain ⟨hlt, r', hgive, h'⟩ := h.exists_give
        have hstep : enterFree r (i, opcodes.length) = .ok r' := by
          simp only [enterFree, h.lookUp_given, declaredByte, hcode, Option.map_none, except_ok_bind,
            hfirst, List.headD_cons, if_neg (Nat.not_le_of_lt hlt), hgive]
        rw [hstep, except_ok_bind, hlength (UInt8.ofNat opcode), takeOpcodes_of_free hcode]
        exact (ih h').cons

/-! ### The whole assignment -/

/-- A registrar assigns what is assigned, and refuses what is refused; it never fails to find a
place. -/
theorem assign_eq (is : List InstructionDecl) :
    assign is = (assignOpcodes is).mapError .refused := by
  have hdeclared := (declares_blank is).foldlM_enterDeclared
  rw [assign, assignOpcodes]
  cases hcollect : collectClaims [] is with
  | error e =>
    rw [hcollect] at hdeclared
    rw [show is.zipIdx.foldlM (enterDeclared is) (blank is.length) = _ from hdeclared]
    rfl
  | ok made =>
    rw [hcollect] at hdeclared
    obtain ⟨r, hfold, hr⟩ := hdeclared
    have hfree := hr.supplies.foldlM_enterFree
    rw [show is.zipIdx.foldlM (enterDeclared is) (blank is.length) = _ from hfold, except_ok_bind,
      except_ok_bind]
    cases htake : takeOpcodes (unclaimed made) is with
    | error e =>
      rw [htake] at hfree
      rw [show is.zipIdx.foldlM enterFree r = _ from hfree]
      rfl
    | ok opcodes =>
      rw [htake] at hfree
      obtain ⟨r', hfold', hgiven⟩ := hfree
      rw [show is.zipIdx.foldlM enterFree r = _ from hfold', except_ok_bind, hgiven,
        List.nil_append, List.filterMap_map]
      have hall : opcodes.filterMap (id ∘ some) = opcodes := List.filterMap_some
      rw [hall]
      rfl

end Bytecode.Registrar
