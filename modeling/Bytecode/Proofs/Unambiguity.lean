import Bytecode.Proofs.Identifiers
import Bytecode.Proofs.Legibility
import Bytecode.Proofs.Transcript

/-!
# Listings are unambiguous

What stands on a tape can be read off its listing, unless doubles are among the arguments
(`listing_unambiguous`). A line tells its instruction by the mnemonic, which ends at the first blank
and which no other instruction has, and the instruction tells the kinds of the arguments
(`Format.legible_line`). The line of the header tells its numbers, since the title and the names of
the slots are those of the format (`Format.eq_of_headerLine`). No line has a line feed but at its
end, apart from those in the title (`count_lineFeed_headerLine`, `count_lineFeed_instructionLine`).
-/

namespace Bytecode

/-! ### Lines -/

namespace Listing

/-- A slot in the line of a header. -/
def slotText (slot : String × ℕ) : List Char :=
  [',', ' '] ++ (slot.1.toList ++ (['='] ++ (toString slot.2).toList))

/-- An argument in the line of an instruction. -/
def argText (arg : Value) : List Char := [' ', ' '] ++ arg.text.toList

theorem toList_headerLine (title : String) (header : Header) :
    (headerLine title header).toList = ['['] ++ title.toList ++
      ((header.counters ++ header.chunks).flatMap slotText ++ [']', '\n']) := by
  simp only [headerLine, String.toList_append, String.toList_join, List.flatMap_map,
    List.append_assoc]
  rfl

theorem toList_instructionLine (i : Instruction) (args : List Value) :
    (instructionLine i args).toList = i.mnemonic.toList ++ (args.flatMap argText ++ ['\n']) := by
  simp only [instructionLine, String.toList_append, String.toList_join, List.flatMap_map,
    List.append_assoc]
  rfl

/-! ### Line feeds -/

variable {f : Format} {header : Header} {i : Instruction}

theorem count_lineFeed_headerLine (hf : f.Identified)
    (hcounters : List.Forall₂ Slot.Admits f.counters header.counters)
    (hchunks : List.Forall₂ Slot.Admits f.chunks header.chunks) :
    (headerLine f.title header).toList.count '\n' = f.title.toList.count '\n' + 1 := by
  have hslots : '\n' ∉ (header.counters ++ header.chunks).flatMap slotText := by
    intro hfeed
    obtain ⟨slot, hslot, hfeed⟩ := List.mem_flatMap.mp hfeed
    -- the name of the slot is declared
    have hname : slot.1 ∈ (f.counters ++ f.chunks).map (·.name) := by
      rw [List.map_append, ← Slot.map_fst_of_admits hcounters, ← Slot.map_fst_of_admits hchunks,
        ← List.map_append]
      exact List.mem_map_of_mem hslot
    obtain ⟨s, hs, hsame⟩ := List.mem_map.mp hname
    have hidentifier := lineFeed_notMem_of_isIdentifier (hf.slots s hs)
    rw [hsame] at hidentifier
    have hnumber : '\n' ∉ (toString slot.2).toList := lineFeed_notMem_toString slot.2
    simp only [slotText, List.mem_append, hidentifier, hnumber] at hfeed
    exact absurd hfeed (by decide)
  rw [toList_headerLine, List.count_append, List.count_append, List.count_append,
    List.count_eq_zero_of_not_mem hslots, List.count_eq_zero_of_not_mem (l := ['[']) (by decide),
    Nat.zero_add, Nat.zero_add]
  rfl

theorem count_lineFeed_instructionLine (hf : f.Identified) (hf' : f.WellNamed)
    (hi : i ∈ f.instructions) (args : List Value) :
    (instructionLine i args).toList.count '\n' = 1 := by
  have hmnemonic : '\n' ∉ i.mnemonic.toList := by
    rw [hf'.mnemonic_eq i hi]
    exact notMem_of_forall (fun _ => isWordChar_of_mem_mnemonic (hf.instructions i hi)) (by decide)
  have hargs : '\n' ∉ args.flatMap argText := by
    simp [argText, Value.lineFeed_notMem_text]
  rw [toList_instructionLine, List.count_append, List.count_append,
    List.count_eq_zero_of_not_mem hmnemonic, List.count_eq_zero_of_not_mem hargs]
  rfl

end Listing

/-! ### Reading lines off -/

open Listing

theorem legible_slotText (s : Slot) : Legible s.Admits slotText (isNumeral · = false) := by
  intro slot slot' rest rest' hslot hslot' hrest hrest' heq
  simp only [slotText, hslot.1, hslot'.1, List.append_assoc, List.append_cancel_left_eq] at heq
  obtain ⟨hnumber, hclose⟩ : (slot.2 : ℤ) = slot'.2 ∧ rest = rest' :=
    legible_toString_int trivial trivial hrest hrest' heq
  exact ⟨Prod.ext (hslot.1.trans hslot'.1.symm) (Int.ofNat_inj.mp hnumber), hclose⟩

theorem legible_argText {field : Field} (hkind : field.kind ≠ .f64) :
    Legible field.Admits argText (isNumeral · = false) := by
  intro v v' rest rest' hv hv' hrest hrest' heq
  rw [argText, argText, List.append_assoc, List.append_assoc, List.append_cancel_left_eq] at heq
  exact Value.legible_text hkind hv.1 hv'.1 hrest hrest' heq

namespace Format

variable {f : Format}

/-- The format has the instruction, and it takes the arguments. -/
def Allows (f : Format) (call : Instruction × List Value) : Prop :=
  call.1 ∈ f.instructions ∧ call.1.Takes call.2

/-- The line of an instruction with its arguments. -/
def lineOf (call : Instruction × List Value) : List Char :=
  (instructionLine call.1 call.2).toList

/-- Mnemonics end at the first blank. -/
theorem legible_mnemonic (hf : f.Identified) (hf' : f.WellNamed) :
    Legible (· ∈ f.instructions) (·.mnemonic.toList) (isWordChar · = false) := by
  apply legible_of_forall_mem
  · intro i j hi hj hsame
    exact List.inj_on_of_nodup_map hf'.nodup_mnemonics hi hj (String.toList_inj.mp hsame)
  · intro i hi c hc
    rw [hf'.mnemonic_eq i hi] at hc
    exact isWordChar_of_mem_mnemonic (hf.instructions i hi) hc

theorem legible_line (hf : f.Identified) (hf' : f.WellNamed)
    (hkinds : ∀ i ∈ f.instructions, ∀ arg ∈ i.args, arg.kind ≠ .f64) :
    Legible f.Allows lineOf fun _ => True := by
  rintro ⟨i, args⟩ ⟨j, args'⟩ rest rest' ⟨hi, htakes⟩ ⟨hj, htakes'⟩ - - heq
  -- behind the mnemonic there is the first argument or the end of the line
  have hblank (args : List Value) (rest : List Char) :
      ∀ c ∈ (args.flatMap argText ++ '\n' :: rest).head?, isWordChar c = false := by
    cases args with
    | nil => exact fun c hc => Option.some.inj hc ▸ rfl
    | cons arg args => exact fun c hc => Option.some.inj hc ▸ rfl
  simp only [lineOf, toList_instructionLine, List.append_assoc, List.singleton_append] at heq
  obtain ⟨rfl, hargs⟩ := legible_mnemonic hf hf' hi hj (hblank _ _) (hblank _ _) heq
  have hfields : ∀ field ∈ i.args, Legible field.Admits argText (isNumeral · = false) :=
    fun field hfield => legible_argText (hkinds i hi field hfield)
  obtain ⟨rfl, hclose⟩ := Legible.eq_of_forall₂ hfields (fun v => ⟨' ', _, rfl, by decide⟩)
    htakes htakes' (by simp [isNumeral]) (by simp [isNumeral]) hargs
  exact ⟨rfl, (List.cons.inj hclose).2⟩

theorem eq_of_headerLine {header header' : Header} {rest rest' : List Char}
    (hslots : List.Forall₂ Slot.Admits (f.counters ++ f.chunks)
      (header.counters ++ header.chunks))
    (hslots' : List.Forall₂ Slot.Admits (f.counters ++ f.chunks)
      (header'.counters ++ header'.chunks))
    (heq : (headerLine f.title header).toList ++ rest =
      (headerLine f.title header').toList ++ rest') :
    header.counters ++ header.chunks = header'.counters ++ header'.chunks ∧ rest = rest' := by
  rw [toList_headerLine, toList_headerLine, List.append_assoc, List.append_assoc _ _ rest',
    List.append_cancel_left_eq, List.append_assoc, List.append_assoc _ _ rest'] at heq
  obtain ⟨hsame, hclose⟩ := Legible.eq_of_forall₂ (fun s _ => legible_slotText s)
    (fun slot => ⟨',', _, rfl, by decide⟩) hslots hslots' (by simp [isNumeral])
    (by simp [isNumeral]) heq
  exact ⟨hsame, List.append_cancel_left hclose⟩

end Format

/-! ### Listings -/

/-- What is decoded, wherever it stands: an instruction with its arguments. -/
def Decoded.call (d : Decoded) : Instruction × List Value := (d.instruction, d.args)

namespace Format

variable {f : Format} {header header' : Header} {ds ds' : List Decoded} {t : Tape} {text : String}

/-- A lector that is given a tape finds a header there, and instructions up to the end. -/
def Carries (f : Format) (t : Tape) (header : Header) (ds : List Decoded) : Prop :=
  ∃ s, Lector.bind t (Lector.new f ()) = .ok () s ∧ s.header = some header ∧ s.collect = ⟨ds, none⟩

/-- A text is the listing of a header and instructions, such as there may be in a cartridge. -/
structure Shows (f : Format) (header : Header) (ds : List Decoded) (text : String) : Prop where
  counters : List.Forall₂ Slot.Admits f.counters header.counters
  chunks : List.Forall₂ Slot.Admits f.chunks header.chunks
  allows : ∀ call ∈ ds.map Decoded.call, f.Allows call
  toList_eq : text.toList =
    (headerLine f.title header).toList ++ (ds.map Decoded.call).flatMap lineOf

theorem allows_of_mem_readAll {d : Decoded} (hd : d ∈ (f.readAll t).instructions) :
    f.Allows d.call := by
  obtain ⟨t₁, t₂, hread⟩ := exists_readInstruction_of_mem_readAll hd
  obtain ⟨-, hinstruction, htakes, -⟩ := readInstruction_eq_ok_iff.mp hread
  exact ⟨List.mem_of_find?_eq_some hinstruction, htakes⟩

theorem exists_carries_of_transcript (hf : f.WellFormed) (h : f.transcript t = .ok text) :
    ∃ header ds, f.Carries t header ds ∧ f.Shows header ds text := by
  rw [transcript] at h
  split at h
  · cases h
  · rename_i header t' hread
    split at h
    · cases h
    · rename_i hend
      obtain rfl := Except.ok.inj h
      obtain ⟨s, hbind, hs, -⟩ := (Lector.represents_new hf ()).exists_bind_eq_ok hread
      obtain ⟨-, -, hcounters, hchunks, -⟩ := readHeader_eq_ok_iff_passes.mp hread
      refine ⟨header, (f.readAll t').instructions, ⟨s, hbind, hs.header_eq, ?_⟩, hcounters,
        hchunks, ?_, ?_⟩
      · exact (hs.collect rfl rfl).trans (by rw [← hend]; rfl)
      · intro call hcall
        obtain ⟨d, hd, rfl⟩ := List.mem_map.mp hcall
        exact allows_of_mem_readAll hd
      · rw [String.toList_append, String.toList_join, List.flatMap_map, List.flatMap_map]
        rfl

theorem Shows.count_lineFeed (h : f.Shows header ds text) (hf : f.Identified)
    (hf' : f.WellNamed) :
    text.toList.count '\n' = f.title.toList.count '\n' + 1 + ds.length := by
  have hlines : ((ds.map Decoded.call).flatMap lineOf).count '\n' = ds.length := by
    have hone : ∀ call ∈ ds.map Decoded.call, (List.count '\n' ∘ lineOf) call = 1 :=
      fun call hcall => count_lineFeed_instructionLine hf hf' (h.allows call hcall).1 call.2
    rw [List.count_flatMap, List.map_congr_left hone, List.map_const', List.length_map,
      List.sum_replicate_nat, Nat.mul_one]
  rw [h.toList_eq, List.count_append, count_lineFeed_headerLine hf h.counters h.chunks, hlines]

/-- What is listed can be read off the listing. -/
theorem Shows.unique (h : f.Shows header ds text) (h' : f.Shows header' ds' text)
    (hf : f.Identified) (hf' : f.WellNamed)
    (hkinds : ∀ i ∈ f.instructions, ∀ arg ∈ i.args, arg.kind ≠ .f64) :
    header.counters = header'.counters ∧ header.chunks = header'.chunks ∧
      ds.map Decoded.call = ds'.map Decoded.call := by
  have heq := h.toList_eq.symm.trans h'.toList_eq
  obtain ⟨hslots, hlines⟩ := eq_of_headerLine (List.rel_append h.counters h.chunks)
    (List.rel_append h'.counters h'.chunks) heq
  have hlength : header.counters.length = header'.counters.length :=
    h.counters.length_eq.symm.trans h'.counters.length_eq
  obtain ⟨hcounters, hchunks⟩ := List.append_inj hslots hlength
  -- nothing comes behind the last line, while each line has at least its line feed
  have hend (call : Instruction × List Value) (tail : List Char) : lineOf call ++ tail ≠ [] := by
    simp [lineOf, toList_instructionLine]
  rw [← List.append_nil ((ds.map Decoded.call).flatMap lineOf),
    ← List.append_nil ((ds'.map Decoded.call).flatMap lineOf)] at hlines
  obtain ⟨hcalls, -⟩ := (legible_line hf hf' hkinds).eq_of_flatMap h.allows h'.allows
    (fun call tail _ => hend call tail) (fun call tail _ => hend call tail) hlines
  exact ⟨hcounters, hchunks, hcalls⟩

end Format

/-- **Listings are unambiguous.** Whatever has been listed before, a listing of a tape has one line
feed for the header, apart from those in the title, and one for each instruction. If no argument is
a double, another tape with the same listing carries the same counters and chunk lengths, and the
same instructions with the same arguments. -/
theorem listing_unambiguous {schema : Schema} {f : Format} (hload : schema.load = .ok f)
    (earlier : List Tape) {t : Tape} {text : String}
    (hlist : (((Clerk.new f).listAll earlier).list t).1 = .ok text) :
    ∃ header ds, f.Carries t header ds ∧
      text.toList.count '\n' = f.title.toList.count '\n' + 1 + ds.length ∧
      ((∀ i ∈ f.instructions, ∀ arg ∈ i.args, arg.kind ≠ .f64) →
        ∀ (earlier' : List Tape) (t' : Tape),
          (((Clerk.new f).listAll earlier').list t').1 = .ok text →
          ∃ header' ds', f.Carries t' header' ds' ∧
            header'.counters = header.counters ∧ header'.chunks = header.chunks ∧
            ds'.map Decoded.call = ds.map Decoded.call) := by
  have hf := Schema.wellFormed_of_load hload
  have hnamed := Schema.wellNamed_of_load hload
  have hidentified := Schema.identified_of_load hload
  have hclerk := Clerk.writes_new hf
  have htranscript {earlier : List Tape} {t : Tape}
      (hlist : (((Clerk.new f).listAll earlier).list t).1 = .ok text) : f.transcript t = .ok text :=
    (Clerk.list_eq (Clerk.writes_listAll hclerk earlier) t).1.symm.trans hlist
  obtain ⟨header, ds, hcarries, hshows⟩ := Format.exists_carries_of_transcript hf (htranscript hlist)
  refine ⟨header, ds, hcarries, hshows.count_lineFeed hidentified hnamed, ?_⟩
  intro hkinds earlier' t' hlist'
  obtain ⟨header', ds', hcarries', hshows'⟩ :=
    Format.exists_carries_of_transcript hf (htranscript hlist')
  exact ⟨header', ds', hcarries', hshows'.unique hshows hidentified hnamed hkinds⟩

/-- The cartridge that `sampleCartridge` is, behind another byte. -/
theorem listing_unambiguous_of_sample :
    ∃ header ds header' ds', sampleFormat.Carries sampleCartridge header ds ∧ ds.length = 2 ∧
      sampleFormat.Carries ⟨[9], sampleCartridge.after, true⟩ header' ds' ∧
      header'.counters = header.counters ∧ ds'.map Decoded.call = ds.map Decoded.call := by
  have hload : sampleSchema.load = .ok sampleFormat := by decide +kernel
  have hclerk := Clerk.writes_new (Schema.wellFormed_of_load hload)
  have hlist : (((Clerk.new sampleFormat).listAll [sampleCut]).list sampleCartridge).1 =
      .ok "[LW, labels=1, code=10]\nPUSH  5\nPUSH  7\n" :=
    (Clerk.list_eq (Clerk.writes_listAll hclerk _) _).1.trans (by decide +kernel)
  have hlist' : (((Clerk.new sampleFormat).listAll []).list
      ⟨[9], sampleCartridge.after, true⟩).1 = .ok "[LW, labels=1, code=10]\nPUSH  5\nPUSH  7\n" :=
    (Clerk.list_eq (Clerk.writes_listAll hclerk _) _).1.trans (by decide +kernel)
  obtain ⟨header, ds, hcarries, hfeeds, hother⟩ := listing_unambiguous hload [sampleCut] hlist
  obtain ⟨header', ds', hcarries', hcounters, -, hcalls⟩ :=
    hother (by decide) [] ⟨[9], sampleCartridge.after, true⟩ hlist'
  have hlength : 3 = 0 + 1 + ds.length := hfeeds
  exact ⟨header, ds, header', ds', hcarries, by omega, hcarries', hcounters, hcalls⟩

end Bytecode
