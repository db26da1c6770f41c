import Bytecode.Reader

/-!
# Listings

A listing is a cartridge as text: a line with the title of the format and the numbers in the header,
and a line for each instruction with its mnemonic and its arguments.

A lister is a reader whose handlers are what they print: the header handler is the title and the
handler of an opcode is its instruction, and the listing is the calls made while reading the
cartridge to its end, one line each.
-/

namespace Bytecode

namespace Listing

/-- The line of a header: the title, and the counters and chunk lengths with their names. -/
def headerLine (title : String) (h : Header) : String :=
  let slots := (h.counters ++ h.chunks).map fun slot => ", " ++ slot.1 ++ "=" ++ toString slot.2
  "[" ++ title ++ String.join slots ++ "]\n"

/-- The line of an instruction: its mnemonic and its arguments, two spaces apart. -/
def instructionLine (i : Instruction) (args : List Value) : String :=
  i.mnemonic ++ String.join (args.map fun arg => "  " ++ arg.text) ++ "\n"

/-- The line of a handler's call. -/
def eventLine : Event String Instruction → String
  | .header title h => headerLine title h
  | .instruction i args => instructionLine i args

end Listing

/-- A reader that writes listings of cartridges of one format. -/
structure Lister where
  /-- The reader with its handlers. -/
  reader : Reader String Instruction
deriving Repr, Inhabited

namespace Lister

/-- A lister for a format, with a handler for the header and one for every instruction. -/
def new (f : Format) : Lister :=
  let reader := (Reader.new f : Reader String Instruction).setHeaderHandler f.title
  ⟨f.instructions.foldl (fun r i => r.setHandler i.opcode i) reader⟩

/-- A lister as text, with the names of its parts. -/
def inspect (l : Lister) : String := "Disassembler \x7b decoder: " ++ l.reader.inspect ++ ", .. \x7d"

/-- The listing of the cartridge at the head of a tape, or the first error on the way to its end;
and the lister, which is then without a tape. -/
def list (l : Lister) (t : Tape) : Except ReadError String × Lister :=
  match l.reader.bind t with
  | (.error e, reader) => (.error e, ⟨reader.unbind.2⟩)
  | (.ok opening, reader) =>
    let run := reader.run
    let text := String.join ((opening.toList ++ run.events).map Listing.eventLine)
    let result :=
      match run.failure with
      | some e => .error e
      | none => .ok text
    (result, ⟨run.reader.unbind.2⟩)

end Lister

/-- The listing of the cartridge at the head of a tape. -/
def Format.listing (f : Format) (t : Tape) : Except ReadError String := ((Lister.new f).list t).1

end Bytecode
