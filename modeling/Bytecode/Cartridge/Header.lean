import Bytecode.Format
import Bytecode.Wire.Codec

/-!
# Headers of cartridges

`Format.readHeader` reads what stands before the instructions of a cartridge: the constants, which
must be those of the format bit for bit, and the numbers in the counter and chunk slots.

Reading a cartridge runs in the monad `Parsing`, in which a failure leaves no tape behind: whoever
reads still has the tape as it was before.
-/

namespace Bytecode

/-! ### Reading with one kind of error -/

/-- Why a cartridge cannot be read. -/
inductive ReadError where
  /-- No tape is bound, or none whose header is valid. -/
  | notBound
  /-- A field of the header is missing or is not what the format says. -/
  | corruptHeader (field : String)
  /-- No instruction has this opcode. -/
  | unknownOpcode (opcode : UInt8)
  /-- No instruction has this name or mnemonic. -/
  | unknownInstruction (name : String)
  /-- The bytes of an instruction cannot be read. -/
  | fault (reason : Tape.Fault)
deriving DecidableEq, Repr

/-- The wording of an error. -/
def ReadError.message : ReadError → String
  | notBound => "no valid cartridge buffer is bound"
  | corruptHeader field => s!"corrupt header field '{field}'"
  | unknownOpcode opcode => s!"unknown opcode {Text.hexLiteral opcode.toNat}"
  | unknownInstruction name => s!"unknown instruction '{name}'"
  | fault reason => s!"decode error: {reason.message}"

/-- Reading a cartridge: a computation that moves the head of a tape, or fails. -/
abbrev Parsing := StateT Tape (Except ReadError)

/-- Sequential reading as part of reading a cartridge, its faults reported in the given way. -/
def Tape.Reading.reporting {α : Type} (read : Tape.Reading α) (report : Tape.Fault → ReadError) :
    Parsing α := fun t =>
  match read t with
  | .ok a t => .ok (a, t)
  | .error fault _ => .error (report fault)

/-! ### Headers -/

/-- What the header of a cartridge says. -/
structure Header where
  /-- The offset at which the cartridge starts. -/
  start : Nat
  /-- The offset at which its instructions start. -/
  bodyStart : Nat
  fields : List (String × Value)
  counters : List (String × Nat)
  chunks : List (String × Nat)
deriving DecidableEq, Repr, Inhabited

namespace Header

/-- The constant with a given name. -/
def field? (h : Header) (name : String) : Option Value := h.fields.lookup name

/-- The counter with a given name. -/
def counter? (h : Header) (name : String) : Option Nat := h.counters.lookup name

/-- The chunk length with a given name. -/
def chunk? (h : Header) (name : String) : Option Nat := h.chunks.lookup name

/-- A header as text, with the names of its parts. -/
def inspect (h : Header) : String :=
  let list (items : List String) := "[" ++ ", ".intercalate items ++ "]"
  let name (s : String) := String.ofList (Text.quoted s)
  let field (entry : String × Value) := s!"({name entry.1}, {entry.2.inspect})"
  let slot (entry : String × Nat) :=
    "Slot \x7b name: " ++ name entry.1 ++ ", value: " ++ toString entry.2 ++ " \x7d"
  "HeaderInfo \x7b start: " ++ toString h.start ++ ", body_start: " ++ toString h.bodyStart ++
    ", fields: " ++ list (h.fields.map field) ++ ", counters: " ++ list (h.counters.map slot) ++
    ", chunks: " ++ list (h.chunks.map slot) ++ " \x7d"

end Header

/-- Reads a constant, which must be the one of the format. -/
def Constant.read (c : Constant) : Parsing (String × Value) := do
  let value ← (c.value.kind.decode).reporting fun _ => .corruptHeader c.name
  -- Doubles are their bits here, so this tells zeros and not-a-numbers apart.
  if value = c.value then return (c.name, value)
  else throw (.corruptHeader c.name)

/-- Reads the number in a slot. -/
def Slot.read (s : Slot) : Parsing (String × Nat) := do
  let number ← (Tape.readNat s.width).reporting fun _ => .corruptHeader s.name
  return (s.name, number)

/-- Reads the header of a cartridge. -/
def Format.readHeader (f : Format) : Parsing Header := do
  let start := (← get).pos
  let fields ← f.header.mapM Constant.read
  let counters ← f.counters.mapM Slot.read
  let chunks ← f.chunks.mapM Slot.read
  return ⟨start, (← get).pos, fields, counters, chunks⟩

end Bytecode
