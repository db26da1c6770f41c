import Bytecode.Lector
import Bytecode.Listing

/-!
# Writing listings in place

A clerk makes the listings that a `Lister` makes, but in place: it has a lector whose world is a
text, and whose handlers write at the end of this text. Before a cartridge is read the text is
cleared, and after that it is taken away, whether the cartridge could be read or not.
-/

namespace Bytecode

namespace Listing

/-- Writes the line of a header, piece by piece. -/
def writeHeader (title : String) : HeaderHandler String := fun header text =>
  let slots := header.counters ++ header.chunks
  let opened := text ++ "[" ++ title
  slots.foldl (fun text slot => text ++ ", " ++ slot.1 ++ "=" ++ toString slot.2) opened ++ "]\n"

/-- Writes the line of an instruction, piece by piece. -/
def writeInstruction (i : Instruction) : Handler String := fun args text =>
  args.foldl (fun text arg => text ++ "  " ++ arg.text) (text ++ i.mnemonic) ++ "\n"

end Listing

/-- A lister that works in place. -/
structure Clerk where
  /-- The lector with its handlers; its world is the text written so far. -/
  lector : Lector String

namespace Clerk

/-- A clerk for a format, with a handler for the header and one for every instruction. -/
def new (f : Format) : Clerk where
  lector :=
    let opened := { Lector.new f "" with headerHandler := some (Listing.writeHeader f.title) }
    f.instructions.foldl (fun s i => s.install i.opcode (Listing.writeInstruction i)) opened

/-- Binds a tape and steps to its end, or to the first error. -/
def drain (t : Tape) : Lector.Work String Unit := do
  Lector.bind t
  fun s =>
    let drained := s.drain
    match drained.failure with
    | none => .ok () drained.lector
    | some e => .error e drained.lector

/-- The listing of the cartridge at the head of a tape, or the first error on the way to its end.
Either way the tape and the text are taken away in the end. -/
def transcribe (t : Tape) : Lector.Work String (Except ReadError String) := do
  modify fun s => { s with world := "" }
  let result ← observing (drain t)
  let _ ← Lector.unbind
  let text := (← get).world
  modify fun s => { s with world := "" }
  return result.map fun _ => text

/-- The listing of the cartridge at the head of a tape, or the first error on the way to its end;
and the clerk afterwards. -/
def list (c : Clerk) (t : Tape) : Except ReadError String × Clerk :=
  match transcribe t c.lector with
  | .ok result s => (result, ⟨s⟩)
  | .error e s => (.error e, ⟨s⟩)

/-- Makes listings one after another and drops them. -/
def listAll (c : Clerk) (tapes : List Tape) : Clerk :=
  tapes.foldl (fun c t => (c.list t).2) c

end Clerk

end Bytecode
