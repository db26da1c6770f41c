import Bytecode.Wire.Codec

/-!
# Decks

A deck holds a tape as a machine does: one store of bytes and the offset of the head in it. Work on
a deck computes offsets in 64-bit words, looks at stretches of the store between two offsets, and
copies bytes over such stretches after making the store long enough.

Nothing in this representation keeps the head inside the store, a sum of offsets from overflowing or
an access in range, as the two halves of a `Tape` do. Work that goes wrong in one of these ways
stops with a failure of its own (`Deck.Failure`), and a failure leaves the deck as it is at that
moment: nothing is put back.

`Deck.Action` lists what can be done to a deck, `Deck.Action.serve` does it, and
`Deck.Action.onTape` does the same to a tape, by the operations of `Tape`.
-/

namespace Bytecode

/-- A byte string with a head, held as one store and an offset. -/
structure Deck where
  store : List UInt8
  head : Nat
  /-- Whether the deck was made to be extended. -/
  growable : Bool
deriving DecidableEq, Repr, Inhabited

namespace Deck

/-- Every store has fewer bytes than this. -/
def storeLimit : Nat := 2 ^ 63

/-- Bytes that are handed to a deck. They are in store themselves. -/
abbrev Block := { bs : List UInt8 // bs.length < storeLimit }

/-! ### Construction and views -/

/-- How a deck comes about. -/
inductive Origin where
  /-- Empty, to be extended. -/
  | blank
  /-- Holding given bytes, not to be extended. -/
  | fixed (bs : Block)
deriving DecidableEq, Repr

/-- A new deck, its head at the start. -/
def Origin.deck : Origin → Deck
  | blank => ⟨[], 0, true⟩
  | fixed bs => ⟨bs, 0, false⟩

/-- A new tape. -/
def Origin.tape : Origin → Tape
  | blank => .blank
  | fixed bs => .fixed bs

/-- The number of bytes between the head and the end. -/
def remaining (d : Deck) : Nat := d.store.length - d.head

/-- The tape that a deck holds. -/
def tape (d : Deck) : Tape := ⟨d.store.take d.head, d.store.drop d.head, d.growable⟩

/-! ### Failures -/

/-- Why work on a deck stops. -/
inductive Failure where
  /-- Access is denied. -/
  | fault (reason : Tape.Fault)
  /-- A value is not written. -/
  | refused (reason : ValueError)
  /-- The sum of two offsets is not a 64-bit word. -/
  | overflow
  /-- An access goes outside the bytes that it is made to. -/
  | outOfRange
  /-- The store cannot be made as long as it would have to be. -/
  | full
deriving DecidableEq, Repr, Inhabited

/-- Work on a deck, which leaves the deck where it got to when it fails. -/
abbrev Work := EStateM Failure Deck

/-- The sum of two offsets, if it is a 64-bit word. -/
def sum? (a b : Nat) : Option Nat :=
  if a + b < Tape.offsetLimit then some (a + b) else none

/-- The bytes of the store between two offsets, if the offsets are in order and in range. -/
def stretch? (start stop : Nat) (d : Deck) : Option (List UInt8) :=
  if start ≤ stop ∧ stop ≤ d.store.length then some ((d.store.drop start).take (stop - start))
  else none

/-! ### Moving and reading -/

/-- Puts the head at an offset, wherever that is. -/
def moveTo (offset : Nat) : Work Unit := fun d => .ok () { d with head := offset }

/-- Moves the head to an absolute offset, at most to the end. -/
def seek (offset : Nat) : Work Unit := fun d =>
  if d.store.length < offset then .error (.fault .outOfBounds) d else moveTo offset d

/-- Takes the next `count` bytes; takes none if there are fewer. -/
def take (count : Nat) : Work (List UInt8) := fun d =>
  match sum? d.head count with
  | none => .error (.fault (.truncated d.head count)) d
  | some stop =>
    match d.stretch? d.head stop with
    | none => .error (.fault (.truncated d.head count)) d
    | some bs => .ok bs { d with head := stop }

/-- The byte at a place among given bytes. -/
def byteAt (place : Nat) (bs : List UInt8) : Work UInt8 :=
  match bs[place]? with
  | some b => pure b
  | none => throw .outOfRange

/-- Takes the next `width` bytes and copies them to a place of just that width. -/
def takeWord (width : Nat) : Work (List UInt8) := do
  let bs ← take width
  if bs.length = width then pure bs else throw .outOfRange

/-- Reads a byte. -/
def readByte : Work UInt8 := do
  let bs ← take 1
  byteAt 0 bs

/-- Reads an unsigned 32-bit word. -/
def readWord : Work UInt32 := (fun bs => UInt32.ofNat (LittleEndian.ofBytes bs)) <$> takeWord 4

/-- Reads a signed 32-bit word. -/
def readInt : Work Int32 :=
  (fun bs => (UInt32.ofNat (LittleEndian.ofBytes bs)).toInt32) <$> takeWord 4

/-- Reads a double. -/
def readDouble : Work Double := (fun bs => ⟨UInt64.ofNat (LittleEndian.ofBytes bs)⟩) <$> takeWord 8

/-- Reads `count` bytes as a text. The head has moved when the bytes turn out not to be one. -/
def readText (count : Nat) : Work String := do
  let d ← get
  let bs ← take count
  match Text.ofUtf8? bs with
  | some s => pure s
  | none => throw (.fault (.malformedText d.head))

/-! ### Absolute access to bytes -/

/-- The `count` bytes from an absolute offset. -/
def peek (offset count : Nat) : Work (List UInt8) := fun d =>
  match sum? offset count with
  | none => .error (.fault .outOfBounds) d
  | some stop =>
    match d.stretch? offset stop with
    | none => .error (.fault (.truncated offset count)) d
    | some bs => .ok bs d

/-- The byte at an absolute offset. -/
def peekByte (offset : Nat) : Work UInt8 := do
  let bs ← peek offset 1
  byteAt 0 bs

/-- The unsigned 32-bit word at an absolute offset. -/
def peekWord (offset : Nat) : Work UInt32 := do
  let bs ← peek offset 4
  let b₀ ← byteAt 0 bs
  let b₁ ← byteAt 1 bs
  let b₂ ← byteAt 2 bs
  let b₃ ← byteAt 3 bs
  pure (UInt32.ofNat (LittleEndian.ofBytes [b₀, b₁, b₂, b₃]))

/-! ### Writing -/

/-- Makes the store `size` bytes long, with zeros after the bytes it holds. -/
def resize (size : Nat) : Work Unit := fun d =>
  if size < storeLimit then
    .ok () { d with store := d.store.take size ++ List.replicate (size - d.store.length) 0 }
  else
    .error .full d

/-- Copies bytes over the stretch of the store between two offsets. -/
def overwrite (start stop : Nat) (bs : List UInt8) : Work Unit := fun d =>
  if start ≤ stop ∧ stop ≤ d.store.length ∧ bs.length = stop - start then
    .ok () { d with store := d.store.take start ++ bs ++ d.store.drop stop }
  else
    .error .outOfRange d

/-- Writes bytes at the head, making the store longer where it ends too early. -/
def write (bs : List UInt8) : Work Unit := do
  let d ← get
  match sum? d.head bs.length with
  | none => throw .overflow
  | some stop =>
    if d.store.length < stop then resize stop
    overwrite d.head stop bs
    moveTo stop

/-- Writes a natural number of `width` bytes. -/
def writeNat (width n : Nat) : Work Unit := write (LittleEndian.toBytes width n)

/-- Writes the length of a payload and then the payload, if a length word can say that length. -/
def writePrefixed (payload : List UInt8) : Work Unit := do
  if payload.length < lengthLimit then
    writeNat 4 payload.length
    write payload
  else
    throw (.refused (.tooLong payload.length))

/-- Writes a value as the kind that it has by itself. -/
def writeValue : Value → Work Unit
  | .i32 v => writeNat 4 v.toUInt32.toNat
  | .u32 v => writeNat 4 v.toNat
  | .f64 v => writeNat 8 v.bits.toNat
  | .u8 v => write [v]
  | .bytes v => writePrefixed v
  | .string v => writePrefixed (Text.utf8 v)

/-- Writes a value as a kind, converting it first. -/
def encode (k : Kind) (v : Value) : Work Unit :=
  match k.coerce v with
  | none => throw (.refused (.mismatch k))
  | some w => writeValue w

/-- Replaces bytes of the store from an absolute offset: the head goes there, writes, and returns to
where it was. -/
def poke (offset : Nat) (bs : List UInt8) : Work Unit := do
  let d ← get
  match sum? offset bs.length with
  | none => throw (.fault .outOfBounds)
  | some stop =>
    if d.store.length < stop then
      throw (.fault .outOfBounds)
    else
      moveTo offset
      write bs
      moveTo d.head

/-! ### Actions -/

/-- A sequential read. -/
inductive Read where
  | byte
  | word
  | int
  | double
  | bytes (count : Nat)
  | text (count : Nat)
deriving DecidableEq, Repr

namespace Read

/-- The kind of what is read. -/
def kind : Read → Kind
  | byte => .u8
  | word => .u32
  | int => .i32
  | double => .f64
  | bytes _ => .bytes
  | text _ => .string

/-- The number of bytes that are read. -/
def width : Read → Nat
  | byte => 1
  | word | int => 4
  | double => 8
  | bytes count | text count => count

/-- Reads from a deck. -/
def run : Read → Work Value
  | byte => .u8 <$> readByte
  | word => .u32 <$> readWord
  | int => .i32 <$> readInt
  | double => .f64 <$> readDouble
  | bytes count => .bytes <$> take count
  | text count => .string <$> readText count

/-- Reads from a tape. -/
def onTape : Read → Tape.Reading Value
  | byte => .u8 <$> Tape.readByte
  | word => .u32 <$> Tape.readWord
  | int => .i32 <$> Tape.readInt
  | double => .f64 <$> Tape.readDouble
  | bytes count => .bytes <$> Tape.take count
  | text count => .string <$> Tape.readText count

end Read

/-- Something that is done to a deck. -/
inductive Action where
  | seek (offset : Nat)
  | read (what : Read)
  | peek (offset count : Nat)
  | peekByte (offset : Nat)
  | peekWord (offset : Nat)
  | write (bs : Block)
  | encode (k : Kind) (v : Value)
  | poke (offset : Nat) (bs : Block)

namespace Action

/-- Does something to a deck, with the value that it finds, if it looks for one. -/
def serve : Action → Work (Option Value)
  | seek offset => (fun _ => none) <$> Deck.seek offset
  | read what => some <$> what.run
  | peek offset count => (fun bs => some (.bytes bs)) <$> Deck.peek offset count
  | peekByte offset => (fun b => some (.u8 b)) <$> Deck.peekByte offset
  | peekWord offset => (fun w => some (.u32 w)) <$> Deck.peekWord offset
  | write bs => (fun _ => none) <$> Deck.write bs
  | encode k v => (fun _ => none) <$> Deck.encode k v
  | poke offset bs => (fun _ => none) <$> Deck.poke offset bs

/-- Does the same to a tape. -/
def onTape : Action → Tape → EStateM.Result Failure Tape (Option Value)
  | seek offset, t =>
    match t.seek offset with
    | .ok t' => .ok none t'
    | .error reason => .error (.fault reason) t
  | read what, t =>
    match what.onTape t with
    | .ok v t' => .ok (some v) t'
    | .error reason t' => .error (.fault reason) t'
  | peek offset count, t =>
    match t.peek offset count with
    | .ok bs => .ok (some (.bytes bs)) t
    | .error reason => .error (.fault reason) t
  | peekByte offset, t =>
    match t.peekNat offset 1 with
    | .ok n => .ok (some (.u8 (UInt8.ofNat n))) t
    | .error reason => .error (.fault reason) t
  | peekWord offset, t =>
    match t.peekNat offset 4 with
    | .ok n => .ok (some (.u32 (UInt32.ofNat n))) t
    | .error reason => .error (.fault reason) t
  | write bs, t => .ok none (t.write bs)
  | encode k v, t =>
    match k.encode v t with
    | .ok t' => .ok none t'
    | .error reason => .error (.refused reason) t
  | poke offset bs, t =>
    match t.patch offset bs with
    | .ok t' => .ok none t'
    | .error reason => .error (.fault reason) t

end Action

/-- The deck that work leaves, whether it succeeds or fails. -/
def left {α : Type} : EStateM.Result Failure Deck α → Deck
  | .ok _ d => d
  | .error _ d => d

/-- The deck that actions leave when they are done one after another, whatever becomes of each. -/
def after (actions : List Action) (d : Deck) : Deck :=
  actions.foldl (fun d action => left (action.serve d)) d

end Deck

end Bytecode
