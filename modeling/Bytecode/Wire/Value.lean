import Bytecode.Number.LittleEndian
import Bytecode.Number.Printing
import Bytecode.Number.Rounding
import Bytecode.Text.Quoted
import Bytecode.Text.Utf8
import Bytecode.Wire.Kind

/-!
# Values

A value is what an instruction takes as argument or a header holds as constant. It has a natural
kind (`Value.kind`), a wire form (`Value.wire`) and a text (`Value.text`), and `Kind.coerce`
converts it to another kind whenever that kind can hold the very same number or bytes.
-/

namespace Bytecode

/-- A value of one of the wire kinds. -/
inductive Value where
  | i32 (v : Int32)
  | u32 (v : UInt32)
  | f64 (v : Double)
  | u8 (v : UInt8)
  | bytes (v : List UInt8)
  | string (v : String)
deriving DecidableEq, Repr, Inhabited

namespace Value

/-- The kind that a value has by itself. -/
def kind : Value → Kind
  | i32 _ => .i32
  | u32 _ => .u32
  | f64 _ => .f64
  | u8 _ => .u8
  | bytes _ => .bytes
  | string _ => .string

/-- The byte `1` or `0` that stands for a truth value. -/
def ofBool (b : Bool) : Value := u8 (if b then 1 else 0)

/-- The integer that a value denotes: any integer value, and a double that equals an integer within
the range where integers and doubles correspond one to one. -/
def toInt? : Value → Option Int
  | i32 v => some v.toInt
  | u32 v => some v.toNat
  | f64 v => v.toInt?
  | u8 v => some v.toNat
  | bytes _ | string _ => none

/-- The double that a numeric value equals. -/
def toDouble? : Value → Option Double
  | i32 v => some (.ofInt v.toInt)
  | u32 v => some (.ofInt v.toNat)
  | f64 v => some v
  | u8 v => some (.ofInt v.toNat)
  | bytes _ | string _ => none

/-- The content of a text value. -/
def toText? : Value → Option String
  | string v => some v
  | _ => none

/-! ### Wire form -/

/-- The bytes of a byte string or a text; numbers have no payload. -/
def payload : Value → List UInt8
  | bytes v => v
  | string v => Text.utf8 v
  | _ => []

/-- A payload behind its length, which is a 32-bit word. -/
def lengthPrefixed (payload : List UInt8) : List UInt8 :=
  LittleEndian.toBytes 4 payload.length ++ payload

/-- The bytes of a value on the wire. -/
def wire : Value → List UInt8
  | i32 v => LittleEndian.toBytes 4 v.toUInt32.toNat
  | u32 v => LittleEndian.toBytes 4 v.toNat
  | f64 v => LittleEndian.toBytes 8 v.bits.toNat
  | u8 v => [v]
  | bytes v => lengthPrefixed v
  | string v => lengthPrefixed (Text.utf8 v)

/-! ### Text -/

/-- The text of a value in a listing: numbers in decimal, texts quoted, byte strings in hexadecimal
between angle brackets. -/
def text : Value → String
  | i32 v => toString v.toInt
  | u32 v => toString v.toNat
  | f64 v => v.plain
  | u8 v => toString v.toNat
  | bytes v => String.ofList ('<' :: (Text.hexBytes v ++ ['>']))
  | string v => String.ofList (Text.quoted v)

/-- The text of a value that also names its kind. -/
def inspect : Value → String
  | i32 v => s!"I32({v.toInt})"
  | u32 v => s!"U32({v.toNat})"
  | f64 v => s!"F64({v.general})"
  | u8 v => s!"U8({v.toNat})"
  | bytes v => "Bytes([" ++ ", ".intercalate (v.map fun b => toString b.toNat) ++ "])"
  | string v => "String(" ++ String.ofList (Text.quoted v) ++ ")"

end Value

/-! ### Conversion between kinds -/

namespace Kind

/-- The default value of a kind: zero, or nothing. -/
def default : Kind → Value
  | i32 => .i32 0
  | u32 => .u32 0
  | f64 => .f64 ⟨0⟩
  | u8 => .u8 0
  | bytes => .bytes []
  | string => .string ""

/-- The value of an integer kind that holds an integer, if the kind's range includes it. -/
def ofInt? (k : Kind) (i : Int) : Option Value :=
  match k with
  | i32 => if -2 ^ 31 ≤ i ∧ i < 2 ^ 31 then some (.i32 (Int32.ofInt i)) else none
  | u32 => if 0 ≤ i ∧ i < 2 ^ 32 then some (.u32 (UInt32.ofNat i.toNat)) else none
  | u8 => if 0 ≤ i ∧ i < 2 ^ 8 then some (.u8 (UInt8.ofNat i.toNat)) else none
  | f64 | bytes | string => none

/-- The value of a kind that equals a given value. A number converts to every numeric kind that
holds exactly that number, a text converts to its bytes, and nothing else changes kind. -/
def coerce (k : Kind) (v : Value) : Option Value :=
  match k with
  | i32 | u32 | u8 => v.toInt?.bind k.ofInt?
  | f64 => v.toDouble?.map .f64
  | bytes =>
    match v with
    | .bytes _ | .string _ => some (.bytes v.payload)
    | _ => none
  | string => v.toText?.map .string

/-- Whether a value can be written as a kind. -/
def accepts (k : Kind) (v : Value) : Bool := (k.coerce v).isSome

end Kind

end Bytecode
