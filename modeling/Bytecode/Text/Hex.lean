/-!
# Hexadecimal text

Bytes as two lower-case hexadecimal digits each, and natural numbers as hexadecimal with or without
padding.
-/

namespace Bytecode.Text

/-- The hexadecimal digits of a natural number, most significant first, without leading zeros. -/
def hexDigits (n : Nat) : List Char := Nat.toDigits 16 n

/-- The two hexadecimal digits of a byte. -/
def hexByte (b : UInt8) : List Char :=
  [Nat.digitChar (b.toNat / 16), Nat.digitChar (b.toNat % 16)]

/-- The hexadecimal digits of a byte string, without separators. -/
def hexBytes (bs : List UInt8) : List Char := bs.flatMap hexByte

/-- A number as `0x` and at least two hexadecimal digits. -/
def hexLiteral (n : Nat) : String :=
  String.ofList ('0' :: 'x' :: if n < 16 then '0' :: hexDigits n else hexDigits n)

end Bytecode.Text
