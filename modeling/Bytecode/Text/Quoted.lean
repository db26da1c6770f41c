import Bytecode.Text.Extender
import Bytecode.Text.Hex
import Bytecode.Text.Unprintable

/-!
# Quoted text

Text between double quotes, each character either standing for itself or escaped: the backslash
escapes of the usual control characters, the quote and the backslash, and `\u{…}` with the
hexadecimal code point for every character that would not show as one visible sign.
-/

namespace Bytecode.Text

/-- The escape of a character by its code point. -/
def codePointEscape (c : Char) : List Char :=
  '\\' :: 'u' :: '{' :: (hexDigits c.toNat ++ ['}'])

/-- A character as it stands between quotes. -/
def escapeChar (c : Char) : List Char :=
  if c = '\x00' then ['\\', '0']
  else if c = '\t' then ['\\', 't']
  else if c = '\r' then ['\\', 'r']
  else if c = '\n' then ['\\', 'n']
  else if c = '"' then ['\\', '"']
  else if c = '\\' then ['\\', '\\']
  else if extenders.contains c || unprintables.contains c then codePointEscape c
  else [c]

/-- A text between double quotes. -/
def quoted (s : String) : List Char := '"' :: (s.toList.flatMap escapeChar ++ ['"'])

end Bytecode.Text
