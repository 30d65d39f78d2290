import EntityMapper.Text.Hex
import EntityMapper.Text.Printable

/-!
# Quoted text in diagnostics

A text inside a diagnostic stands between double quotes. Quotes, backslashes and
the usual control characters are escaped by a backslash, and a character that
does not show on its own is written as its code point.
-/

namespace EntityMapper.Text

/-- The hexadecimal digits of a code point, without leading zeros. -/
def codePointChars (c : Char) : List Char := Nat.toDigits 16 c.toNat

/-- How one character is written between the quotes. -/
def quotedChar (c : Char) : List Char :=
  if c = '"' then ['\\', '"']
  else if c = '\\' then ['\\', '\\']
  else if c = '\n' then ['\\', 'n']
  else if c = '\r' then ['\\', 'r']
  else if c = '\t' then ['\\', 't']
  else if c.toNat = 0 then ['\\', '0']
  else if isShown c then [c]
  else ['\\', 'u', '\x7b'] ++ codePointChars c ++ ['\x7d']

/-- The text between double quotes. -/
def quoted (text : String) : String :=
  String.ofList ('"' :: text.toList.flatMap quotedChar ++ ['"'])

end EntityMapper.Text
