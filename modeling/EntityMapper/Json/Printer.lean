import EntityMapper.Decimal.Layout
import EntityMapper.Json.Document
import EntityMapper.Text.Hex

/-!
# Compact JSON text

A document is written without blanks. Strings escape the double quote, the
backslash and the control characters, five of them by a letter; every other
character stands for itself. Numbers without a JSON form are written `null`.
-/

namespace EntityMapper.Json

/-- How one character is written inside a string. -/
def escapedChar (c : Char) : List Char :=
  if c = '"' then ['\\', '"']
  else if c = '\\' then ['\\', '\\']
  else if c.toNat = 8 then ['\\', 'b']
  else if c.toNat = 9 then ['\\', 't']
  else if c.toNat = 10 then ['\\', 'n']
  else if c.toNat = 12 then ['\\', 'f']
  else if c.toNat = 13 then ['\\', 'r']
  else if c.toNat < 32 then
    ['\\', 'u', '0', '0', Text.hexDigit (c.toNat / 16),
      Text.hexDigit (c.toNat % 16)]
  else [c]

/-- A string between quotes. -/
def stringChars (text : String) : List Char :=
  '"' :: text.toList.flatMap escapedChar ++ ['"']

/-- Texts with commas between them. -/
def joinCommas : List (List Char) → List Char
  | [] => []
  | [text] => text
  | text :: rest => text ++ ',' :: joinCommas rest

namespace Document

mutual

/-- The compact text of a document. -/
def chars : Document → List Char
  | .null => ['n', 'u', 'l', 'l']
  | .bool true => ['t', 'r', 'u', 'e']
  | .bool false => ['f', 'a', 'l', 's', 'e']
  | .int n => (Decimal.intText n).toList
  | .float x => (Decimal.Layout.json.text x).toList
  | .string text => stringChars text
  | .array items => '[' :: joinCommas (itemTexts items) ++ [']']
  | .object members => '\x7b' :: joinCommas (memberTexts members) ++ ['\x7d']

def itemTexts : List Document → List (List Char)
  | [] => []
  | item :: rest => chars item :: itemTexts rest

def memberTexts : List (String × Document) → List (List Char)
  | [] => []
  | (name, value) :: rest =>
    (stringChars name ++ ':' :: chars value) :: memberTexts rest

end

/-- The compact text of a document. -/
def text (document : Document) : String := String.ofList document.chars

end Document

end EntityMapper.Json
