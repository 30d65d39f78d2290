import EntityMapper.Decimal.Layout
import EntityMapper.Text.Utf8

/-!
# What can be wrong with a JSON text

A fault is a reason and the place where reading stopped. The place is kept as
the number of bytes that were still unread; line and column are computed from
the whole text when they are asked for. Columns count bytes.
-/

namespace EntityMapper.Json

/-- Why a text is not a JSON document. -/
inductive Reason
  | endInValue
  | endInArray
  | endInObject
  | endInString
  | expectedColon
  | expectedCommaOrBracket
  | expectedCommaOrBrace
  | expectedWord
  | expectedValue
  | invalidEscape
  | invalidNumber
  | numberOutOfRange
  | controlCharacter
  | nameNotString
  | loneSurrogate
  | trailingComma
  | trailingCharacters
  | missingSurrogate
  | tooDeep
deriving DecidableEq

def Reason.message : Reason → String
  | .endInValue => "EOF while parsing a value"
  | .endInArray => "EOF while parsing a list"
  | .endInObject => "EOF while parsing an object"
  | .endInString => "EOF while parsing a string"
  | .expectedColon => "expected \x60:\x60"
  | .expectedCommaOrBracket => "expected \x60,\x60 or \x60]\x60"
  | .expectedCommaOrBrace => "expected \x60,\x60 or \x60\x7d\x60"
  | .expectedWord => "expected ident"
  | .expectedValue => "expected value"
  | .invalidEscape => "invalid escape"
  | .invalidNumber => "invalid number"
  | .numberOutOfRange => "number out of range"
  | .controlCharacter =>
    "control character (\\u0000-\\u001F) found while parsing a string"
  | .nameNotString => "key must be a string"
  | .loneSurrogate => "lone leading surrogate in hex escape"
  | .trailingComma => "trailing comma"
  | .trailingCharacters => "trailing characters"
  | .missingSurrogate => "unexpected end of hex escape"
  | .tooDeep => "recursion limit exceeded"

/-- A reason, and the number of bytes that were unread when it was found. -/
structure Fault where
  reason : Reason
  unread : Nat
deriving DecidableEq

/-- A fault at the point where reading stands. -/
def Fault.here (reason : Reason) (rest : List Char) : Fault :=
  ⟨reason, Text.byteSize rest⟩

/-- A fault about the next byte: the place is just past it, or the end of the
text. -/
def Fault.next (reason : Reason) (rest : List Char) : Fault :=
  ⟨reason, Text.byteSize rest - 1⟩

/-- Line and column of a byte offset: one more than the number of line feeds
before it, and the number of bytes after the last of them. The scan keeps the
offset of the next character, the line, and the offset at which the line began.
-/
def lineColumn (offset : Nat) : List Char → Nat → Nat → Nat → Nat × Nat
  | [], _, line, lineStart => (line, offset - lineStart)
  | c :: rest, place, line, lineStart =>
    if c = '\n' ∧ place < offset then
      lineColumn offset rest (place + 1) (line + 1) (place + 1)
    else lineColumn offset rest (place + c.utf8Size) line lineStart

/-- The message of a fault in a text, with its line and column. -/
def Fault.message (text : List Char) (fault : Fault) : String :=
  let (line, column) := lineColumn (Text.byteSize text - fault.unread) text 0 1 0
  fault.reason.message ++ " at line " ++ Decimal.natText line ++ " column " ++
    Decimal.natText column

end EntityMapper.Json
