import EntityMapper.Statement.Token
import EntityMapper.Text.Utf8

/-!
# Syntax errors

A syntax error is a cause and a span of the command. Its report shows the
command with a caret under the first character of the span; the underline is as
long as the span has bytes.
-/

namespace EntityMapper

/-- What is wrong with a command text. -/
inductive SyntaxFault
  /-- Characters that begin no token. -/
  | unknownText (text : String)
  | endOfInput
  | expectedStatement (found : Token)
  | trailing (found : Token)
  | expected (wanted found : Token)
  | expectedPredicate (found : Token)
  | expectedComparison (found : Token)
  | expectedValue (found : Token)
  | expectedName (found : Token)
  | expectedCount (found : Token)
  | columnCount (columns values : Nat)
deriving DecidableEq

def SyntaxFault.message : SyntaxFault → String
  | .unknownText text => "unexpected character sequence '" ++ text ++ "'"
  | .endOfInput => "unexpected end of input"
  | .expectedStatement found =>
    "expected SELECT, INSERT, UPDATE or DELETE, found " ++ found.diagnostic
  | .trailing found => "unexpected trailing " ++ found.diagnostic
  | .expected wanted found =>
    "expected " ++ wanted.diagnostic ++ ", found " ++ found.diagnostic
  | .expectedPredicate found =>
    "expected predicate operator, found " ++ found.diagnostic
  | .expectedComparison found =>
    "expected comparison operator, found " ++ found.diagnostic
  | .expectedValue found => "expected value or '?', found " ++ found.diagnostic
  | .expectedName found => "expected identifier, found " ++ found.diagnostic
  | .expectedCount found =>
    "expected non-negative integer, found " ++ found.diagnostic
  | .columnCount columns values =>
    Decimal.natText columns ++ " columns but " ++ Decimal.natText values ++
      " values in INSERT"

/-- A fault and where it lies. -/
structure SyntaxError where
  fault : SyntaxFault
  span : Span
deriving DecidableEq

namespace SyntaxError

def message (e : SyntaxError) : String := e.fault.message

/-- The number of characters that begin before a byte offset. -/
def charsBefore (offset : Nat) : List Char → Nat → Nat
  | [], _ => 0
  | c :: rest, place =>
    if place < offset then charsBefore offset rest (place + c.utf8Size) + 1 else 0

/-- The column of a byte offset, counting characters from one. -/
def column (source : String) (offset : Nat) : Nat :=
  charsBefore offset source.toList 0 + 1

/-- The command with a caret under the span. -/
def report (e : SyntaxError) (source : String) : String :=
  let column := column source e.span.start
  "error: " ++ e.message ++ "\n  --> column " ++ Decimal.natText column ++
    "\n   | " ++ source ++ "\n   | " ++
    String.ofList (List.replicate (column - 1) ' ') ++ "^" ++
    String.ofList (List.replicate (e.span.size - 1) '~') ++ "\n"

end SyntaxError

end EntityMapper
