import EntityMapper.Text.Ascii
import EntityMapper.Text.Blank
import EntityMapper.Value

/-!
# Attribute transforms

A transform is a pair of optional functions on values: one that changes what
reading an attribute shows, one that changes what writing it stores. The
functions at the end are common choices.
-/

namespace EntityMapper

structure Transform where
  getter : Option (Value → Value) := none
  setter : Option (Value → Value) := none

namespace Transform

/-- What reading shows, if reading is changed. -/
def applyGet? (t : Transform) (v : Value) : Option Value :=
  t.getter.map fun f => f v

/-- What writing stores. -/
def applySet (t : Transform) (v : Value) : Value :=
  match t.setter with
  | some f => f v
  | none => v

/-- Apply a function to the text of a value; a value that is no text has the
empty one. -/
def onText (f : String → String) (v : Value) : Value :=
  .text (f (v.asText?.getD ""))

def upper : Value → Value := onText Text.toAsciiUpper

def lower : Value → Value := onText Text.toAsciiLower

def trim : Value → Value := onText Text.trim

def display (v : Value) : Value := .text v.display

def wrap (v : Value) : Value := .list [v]

def toJson (v : Value) : Value := .json v.document

def toNull (_ : Value) : Value := .null

def typeName (v : Value) : Value := .text v.typeName

/-- The next integer, the greatest one being followed by the least. -/
def increment : Value → Value
  | .int n => .int (n + 1)
  | v => v

end Transform

end EntityMapper
