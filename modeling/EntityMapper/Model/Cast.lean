import EntityMapper.Json.Reader
import EntityMapper.Model.Calendar
import EntityMapper.Value

/-!
# Casts

A cast gives an attribute a declared type. Reading turns the stored value into
that type; writing brings a value into the form that is stored. Structured
values are stored as JSON text. Null is null in both directions.
-/

namespace EntityMapper

/-- A declared attribute type. -/
inductive Cast
  | int
  | float
  | bool
  | string
  | json
  | array
  | date
deriving DecidableEq, Inhabited

def Cast.name : Cast → String
  | .int => "int"
  | .float => "float"
  | .bool => "bool"
  | .string => "string"
  | .json => "json"
  | .array => "array"
  | .date => "date"

/-- Why a value does not fit a cast. -/
inductive CastFault
  | integer (fault : Decimal.IntFault)
  | float (fault : Decimal.FloatFault)
  | unexpected (typeName : String)
  | notBoolean (text : String)
  | json (text : String) (fault : Json.Fault)
  | notList (typeName : String)
  | notDate (shown : String)
deriving DecidableEq

def CastFault.message : CastFault → String
  | .integer fault => fault.message
  | .float fault => fault.message
  | .unexpected typeName => "unexpected " ++ typeName
  | .notBoolean text => "'" ++ text ++ "' is not a boolean"
  | .json text fault => fault.message text.toList
  | .notList typeName => "expected a list, got " ++ typeName
  | .notDate shown => "'" ++ shown ++ "' is not a date"

namespace Cast

/-- Read a stored value as an integer. -/
def getInt : Value → Except CastFault Value
  | .int n => .ok (.int n)
  | .timestamp t => .ok (.int t)
  | .float x => .ok (.int x.truncate)
  | .bool b => .ok (.int (if b then 1 else 0))
  | .text s =>
    match Decimal.readInt64 (Text.trimChars s.toList) with
    | .ok n => .ok (.int n)
    | .error fault => .error (.integer fault)
  | v => .error (.unexpected v.typeName)

/-- Read a stored value as a floating point number. -/
def getFloat (v : Value) : Except CastFault Value :=
  match v with
  | .text s =>
    match Decimal.readBinary64 (Text.trimChars s.toList) with
    | .ok x => .ok (.float x)
    | .error fault => .error (.float fault)
  | v =>
    match v.asFloat? with
    | some x => .ok (.float x)
    | none => .error (.unexpected v.typeName)

/-- The words for true and false. The empty word is false. -/
def boolWord? (word : String) : Option Bool :=
  if ["true", "1", "yes", "on"].contains word then some true
  else if ["false", "0", "no", "off", ""].contains word then some false
  else none

/-- Read a stored value as a boolean. -/
def getBool : Value → Except CastFault Value
  | .bool b => .ok (.bool b)
  | .int n => .ok (.bool (n != 0))
  | .text s =>
    match boolWord? (Text.toAsciiLower (Text.trim s)) with
    | some b => .ok (.bool b)
    | none => .error (.notBoolean s)
  | v => .error (.unexpected v.typeName)

/-- Read a stored value as text. -/
def getString : Value → Except CastFault Value
  | .text s => .ok (.text s)
  | v => .ok (.text v.display)

/-- Decode stored JSON text. A value that is no text is taken as it is. -/
def getJson : Value → Except CastFault Value
  | .text s =>
    match Json.Document.read s.toList with
    | .ok d => .ok (.ofDocument d)
    | .error fault => .error (.json s fault)
  | .json d => .ok (.ofDocument d)
  | v => .ok v

/-- Decode stored JSON text that has to be a list. -/
def getArray (v : Value) : Except CastFault Value :=
  match getJson v with
  | .ok (.list items) => .ok (.list items)
  | .ok other => .error (.notList other.typeName)
  | .error fault => .error fault

/-- The instant a value denotes: a timestamp, a number of microseconds, or the
text of a date. -/
def toTimestamp (v : Value) : Except CastFault Value :=
  match v with
  | .timestamp t => .ok (.timestamp t)
  | .int t => .ok (.timestamp t)
  | .text s =>
    match Calendar.read? s with
    | some micros => .ok (.timestamp (Int64.ofInt micros))
    | none => .error (.notDate v.display)
  | v => .error (.notDate v.display)

/-- The form in which a stored value is read. -/
def get (cast : Cast) (v : Value) : Except CastFault Value :=
  if v.isNull then .ok .null
  else match cast with
    | .int => getInt v
    | .float => getFloat v
    | .bool => getBool v
    | .string => getString v
    | .json => getJson v
    | .array => getArray v
    | .date => toTimestamp v

/-- The form in which a written value is stored. -/
def set (cast : Cast) (v : Value) : Except CastFault Value :=
  if v.isNull then .ok v
  else match cast with
    | .json => .ok (.text v.document.text)
    | .array => .ok (.text v.document.text)
    | .date => toTimestamp v
    | .int => .ok v
    | .float => .ok v
    | .bool => .ok v
    | .string => .ok v

end Cast

end EntityMapper
