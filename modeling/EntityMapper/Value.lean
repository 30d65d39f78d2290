import EntityMapper.Json.Printer

/-!
# Values

A value is what a column holds: what is bound to a placeholder and what a row
gives back. This module holds the type, its views, its equality, and its three
outside forms: the JSON document, the display text, and the name of its type.

Equality compares floating point numbers as numbers, so a value with a NaN
inside is not equal to itself, and values of different kinds are never equal.
-/

namespace EntityMapper

/-- A column value. Timestamps count microseconds since the epoch. -/
inductive Value
  | null
  | bool (value : Bool)
  | int (value : Int64)
  | float (value : Binary64)
  | text (value : String)
  | bytes (value : List UInt8)
  | timestamp (micros : Int64)
  | uuid (value : Vector UInt8 16)
  | list (items : List Value)
  | json (document : Json.Document)
deriving Inhabited

namespace Value

def isNull : Value → Bool
  | .null => true
  | _ => false

/-- The name of the kind of a value. -/
def typeName : Value → String
  | .null => "null"
  | .bool _ => "bool"
  | .int _ => "int"
  | .float _ => "float"
  | .text _ => "text"
  | .bytes _ => "bytes"
  | .timestamp _ => "timestamp"
  | .uuid _ => "uuid"
  | .list _ => "list"
  | .json _ => "json"

def asBool? : Value → Option Bool
  | .bool b => some b
  | _ => none

def asInt? : Value → Option Int64
  | .int n => some n
  | _ => none

/-- The number as a floating point number; integers are rounded to the nearest
one. -/
def asFloat? : Value → Option Binary64
  | .float x => some x
  | .int n => some (.ofInt n.toInt)
  | _ => none

def asText? : Value → Option String
  | .text s => some s
  | _ => none

def asBytes? : Value → Option (List UInt8)
  | .bytes b => some b
  | _ => none

def asTimestamp? : Value → Option Int64
  | .timestamp t => some t
  | _ => none

def asUuid? : Value → Option (Vector UInt8 16)
  | .uuid u => some u
  | _ => none

def asList? : Value → Option (List Value)
  | .list items => some items
  | _ => none

mutual

def beq : Value → Value → Bool
  | .null, .null => true
  | .bool a, .bool b => a == b
  | .int a, .int b => a == b
  | .float a, .float b => a.numEq b
  | .text a, .text b => decide (a = b)
  | .bytes a, .bytes b => decide (a = b)
  | .timestamp a, .timestamp b => a == b
  | .uuid a, .uuid b => decide (a = b)
  | .list a, .list b => beqItems a b
  | .json a, .json b => a.beq b
  | _, _ => false

def beqItems : List Value → List Value → Bool
  | [], [] => true
  | a :: as, b :: bs => beq a b && beqItems as bs
  | _, _ => false

end

instance : BEq Value := ⟨beq⟩

mutual

/-- The JSON form: bytes and UUIDs are hexadecimal text, a timestamp is its
number, and a number that JSON cannot write is null. -/
def document : Value → Json.Document
  | .null => .null
  | .bool b => .bool b
  | .int n => .int n.toInt
  | .float x => if x.isFinite then .float x else .null
  | .text s => .string s
  | .bytes b => .string (Text.hex b)
  | .timestamp t => .int t.toInt
  | .uuid u => .string (Text.hex u.toList)
  | .list items => .array (documents items)
  | .json d => d

def documents : List Value → List Json.Document
  | [] => []
  | v :: rest => document v :: documents rest

end

/-- Whether a whole number fits the 64-bit signed range. -/
def fitsInt64 (n : Int) : Bool :=
  decide (Int64.minValue.toInt ≤ n) && decide (n ≤ Int64.maxValue.toInt)

mutual

/-- The value of a document: scalars and arrays become values of their own kind,
an object stays a document. A whole number past the signed range becomes a
floating point number. -/
def ofDocument : Json.Document → Value
  | .null => .null
  | .bool b => .bool b
  | .int n => if fitsInt64 n then .int (Int64.ofInt n) else .float (.ofInt n)
  | .float x => .float x
  | .string s => .text s
  | .array items => .list (ofDocuments items)
  | .object members => .json (.object members)

def ofDocuments : List Json.Document → List Value
  | [] => []
  | d :: rest => ofDocument d :: ofDocuments rest

end

/-- The text that shows a value to a reader. Lists and documents are shown as
JSON. -/
def display : Value → String
  | .null => "null"
  | .bool b => if b then "true" else "false"
  | .int n => Decimal.intText n.toInt
  | .float x => Decimal.Layout.display.text x
  | .text s => s
  | .bytes b => "0x" ++ Text.hex b
  | .timestamp t => Decimal.intText t.toInt
  | .uuid u => Text.hex u.toList
  | .list items => (Json.Document.array (documents items)).text
  | .json d => d.text

/-- The value if it is present and not null. -/
def bound? : Option Value → Option Value
  | some .null => none
  | v => v

end Value

/-- A row: column values under their names. -/
abbrev Row := NameMap Value

/-- Named values in a given order; names may repeat. -/
abbrev Pairs := List (String × Value)

end EntityMapper
