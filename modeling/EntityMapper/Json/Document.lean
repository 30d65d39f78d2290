import EntityMapper.Binary64
import EntityMapper.NameMap

/-!
# JSON documents

A document is a decoded JSON text. Whole numbers and floating point numbers are
different kinds, and never equal to one another. The members of an object are in
increasing order of their names, each name once.
-/

namespace EntityMapper.Json

/-- A JSON document. -/
inductive Document
  | null
  | bool (value : Bool)
  | int (value : Int)
  | float (value : Binary64)
  | string (value : String)
  | array (items : List Document)
  | object (members : List (String × Document))
deriving Inhabited

namespace Document

mutual

/-- Equality of documents. Floating point numbers are compared as numbers, so a
document that holds a NaN is not equal to itself. -/
def beq : Document → Document → Bool
  | .null, .null => true
  | .bool a, .bool b => a == b
  | .int a, .int b => decide (a = b)
  | .float a, .float b => a.numEq b
  | .string a, .string b => decide (a = b)
  | .array a, .array b => beqItems a b
  | .object a, .object b => beqMembers a b
  | _, _ => false

def beqItems : List Document → List Document → Bool
  | [], [] => true
  | a :: as, b :: bs => beq a b && beqItems as bs
  | _, _ => false

def beqMembers : List (String × Document) → List (String × Document) → Bool
  | [], [] => true
  | (name, a) :: as, (other, b) :: bs =>
    decide (name = other) && beq a b && beqMembers as bs
  | _, _ => false

end

instance : BEq Document := ⟨beq⟩

/-- An object from members in any order; of several members of one name the last
counts. -/
def ofMembers (members : List (String × Document)) : Document :=
  .object (NameMap.ofList members).entries

/-- The greatest whole number a document can hold: the unsigned 64-bit range. -/
def maxInt : Int := Nat.pow 2 64 - 1

end Document

end EntityMapper.Json
