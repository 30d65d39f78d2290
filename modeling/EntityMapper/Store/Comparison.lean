import EntityMapper.Query.Operator
import EntityMapper.Store.Like
import EntityMapper.Value

/-!
# Comparison of values

How the store compares values. Numbers compare across integers and floating
point numbers, a timestamp compares with an integer, and other kinds compare
only within themselves. Null is equal to nothing. Values without an order are
equal only if they are the same value.
-/

namespace EntityMapper

namespace Store

/-- Lexicographic order of byte strings. -/
def compareBytes : List UInt8 → List UInt8 → Ordering
  | [], [] => .eq
  | [], _ :: _ => .lt
  | _ :: _, [] => .gt
  | a :: as, b :: bs => (compare a.toNat b.toNat).then (compareBytes as bs)

/-- The order of two values, if their kinds have one. -/
def compareValues? : Value → Value → Option Ordering
  | .int a, .int b => some (compare a.toInt b.toInt)
  | .int a, .float b => (Binary64.ofInt a.toInt).compare? b
  | .float a, .int b => a.compare? (.ofInt b.toInt)
  | .float a, .float b => a.compare? b
  | .text a, .text b => some (compare a b)
  | .bool a, .bool b => some (compare a b)
  | .timestamp a, .timestamp b => some (compare a.toInt b.toInt)
  | .timestamp a, .int b => some (compare a.toInt b.toInt)
  | .int a, .timestamp b => some (compare a.toInt b.toInt)
  | .bytes a, .bytes b => some (compareBytes a b)
  | .uuid a, .uuid b => some (compareBytes a.toList b.toList)
  | _, _ => none

/-- Equality as filters see it. -/
def valuesEqual (a b : Value) : Bool :=
  if a.isNull || b.isNull then false
  else match compareValues? a b with
    | some order => order == .eq
    | none => a == b

/-- Whether a list has an equal item, or an array document an equal document. -/
def containsValue (collection item : Value) : Bool :=
  match collection with
  | .list items => items.any fun v => valuesEqual v item
  | .json (.array documents) => documents.any fun d => d == item.document
  | _ => false

/-- Whether an object document has a member of that name. -/
def containsName (collection name : Value) : Bool :=
  match collection, name with
  | .json (.object members), .text name =>
    members.any fun member => decide (member.1 = name)
  | _, _ => false

/-- Whether a comparison holds. -/
def holds (operator : Operator) (left right : Value) : Bool :=
  match operator with
  | .eq => valuesEqual left right
  | .ne => !left.isNull && !right.isNull && !valuesEqual left right
  | .lt => compareValues? left right == some .lt
  | .le =>
    compareValues? left right == some .lt || compareValues? left right == some .eq
  | .gt => compareValues? left right == some .gt
  | .ge =>
    compareValues? left right == some .gt || compareValues? left right == some .eq
  | .like =>
    match left, right with
    | .text value, .text pattern => likeText value pattern
    | _, _ => false
  | .contains => containsValue left right
  | .containsKey => containsName left right

/-- The order of values in a sorted result: nulls first, values without an order
equal. -/
def sortOrder (a b : Value) : Ordering :=
  match a.isNull, b.isNull with
  | true, true => .eq
  | true, false => .lt
  | false, true => .gt
  | false, false => (compareValues? a b).getD .eq

end Store

end EntityMapper
