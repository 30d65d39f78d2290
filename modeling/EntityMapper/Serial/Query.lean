import EntityMapper.Command
import EntityMapper.Query.Intent
import EntityMapper.Serial.Value

/-!
# Serial forms of queries

Operators, connectors and directions are single words, conditions are choices
with named fields, and an intent is a structure whose fields stand in the order
of its declaration.
-/

namespace EntityMapper

open Serial

/-! ## Words -/

def Operator.serialName : Operator → String
  | .eq => "Eq"
  | .ne => "Ne"
  | .lt => "Lt"
  | .le => "Le"
  | .gt => "Gt"
  | .ge => "Ge"
  | .like => "Like"
  | .contains => "Contains"
  | .containsKey => "ContainsKey"

def Operator.ofSerialName? : String → Option Operator
  | "Eq" => some .eq
  | "Ne" => some .ne
  | "Lt" => some .lt
  | "Le" => some .le
  | "Gt" => some .gt
  | "Ge" => some .ge
  | "Like" => some .like
  | "Contains" => some .contains
  | "ContainsKey" => some .containsKey
  | _ => none

def Operator.serial (o : Operator) : Json.Document := .string o.serialName

def Operator.ofSerial? : Decoder Operator := fun depth tree =>
  (word depth tree).bind Operator.ofSerialName?

def Connector.serialName : Connector → String
  | .and => "And"
  | .or => "Or"

def Connector.ofSerialName? : String → Option Connector
  | "And" => some .and
  | "Or" => some .or
  | _ => none

def Connector.serial (c : Connector) : Json.Document := .string c.serialName

def Connector.ofSerial? : Decoder Connector := fun depth tree =>
  (word depth tree).bind Connector.ofSerialName?

def Direction.serialName : Direction → String
  | .asc => "Asc"
  | .desc => "Desc"

def Direction.ofSerialName? : String → Option Direction
  | "Asc" => some .asc
  | "Desc" => some .desc
  | _ => none

def Direction.serial (d : Direction) : Json.Document := .string d.serialName

def Direction.ofSerial? : Decoder Direction := fun depth tree =>
  (word depth tree).bind Direction.ofSerialName?

def JoinKind.serialName : JoinKind → String
  | .inner => "Inner"
  | .left => "Left"
  | .right => "Right"

def JoinKind.ofSerialName? : String → Option JoinKind
  | "Inner" => some .inner
  | "Left" => some .left
  | "Right" => some .right
  | _ => none

def JoinKind.serial (k : JoinKind) : Json.Document := .string k.serialName

def JoinKind.ofSerial? : Decoder JoinKind := fun depth tree =>
  (word depth tree).bind JoinKind.ofSerialName?

/-! ## Predicates -/

namespace Condition

def serial : Condition → Json.Document
  | .basic column operator value =>
    tagged "Basic" (.object [("column", .string column),
      ("operator", operator.serial), ("value", value.serial)])
  | .isIn column values => tagged "In" (.object
    [("column", .string column), ("values", .array (Value.serials values))])
  | .notIn column values => tagged "NotIn" (.object
    [("column", .string column), ("values", .array (Value.serials values))])
  | .between column low high => tagged "Between" (.object
    [("column", .string column), ("low", low.serial), ("high", high.serial)])
  | .isNull column => tagged "Null" (.object [("column", .string column)])
  | .notNull column => tagged "NotNull" (.object [("column", .string column)])
  | .token columns operator values => tagged "Token" (.object
    [("columns", texts columns), ("operator", operator.serial),
      ("values", .array (Value.serials values))])
  | .raw text => tagged "Raw" (.object [("sql", .string text)])

/-- Read the fields of a condition on a column and values. -/
def ofMembership? (make : String → List Value → Condition) : Decoder Condition :=
  fun depth content => do
    let fs ← fields ["column", "values"] false depth content
    let column ← fs.required "column" text (depth - 1)
    let values ← fs.required "values" Value.listOfSerial? (depth - 1)
    return make column values

/-- Read the fields of a condition on a column alone. -/
def ofColumn? (make : String → Condition) : Decoder Condition :=
  fun depth content => do
  let fs ← fields ["column"] false depth content
  return make (← fs.required "column" text (depth - 1))

/-- Read the fields of a condition of a kind. -/
def ofContent? (name : String) : Decoder Condition := fun depth content =>
  match name with
  | "Basic" => do
    let fs ← fields ["column", "operator", "value"] false depth content
    let column ← fs.required "column" text (depth - 1)
    let operator ← fs.required "operator" Operator.ofSerial? (depth - 1)
    let value ← fs.required "value" Value.ofSerial? (depth - 1)
    return .basic column operator value
  | "In" => ofMembership? .isIn depth content
  | "NotIn" => ofMembership? .notIn depth content
  | "Between" => do
    let fs ← fields ["column", "low", "high"] false depth content
    let column ← fs.required "column" text (depth - 1)
    let low ← fs.required "low" Value.ofSerial? (depth - 1)
    let high ← fs.required "high" Value.ofSerial? (depth - 1)
    return .between column low high
  | "Null" => ofColumn? .isNull depth content
  | "NotNull" => ofColumn? .notNull depth content
  | "Token" => do
    let fs ← fields ["columns", "operator", "values"] false depth content
    let columns ← fs.required "columns" (list text) (depth - 1)
    let operator ← fs.required "operator" Operator.ofSerial? (depth - 1)
    let values ← fs.required "values" Value.listOfSerial? (depth - 1)
    return .token columns operator values
  | "Raw" => do
    let fs ← fields ["sql"] false depth content
    return .raw (← fs.required "sql" text (depth - 1))
  | _ => none

def ofSerial? : Decoder Condition := fun depth tree =>
  match alternative depth tree with
  | some (name, some content) => ofContent? name (depth - 1) content
  | _ => none

end Condition

namespace Predicate

def serial (p : Predicate) : Json.Document :=
  .object [("boolean", p.connector.serial), ("kind", p.condition.serial)]

def serials (predicates : List Predicate) : Json.Document :=
  .array (predicates.map serial)

def ofSerial? : Decoder Predicate := fun depth tree => do
  let fs ← fields ["boolean", "kind"] false depth tree
  let connector ← fs.required "boolean" Connector.ofSerial? (depth - 1)
  let condition ← fs.required "kind" Condition.ofSerial? (depth - 1)
  return ⟨connector, condition⟩

end Predicate

/-! ## Intents -/

def Selection.serial : Selection → Json.Document
  | .all => .string "All"
  | .columns names => tagged "Columns" (texts names)

def Selection.ofSerial? : Decoder Selection := fun depth tree =>
  match alternative depth tree with
  | some ("All", none) => some .all
  | some ("All", some .null) => some .all
  | some ("Columns", some content) => (list text (depth - 1) content).map .columns
  | _ => none

def Join.serial (j : Join) : Json.Document :=
  .object [("kind", j.kind.serial), ("table", .string j.table),
    ("first", .string j.first), ("operator", j.operator.serial),
    ("second", .string j.second)]

def Join.ofSerial? : Decoder Join := fun depth tree => do
  let fs ← fields ["kind", "table", "first", "operator", "second"] false depth tree
  let kind ← fs.required "kind" JoinKind.ofSerial? (depth - 1)
  let table ← fs.required "table" text (depth - 1)
  let first ← fs.required "first" text (depth - 1)
  let operator ← fs.required "operator" Operator.ofSerial? (depth - 1)
  let second ← fs.required "second" text (depth - 1)
  return ⟨kind, table, first, operator, second⟩

def Order.serial (o : Order) : Json.Document :=
  .object [("column", .string o.column), ("direction", o.direction.serial)]

def Order.ofSerial? : Decoder Order := fun depth tree => do
  let fs ← fields ["column", "direction"] false depth tree
  let column ← fs.required "column" text (depth - 1)
  let direction ← fs.required "direction" Direction.ofSerial? (depth - 1)
  return ⟨column, direction⟩

namespace Intent

def serial (q : Intent) : Json.Document :=
  .object [
    ("table", .string q.table),
    ("columns", q.selection.serial),
    ("wheres", Predicate.serials q.wheres),
    ("joins", .array (q.joins.map Join.serial)),
    ("groups", texts q.groups),
    ("havings", Predicate.serials q.havings),
    ("orders", .array (q.orders.map Order.serial)),
    ("limit", ofOption (fun n : UInt64 => .int n.toNat) q.limit),
    ("offset", ofOption (fun n : UInt64 => .int n.toNat) q.offset),
    ("allow_filtering", .bool q.allowFiltering),
    ("ttl", ofOption (fun n : UInt32 => .int n.toNat) q.ttl),
    ("if_not_exists", .bool q.ifNotExists),
    ("if_conditions", Predicate.serials q.ifConditions)]

/-- The fields of an intent, in the order of its declaration. -/
def fieldNames : List String :=
  ["table", "columns", "wheres", "joins", "groups", "havings", "orders", "limit",
    "offset", "allow_filtering", "ttl", "if_not_exists", "if_conditions"]

def ofSerial? : Decoder Intent := fun depth tree => do
  let fs ← fields fieldNames false depth tree
  let depth := depth - 1
  let table ← fs.required "table" text depth
  let selection ← fs.required "columns" Selection.ofSerial? depth
  let wheres ← fs.required "wheres" (list Predicate.ofSerial?) depth
  let joins ← fs.required "joins" (list Join.ofSerial?) depth
  let groups ← fs.required "groups" (list text) depth
  let havings ← fs.required "havings" (list Predicate.ofSerial?) depth
  let orders ← fs.required "orders" (list Order.ofSerial?) depth
  let limit ← fs.optional "limit" uint64 depth
  let offset ← fs.optional "offset" uint64 depth
  let allowFiltering ← fs.required "allow_filtering" flag depth
  let ttl ← fs.optional "ttl" uint32 depth
  let ifNotExists ← fs.required "if_not_exists" flag depth
  let ifConditions ← fs.required "if_conditions" (list Predicate.ofSerial?) depth
  return ⟨table, selection, wheres, joins, groups, havings, orders, limit, offset,
    allowFiltering, ttl, ifNotExists, ifConditions⟩

end Intent

/-! ## Commands -/

def Command.serial (c : Command) : Json.Document :=
  .object [("text", .string c.text), ("params", .array (Value.serials c.params))]

def Command.ofSerial? : Decoder Command := fun depth tree => do
  let fs ← fields ["text", "params"] false depth tree
  let text ← fs.required "text" Serial.text (depth - 1)
  let params ← fs.required "params" Value.listOfSerial? (depth - 1)
  return ⟨text, params⟩

end EntityMapper
