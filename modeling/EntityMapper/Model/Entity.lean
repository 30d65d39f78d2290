import EntityMapper.Model.Cast
import EntityMapper.Model.Relation
import EntityMapper.Model.Transform
import EntityMapper.Text.Join
import EntityMapper.Text.Quoted

/-!
# Entity types

An entity type maps records to a table. It is defined once and shared by its
records: casts and transforms of attributes, the policy of bulk writes, the
hidden names, and the relations.
-/

namespace EntityMapper

structure EntityType where
  name : String
  table : String
  primaryKey : String := defaultKey
  /-- The tag that polymorphic relations write for this type. -/
  morphTag : String := name
  casts : NameMap Cast := ∅
  transforms : NameMap Transform := ∅
  /-- Names a bulk write may write; if there are any, no others. -/
  fillable : List String := []
  /-- Names a bulk write may not write; a star stands for all. -/
  guarded : List String := []
  hidden : List String := []
  /-- Whether the times of creation and change are kept. -/
  timestamps : Bool := false
  relations : NameMap Relation := ∅
deriving Inhabited

/-- The column with the time of creation. -/
def createdAt : String := "created_at"

/-- The column with the time of the last change. -/
def updatedAt : String := "updated_at"

namespace EntityType

def cast? (e : EntityType) (key : String) : Option Cast := e.casts.get? key

def transform? (e : EntityType) (key : String) : Option Transform :=
  e.transforms.get? key

/-- Whether a bulk write may write an attribute. -/
def isFillable (e : EntityType) (key : String) : Bool :=
  if e.fillable.isEmpty then !(e.guarded.contains key || e.guarded.contains "*")
  else e.fillable.contains key

/-- Whether a bulk write may write nothing. -/
def isTotallyGuarded (e : EntityType) : Bool :=
  e.fillable.isEmpty && e.guarded.contains "*"

def isHidden (e : EntityType) (key : String) : Bool := e.hidden.contains key

/-- Quoted names in brackets. -/
def quotedList (names : List String) : String :=
  "[" ++ Text.join ", " (names.map Text.quoted) ++ "]"

/-- The name of a cast with a capital. -/
def castDiagnostic : Cast → String
  | .int => "Int"
  | .float => "Float"
  | .bool => "Bool"
  | .string => "String"
  | .json => "Json"
  | .array => "Array"
  | .date => "Date"

/-- How a diagnostic shows an entity type. -/
def diagnostic (e : EntityType) : String :=
  let casts := e.casts.entries.map
    fun (key, cast) => Text.quoted key ++ ": " ++ castDiagnostic cast
  let fields := ["name: " ++ Text.quoted e.name, "table: " ++ Text.quoted e.table,
    "primary_key: " ++ Text.quoted e.primaryKey, "morph_tag: " ++
      Text.quoted e.morphTag, "casts: \x7b" ++ Text.join ", " casts ++ "\x7d",
    "fillable: " ++ quotedList e.fillable, "guarded: " ++ quotedList e.guarded,
    "hidden: " ++ quotedList e.hidden,
    "timestamps: " ++ (if e.timestamps then "true" else "false"),
    "relations: " ++ quotedList e.relations.keys]
  "EntityType \x7b " ++ Text.join ", " fields ++ " \x7d"

end EntityType

end EntityMapper
