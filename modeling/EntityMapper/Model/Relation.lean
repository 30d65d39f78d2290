import EntityMapper.Value

/-!
# Relations between entities

A relation links the records of two entities by columns. It is declared on the
entity on whose records it is resolved, here called the parent.
-/

namespace EntityMapper

/-- The default key column. -/
def defaultKey : String := "id"

/-- The related rows hold the parent's key. -/
structure Owns where
  related : String
  /-- The column of the related rows. -/
  foreignKey : String
  /-- The column of the parent that it refers to. -/
  localKey : String
deriving DecidableEq, Inhabited

/-- The parent holds the key of its owner. -/
structure BelongsTo where
  related : String
  /-- The column of the parent. -/
  foreignKey : String
  /-- The column of the owner that it refers to. -/
  ownerKey : String
deriving DecidableEq, Inhabited

/-- Parent and related rows are linked by the rows of a third table. -/
structure PivotTable where
  related : String
  table : String
  /-- The pivot column with the parent's key. -/
  foreignPivotKey : String
  /-- The pivot column with the related key. -/
  relatedPivotKey : String
  parentKey : String := defaultKey
  relatedKey : String := defaultKey
  /-- Further pivot columns to show. -/
  pivotColumns : List String := []
  /-- Equalities that every pivot row has to satisfy. -/
  pivotWheres : Pairs := []
deriving Inhabited

/-- The related rows hold the parent's key and the tag of its type. -/
structure MorphOwns where
  related : String
  morphType : String
  morphId : String
  localKey : String := defaultKey
deriving DecidableEq, Inhabited

/-- The columns of a polymorphic relation of the given name. -/
def MorphOwns.named (related name : String) : MorphOwns :=
  { related, morphType := name ++ "_type", morphId := name ++ "_id" }

/-- The parent holds the key of an owner and the tag of its type. -/
structure MorphTo where
  morphType : String
  morphId : String
  ownerKey : String := defaultKey
  /-- Entities under their tags. -/
  types : NameMap String := ∅
deriving DecidableEq, Inhabited

def MorphTo.named (name : String) : MorphTo :=
  { morphType := name ++ "_type", morphId := name ++ "_id" }

/-- A relation. -/
inductive Relation
  | ownsOne (owns : Owns)
  | ownsMany (owns : Owns)
  | belongsTo (belongs : BelongsTo)
  | belongsToMany (pivot : PivotTable)
  | morphOne (morph : MorphOwns)
  | morphMany (morph : MorphOwns)
  | morphTo (morph : MorphTo)
deriving Inhabited

namespace Relation

def kindName : Relation → String
  | .ownsOne _ => "owns-one"
  | .ownsMany _ => "owns-many"
  | .belongsTo _ => "belongs-to"
  | .belongsToMany _ => "belongs-to-many"
  | .morphOne _ => "morph-one"
  | .morphMany _ => "morph-many"
  | .morphTo _ => "morph-to"

/-- Whether the relation gives a list. -/
def isMany : Relation → Bool
  | .ownsMany _ | .belongsToMany _ | .morphMany _ => true
  | _ => false

end Relation

/-- What a relation gives: at most one, or a list. -/
inductive Related (α : Type)
  | one (item : Option α)
  | many (items : List α)
deriving Inhabited

namespace Related

/-- The empty result of a cardinality. -/
def empty (many : Bool) : Related α := if many then .many [] else .one none

def toList : Related α → List α
  | .one item => item.toList
  | .many items => items

def size (r : Related α) : Nat := r.toList.length

/-- The item of a result that is not a list. -/
def one? : Related α → Option α
  | .one item => item
  | .many _ => none

end Related

end EntityMapper
