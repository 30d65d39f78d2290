import EntityMapper.Query.Predicate

/-!
# Query intents

An intent describes a command against one table before it is put into a command
language: what to select, an ordered list of predicates, and the flags that the
languages know. Intents are values; each builder gives a new one.
-/

namespace EntityMapper

/-- Which columns a query selects. -/
inductive Selection
  | all
  | columns (names : List String)
deriving DecidableEq, Inhabited

inductive JoinKind
  | inner
  | left
  | right
deriving DecidableEq, Inhabited

def JoinKind.keyword : JoinKind → String
  | .inner => "INNER"
  | .left => "LEFT"
  | .right => "RIGHT"

/-- A join with another table on a comparison of two columns. -/
structure Join where
  kind : JoinKind
  table : String
  first : String
  operator : Operator
  second : String
deriving DecidableEq, Inhabited

/-- Ordering by one column. -/
structure Order where
  column : String
  direction : Direction
deriving DecidableEq, Inhabited

/-- A pending command against one table. -/
structure Intent where
  table : String
  selection : Selection := .all
  wheres : List Predicate := []
  joins : List Join := []
  groups : List String := []
  havings : List Predicate := []
  orders : List Order := []
  limit : Option UInt64 := none
  offset : Option UInt64 := none
  allowFiltering : Bool := false
  /-- Lifetime of written cells in seconds. -/
  ttl : Option UInt32 := none
  /-- Insert only if no row has the key. -/
  ifNotExists : Bool := false
  /-- Conditions on the stored row for an update or delete. -/
  ifConditions : List Predicate := []
deriving BEq, Inhabited

namespace Intent

/-- An intent without conditions that selects every column. -/
def new (table : String) : Intent := { table }

/-- Add columns to the selection; the first of them replace "every column". -/
def select (q : Intent) (names : List String) : Intent :=
  match q.selection with
  | .all => { q with selection := .columns names }
  | .columns existing => { q with selection := .columns (existing ++ names) }

def selectAll (q : Intent) : Intent := { q with selection := .all }

/-- Add a predicate at the end of the list. -/
def addWhere (q : Intent) (connector : Connector) (condition : Condition) :
    Intent :=
  { q with wheres := q.wheres ++ [⟨connector, condition⟩] }

def whereOp (q : Intent) (column : String) (operator : Operator)
    (value : Value) : Intent :=
  q.addWhere .and (.basic column operator value)

def whereEq (q : Intent) (column : String) (value : Value) : Intent :=
  q.whereOp column .eq value

/-- One equality per pair, all of them required. -/
def whereAll (q : Intent) (pairs : Pairs) : Intent :=
  pairs.foldl (fun q pair => q.whereEq pair.1 pair.2) q

def orWhereOp (q : Intent) (column : String) (operator : Operator)
    (value : Value) : Intent :=
  q.addWhere .or (.basic column operator value)

def orWhereEq (q : Intent) (column : String) (value : Value) : Intent :=
  q.orWhereOp column .eq value

def whereIn (q : Intent) (column : String) (values : List Value) : Intent :=
  q.addWhere .and (.isIn column values)

def orWhereIn (q : Intent) (column : String) (values : List Value) : Intent :=
  q.addWhere .or (.isIn column values)

def whereNotIn (q : Intent) (column : String) (values : List Value) : Intent :=
  q.addWhere .and (.notIn column values)

def orWhereNotIn (q : Intent) (column : String) (values : List Value) : Intent :=
  q.addWhere .or (.notIn column values)

def whereBetween (q : Intent) (column : String) (low high : Value) : Intent :=
  q.addWhere .and (.between column low high)

def orWhereBetween (q : Intent) (column : String) (low high : Value) : Intent :=
  q.addWhere .or (.between column low high)

def whereNull (q : Intent) (column : String) : Intent :=
  q.addWhere .and (.isNull column)

def orWhereNull (q : Intent) (column : String) : Intent :=
  q.addWhere .or (.isNull column)

def whereNotNull (q : Intent) (column : String) : Intent :=
  q.addWhere .and (.notNull column)

def orWhereNotNull (q : Intent) (column : String) : Intent :=
  q.addWhere .or (.notNull column)

def whereToken (q : Intent) (columns : List String) (operator : Operator)
    (values : List Value) : Intent :=
  q.addWhere .and (.token columns operator values)

def whereRaw (q : Intent) (text : String) : Intent := q.addWhere .and (.raw text)

def orWhereRaw (q : Intent) (text : String) : Intent := q.addWhere .or (.raw text)

def addJoin (q : Intent) (join : Join) : Intent :=
  { q with joins := q.joins ++ [join] }

def orderBy (q : Intent) (column : String) (direction : Direction) : Intent :=
  { q with orders := q.orders ++ [⟨column, direction⟩] }

def groupBy (q : Intent) (columns : List String) : Intent :=
  { q with groups := q.groups ++ columns }

def havingOp (q : Intent) (column : String) (operator : Operator)
    (value : Value) : Intent :=
  { q with havings := q.havings ++ [⟨.and, .basic column operator value⟩] }

def havingEq (q : Intent) (column : String) (value : Value) : Intent :=
  q.havingOp column .eq value

def withLimit (q : Intent) (limit : UInt64) : Intent :=
  { q with limit := some limit }

def withOffset (q : Intent) (offset : UInt64) : Intent :=
  { q with offset := some offset }

def allowingFiltering (q : Intent) : Intent := { q with allowFiltering := true }

def withTtl (q : Intent) (seconds : UInt32) : Intent :=
  { q with ttl := some seconds }

def onlyIfAbsent (q : Intent) : Intent := { q with ifNotExists := true }

/-- Add a condition on the stored row. -/
def ifCondition (q : Intent) (column : String) (operator : Operator)
    (value : Value) : Intent :=
  { q with ifConditions := q.ifConditions ++ [⟨.and, .basic column operator value⟩] }

/-- The bound values of the predicates, in the order of their placeholders. -/
def whereBindings (q : Intent) : List Value := Predicate.allBindings q.wheres

/-- The intent that counts the rows a query matches, whatever it selects, orders
or skips. -/
def counting (q : Intent) : Intent :=
  { q with
    selection := .columns ["COUNT(*)"]
    orders := []
    limit := none
    offset := none }

end Intent

end EntityMapper
