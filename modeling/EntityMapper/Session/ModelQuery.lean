import EntityMapper.Session.Eager

/-!
# Queries over an entity type

A query over an entity type is an intent on its table and the relation paths to
load with the records. Queries are values: two queries built from one do not
affect each other.
-/

namespace EntityMapper

structure ModelQuery where
  entity : EntityType
  intent : Intent
  eager : List String := []

namespace ModelQuery

/-- All records of an entity type. -/
def new (entity : EntityType) : ModelQuery :=
  { entity, intent := .new entity.table }

/-- Change the intent. -/
def filter (q : ModelQuery) (f : Intent → Intent) : ModelQuery :=
  { q with intent := f q.intent }

/-- Load a relation path with the records. -/
def withPath (q : ModelQuery) (path : String) : ModelQuery :=
  { q with eager := q.eager ++ [path] }

/-- The query for the record of a key. -/
def withKey (q : ModelQuery) (key : Value) : ModelQuery :=
  q.filter fun intent => intent.whereEq q.entity.primaryKey key

end ModelQuery

namespace Session

variable {σ : Type}

open Effect

/-- A query over a registered entity type. -/
def query (s : Session σ) (entity : String) : Except MappingError ModelQuery :=
  (s.entity entity).map .new

/-- The command that a query would send. -/
def queryCommand (s : Session σ) (q : ModelQuery) : Except MappingError Command :=
  compiled (s.grammar.select q.intent)

/-- The records of a query, with its relation paths loaded. -/
def fetchAll (s : Session σ) (q : ModelQuery) : Effect σ (List Record) := do
  let records ← s.selectRecords q.entity q.intent
  if q.eager.isEmpty || records.isEmpty then return records
  let (outcome, records) ← holding records (s.load q.eager)
  orThrow outcome
  return records

/-- The first record of a query. -/
def fetchFirst (s : Session σ) (q : ModelQuery) : Effect σ (Option Record) := do
  return (← s.fetchAll (q.filter fun intent => intent.withLimit 1)).head?

/-- The record of a key among those of a query. -/
def find (s : Session σ) (q : ModelQuery) (key : Value) :
    Effect σ (Option Record) :=
  s.fetchFirst (q.withKey key)

/-- The count in the first cell of a result. -/
def countOf (result : ResultSet) : Except CountFault Nat :=
  match result.rows.head?.bind fun row => row.values.head? with
  | none => .error .noRows
  | some (.int n) =>
    if n.toInt < 0 then .error (.negative n.toInt) else .ok n.toInt.toNat
  | some v => .error (.notInteger v.typeName)

/-- The number of rows that a query matches. -/
def countRows (s : Session σ) (q : ModelQuery) : Effect σ Nat := do
  let command ← orThrow (compiled (s.grammar.count q.intent))
  let result ← s.run .select command
  orThrow ((countOf result).mapError .invalidCount)

/-- Change every row that a query matches. With timestamps the time of change is
written too, unless it is among the values. -/
def updateRows (s : Session σ) (q : ModelQuery) (values : Pairs) :
    Effect σ Nat := do
  let values ← if q.entity.timestamps &&
      !(values.any fun pair => decide (pair.1 = updatedAt)) then do
      pure (values ++ [(updatedAt, ← s.now)])
    else pure values
  let command ← orThrow (compiled (s.grammar.update q.intent values))
  return (← s.run .update command).rowCount

/-- Delete every row that a query matches. -/
def deleteRows (s : Session σ) (q : ModelQuery) : Effect σ Nat := do
  let command ← orThrow (compiled (s.grammar.delete q.intent))
  return (← s.run .delete command).rowCount

end Session

end EntityMapper
