import EntityMapper.Grammar.Clause
import EntityMapper.Grammar.Error

/-!
# Statements

Compilation of intents. The partitioned dialect has no joins, having clauses or
offsets; it writes lifetimes and write conditions as clauses of their own. The
relational dialect has no lifetimes and no partial deletes; it folds write
conditions into the filter.
-/

namespace EntityMapper.Grammar

/-- Refuse a feature that the dialect lacks when it is asked for. -/
def refuse (dialect : Dialect) (asked : Bool) (feature : Feature) :
    Except CompileError Unit :=
  if asked then .error (.unsupported dialect feature) else .ok ()

/-- The lifetime clause of the partitioned dialect. -/
def ttlClause (q : Intent) : String :=
  countClause " USING TTL " (q.ttl.map UInt32.toNat)

/-- Whether a list of predicates has a connector that loosens it; the first one
has no effect. -/
def isDisjunctive (predicates : List Predicate) : Bool :=
  predicates.tail.any fun p => p.connector == .or

/-- The relational filter of a write: the predicates and the write conditions
together. The predicates are bracketed when they are a disjunction. -/
def foldedWhere (g : Grammar) (q : Intent) : Fragment :=
  let filter := g.wheres q.wheres
  let conditions := g.wheres q.ifConditions
  if filter.text.isEmpty then ⟨"", filter.params⟩ ++ conditions.headed " WHERE "
  else if conditions.text.isEmpty then
    filter.headed " WHERE " ++ ⟨"", conditions.params⟩
  else if isDisjunctive q.wheres then
    .lit " WHERE (" ++ filter ++ .lit ") AND " ++ conditions
  else .lit " WHERE " ++ filter ++ .lit " AND " ++ conditions

/-- The filter and the conditions of a write. -/
def writeFilter (g : Grammar) (q : Intent) : Fragment :=
  match g.dialect with
  | .cql =>
    (g.wheres q.wheres).headed " WHERE " ++ (g.wheres q.ifConditions).headed " IF "
  | .sql => g.foldedWhere q

def joinClause (g : Grammar) (join : Join) : String :=
  " " ++ join.kind.keyword ++ " JOIN " ++ g.wrapTable join.table ++ " ON " ++
    g.wrapColumn join.first ++ " " ++ join.operator.text ++ " " ++
    g.wrapColumn join.second

/-- Compile a query. -/
def select (g : Grammar) (q : Intent) : Except CompileError Command :=
  let head :=
    "SELECT " ++ g.selection q.selection ++ " FROM " ++ g.wrapTable q.table
  let filter := (g.wheres q.wheres).headed " WHERE "
  let orders := g.orderClause q.orders
  let limit := countClause " LIMIT " (q.limit.map UInt64.toNat)
  match g.dialect with
  | .cql => do
    refuse .cql (!q.joins.isEmpty) .joins
    refuse .cql (!q.havings.isEmpty) .havings
    refuse .cql q.offset.isSome .offsets
    let filtering := if q.allowFiltering then " ALLOW FILTERING" else ""
    return (.lit head ++ filter ++
        .lit (g.groupClause q.groups ++ orders ++ limit ++ filtering) :
        Fragment).command
  | .sql =>
    let joins := Text.concat (q.joins.map g.joinClause)
    let offset := countClause " OFFSET " (q.offset.map UInt64.toNat)
    .ok (.lit (head ++ joins) ++ filter ++ .lit (g.groupClause q.groups) ++
        (g.wheres q.havings).headed " HAVING " ++
        .lit (orders ++ limit ++ offset) : Fragment).command

/-- Compile a query that counts the matching rows. -/
def count (g : Grammar) (q : Intent) : Except CompileError Command :=
  g.select q.counting

/-- Compile the insertion of a row. -/
def insert (g : Grammar) (q : Intent) (values : Pairs) :
    Except CompileError Command := do
  if values.isEmpty then throw (.emptyColumns .insert)
  let body : Fragment :=
    .lit ("INSERT INTO " ++ g.wrapTable q.table ++ " (" ++
        g.columnize (values.map Prod.fst) ++ ") VALUES (") ++
      parameterize (values.map Prod.snd) ++ .lit ")"
  match g.dialect with
  | .cql =>
    return (body ++ .lit ((if q.ifNotExists then " IF NOT EXISTS" else "") ++
          ttlClause q)).command
  | .sql =>
    refuse .sql q.ttl.isSome .timeToLive
    return (body ++
        .lit (if q.ifNotExists then " ON CONFLICT DO NOTHING" else "")).command

/-- Compile a change of the matching rows. -/
def update (g : Grammar) (q : Intent) (values : Pairs) :
    Except CompileError Command := do
  if values.isEmpty then throw (.emptyColumns .update)
  let ttl ← match g.dialect with
    | .cql => pure (ttlClause q)
    | .sql => do
      refuse .sql q.ttl.isSome .timeToLive
      pure ""
  return (.lit ("UPDATE " ++ g.wrapTable q.table ++ ttl ++ " SET ") ++
      g.assignments values ++ g.writeFilter q : Fragment).command

/-- Compile a deletion: of the matching rows, or of the selected columns in them. -/
def delete (g : Grammar) (q : Intent) : Except CompileError Command := do
  let columns ← match q.selection with
    | .all => pure ""
    | .columns [] => pure ""
    | .columns names => match g.dialect with
      | .cql => pure (g.columnize names ++ " ")
      | .sql => throw (.unsupported .sql .partialDeletes)
  return (.lit ("DELETE " ++ columns ++ "FROM " ++ g.wrapTable q.table) ++
    g.writeFilter q : Fragment).command

end EntityMapper.Grammar
