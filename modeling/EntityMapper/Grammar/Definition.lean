import EntityMapper.Grammar.Statement
import EntityMapper.Schema

/-!
# Definition statements

Compilation of table definitions, alterations and views. Only the partitioned
dialect has static columns, table options, clustering and views; the relational
one lists partition and clustering keys as one primary key.
-/

namespace EntityMapper.Grammar

def ifNotExistsText (flag : Bool) : String := if flag then "IF NOT EXISTS " else ""

/-- A column with its type. -/
def columnDefinition (g : Grammar) (column : ColumnDefinition) :
    Except CompileError String :=
  let plain := g.wrapColumn column.name ++ " " ++ column.dataType
  match g.dialect with
  | .cql => .ok (if column.isStatic then plain ++ " STATIC" else plain)
  | .sql => (refuse .sql column.isStatic .staticColumns).map fun _ => plain

/-- Option clauses: the first one behind `WITH`, the others behind `AND`. The
clustering order is written if some column of it descends. -/
def tableOptions (g : Grammar) (clustering : List Order)
    (options : List TableOption) : String :=
  let order :=
    if clustering.any fun o => o.direction == .desc then
      ["CLUSTERING ORDER BY (" ++ g.orderList clustering ++ ")"]
    else []
  match order ++ options.map fun o => o.name ++ " = " ++ o.value with
  | [] => ""
  | clause :: rest => " WITH " ++ clause ++ Text.concat (rest.map (" AND " ++ ·))

/-- The names of the columns flagged as primary; at least one is needed when
there are no key lists. -/
def flaggedKey (table : String) (columns : List ColumnDefinition) :
    Except CompileError (List String) :=
  match (columns.filter ColumnDefinition.primary).map ColumnDefinition.name with
  | [] => .error (.missingPrimaryKey table)
  | names => .ok names

/-- The primary key clause of the partitioned dialect. -/
def partitionedKey (g : Grammar) (statement : StatementKind) (table : String)
    (columns : List ColumnDefinition) (partition : List String)
    (clustering : List Order) : Except CompileError String :=
  if partition.isEmpty then
    if clustering.isEmpty then
      (flaggedKey table columns).map
        fun names => "PRIMARY KEY (" ++ g.columnize names ++ ")"
    else .error (.missingPartitionKey statement)
  else
    .ok ("PRIMARY KEY ((" ++ g.columnize partition ++ ")" ++
      Text.concat (clustering.map fun o => ", " ++ g.wrapColumn o.column) ++ ")")

/-- The primary key clause of the relational dialect. -/
def relationalKey (g : Grammar) (table : TableDefinition) :
    Except CompileError String := do
  let names ←
    if table.partitionKeys.isEmpty then
      if table.clusteringKeys.isEmpty then flaggedKey table.name table.columns
      else throw (.missingPartitionKey .createTable)
    else pure (table.partitionKeys ++ table.clusteringKeys.map Order.column)
  return "PRIMARY KEY (" ++ g.columnize names ++ ")"

/-- Compile the creation of a table. -/
def createTable (g : Grammar) (table : TableDefinition) :
    Except CompileError String := do
  if table.columns.isEmpty then throw (.emptyColumns .createTable)
  if g.dialect == .sql then refuse .sql (!table.options.isEmpty) .tableOptions
  let columns ← table.columns.mapM g.columnDefinition
  let (key, options) ← match g.dialect with
    | .cql => do
      let key ← g.partitionedKey .createTable table.name table.columns
        table.partitionKeys table.clusteringKeys
      pure (key, g.tableOptions table.clusteringKeys table.options)
    | .sql => do pure (← g.relationalKey table, "")
  return "CREATE TABLE " ++ ifNotExistsText table.ifNotExists ++
    g.wrapTable table.name ++ " (" ++ Text.join ", " (columns ++ [key]) ++
    ")" ++ options

/-- Compile an alteration: one statement per kind of change in the partitioned
dialect, one per column in the relational one. -/
def alterTable (g : Grammar) (alter : Alteration) :
    Except CompileError (List String) := do
  let head := "ALTER TABLE " ++ g.wrapTable alter.table
  match g.dialect with
  | .cql =>
    if alter.add.isEmpty && alter.drop.isEmpty && alter.options.isEmpty then
      throw (.emptyColumns .alterTable)
    let columns ← alter.add.mapM g.columnDefinition
    let added :=
      if alter.add.isEmpty then []
        else [head ++ " ADD (" ++ Text.join ", " columns ++ ")"]
    let dropped :=
      if alter.drop.isEmpty then []
        else [head ++ " DROP (" ++ g.columnize alter.drop ++ ")"]
    let changed :=
      if alter.options.isEmpty then []
        else [head ++ g.tableOptions [] alter.options]
    return added ++ dropped ++ changed
  | .sql =>
    if alter.add.isEmpty && alter.drop.isEmpty then
      throw (.emptyColumns .alterTable)
    refuse .sql (!alter.options.isEmpty) .tableOptions
    let columns ← alter.add.mapM g.columnDefinition
    return columns.map (head ++ " ADD COLUMN " ++ ·) ++
      alter.drop.map fun column => head ++ " DROP COLUMN " ++ g.wrapColumn column

/-- Compile the creation of a view. Every key column has to be present in a row
of the view. -/
def createView (g : Grammar) (view : ViewDefinition) : Except CompileError String :=
  match g.dialect with
  | .sql => .error (.unsupported .sql .views)
  | .cql => do
    if view.partitionKeys.isEmpty then throw (.missingPartitionKey .createView)
    let present := (view.partitionKeys ++ view.clusteringKeys.map Order.column).map
      fun column => g.wrapColumn column ++ " IS NOT NULL"
    let key ← g.partitionedKey .createView view.name [] view.partitionKeys
      view.clusteringKeys
    return "CREATE MATERIALIZED VIEW " ++ ifNotExistsText view.ifNotExists ++
      g.wrapTable view.name ++ " AS SELECT " ++ g.selection view.selection ++
      " FROM " ++ g.wrapTable view.baseTable ++ " WHERE " ++
      Text.join " AND " present ++ " " ++ key ++
      g.tableOptions view.clusteringKeys view.options

/-- Compile the removal of a table. -/
def dropTable (g : Grammar) (table : String) (ifExists : Bool) : String :=
  "DROP TABLE " ++ (if ifExists then "IF EXISTS " else "") ++ g.wrapTable table

end EntityMapper.Grammar
