import EntityMapper.Store.Sorting
import EntityMapper.Store.Table

/-!
# Execution of statements

Each kind of statement on the tables of a database. A read gives a result. A
write gives a result and the table it leaves; a write that is refused by its
conditions leaves the table as it is and shows the row that refused it.
-/

namespace EntityMapper.Store

/-- The column that tells whether a conditional write took place. -/
def appliedColumn : String := "[applied]"

/-- The column of a count. -/
def countColumn : String := "count"

/-- The result of a conditional write. -/
def appliedResult (applied : Bool) (current : Option Row) (count : Nat) :
    ResultSet :=
  ⟨[(current.getD ∅).insert appliedColumn (.bool applied)], count⟩

/-- A row as a select list shows it; of two columns with one output name the
last counts. -/
def project (columns : List ProjectedColumn) (row : Row) : Row :=
  .ofList (columns.map fun c => (c.outputName, cell row c.name))

/-- Run a query. -/
def select (tables : Tables) (s : SelectStatement) (params : List Value) :
    Except StoreError ResultSet := do
  if !s.groupBy.isEmpty then throw .groupBy
  let table ← tables.table s.table
  let rows := table.rows.filter (passes params s.filter)
  match s.projection with
  | .count =>
    return .ofRows [(∅ : Row).insert countColumn (.int (Int64.ofNat rows.length))]
  | projection =>
    let sorted := sortRows s.orderBy rows
    let skipped := sorted.drop (s.offset.getD 0)
    let taken := match s.limit with
      | some limit => skipped.take limit
      | none => skipped
    match projection with
    | .columns columns => return .ofRows (taken.map (project columns))
    | _ => return .ofRows taken

/-- The row an insert writes; of two values for one column the last counts. -/
def insertedRow (s : InsertStatement) (params : List Value) : Row :=
  .ofList ((s.columns.zip s.values).map fun (column, operand) =>
    (column, resolve params operand))

/-- Insert a row into a table. -/
def insert (table : Table) (s : InsertStatement) (params : List Value) :
    Except StoreError (ResultSet × Table) := do
  let row := insertedRow s params
  if s.ifNotExists then
    let key ← Table.keyOf s.table row table.keys
    match table.find? key with
    | some current => return (appliedResult false (some current) 0, table)
    | none =>
      return (appliedResult true none 1, { table with rows := table.rows ++ [row] })
  else return (.affected 1, ← table.upsert s.table row)

/-- Whether the conditions of a write hold: there is a target row, and every one
passes. -/
def conditionsHold (conditions : Filter) (targets : List Row)
    (params : List Value) : Bool :=
  !targets.isEmpty && targets.all fun row => evaluate row params conditions

/-- Finish a write on the rows that pass its filter: refuse it if it has
conditions that do not hold, and otherwise replace the rows of the table by what
`write` makes of them. -/
def guardedWrite (table : Table) (filter conditions : Option Filter)
    (params : List Value) (write : Except StoreError (List Row)) :
    Except StoreError (ResultSet × Table) :=
  let targets := table.rows.filter (passes params filter)
  match conditions with
  | none => write.map fun rows => (.affected targets.length, { table with rows })
  | some c =>
    if conditionsHold c targets params then
      write.map fun rows =>
        (appliedResult true none targets.length, { table with rows })
    else .ok (appliedResult false targets.head? 0, table)

/-- A row after assignments, done one after another. -/
def assign (params : List Value) (assignments : List (String × Operand))
    (row : Row) : Row :=
  assignments.foldl
    (fun row (column, operand) => row.insert column (resolve params operand)) row

/-- Change the rows that pass a filter. -/
def update (table : Table) (s : UpdateStatement) (params : List Value) :
    Except StoreError (ResultSet × Table) :=
  guardedWrite table s.filter s.conditions params
    (.ok (table.rows.map fun row =>
      if passes params s.filter row then assign params s.assignments row else row))

/-- A row without the given columns. -/
def clear (columns : List String) (row : Row) : Row :=
  columns.foldl NameMap.erase row

/-- Delete the rows that pass a filter, or clear columns in them. Key columns
cannot be cleared. -/
def delete (table : Table) (s : DeleteStatement) (params : List Value) :
    Except StoreError (ResultSet × Table) :=
  guardedWrite table s.filter s.conditions params <| if s.columns.isEmpty then
      .ok (table.rows.filter fun row => !passes params s.filter row) else
      match s.columns.find? fun column => table.keys.contains column with
      | some column => .error (.clearedKey column)
      | none => .ok (table.rows.map fun row =>
          if passes params s.filter row then clear s.columns row else row)

/-- Run a write on the table of its name. -/
def write (tables : Tables) (name : String)
    (run : Table → Except StoreError (ResultSet × Table)) :
    Except StoreError (ResultSet × Tables) := do
  let table ← tables.table name
  let (result, table) ← run table
  return (result, tables.insert name table)

/-- Run a statement. -/
def execute (tables : Tables) (statement : Statement) (params : List Value) :
    Except StoreError (ResultSet × Tables) :=
  match statement with
  | .select s => (select tables s params).map fun result => (result, tables)
  | .insert s => write tables s.table fun table => insert table s params
  | .update s => write tables s.table fun table => update table s params
  | .delete s => write tables s.table fun table => delete table s params

end EntityMapper.Store
