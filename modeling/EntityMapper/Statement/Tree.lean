import EntityMapper.Query.Operator
import EntityMapper.Value

/-!
# Statements

The structure of a command after parsing. Values are inline or refer to the
bound parameters by position.
-/

namespace EntityMapper

/-- A value in a statement: the parameter at a position, or a literal. -/
inductive Operand
  | param (index : Nat)
  | literal (value : Value)
deriving Inhabited

/-- A boolean filter over one row. -/
inductive Filter
  | all (terms : List Filter)
  | any (terms : List Filter)
  | compare (column : String) (operator : Operator) (operand : Operand)
  | member (column : String) (negated : Bool) (operands : List Operand)
  | isNull (column : String) (negated : Bool)
  | token (columns : List String) (operator : Operator) (operands : List Operand)
deriving Inhabited

/-- A column of a select list. -/
structure ProjectedColumn where
  name : String
  label : Option String
deriving DecidableEq, Inhabited

/-- The name under which a projected column appears in a result row. -/
def ProjectedColumn.outputName (c : ProjectedColumn) : String := c.label.getD c.name

/-- A select list. -/
inductive Projection
  | all
  | count
  | columns (columns : List ProjectedColumn)
deriving DecidableEq, Inhabited

structure SelectStatement where
  table : String
  projection : Projection
  filter : Option Filter
  groupBy : List String
  orderBy : List (String × Direction)
  limit : Option Nat
  offset : Option Nat
  allowFiltering : Bool
deriving Inhabited

structure InsertStatement where
  table : String
  columns : List String
  values : List Operand
  ifNotExists : Bool
  ttl : Option Nat
deriving Inhabited

structure UpdateStatement where
  table : String
  ttl : Option Nat
  assignments : List (String × Operand)
  filter : Option Filter
  conditions : Option Filter
deriving Inhabited

/-- A deletion; without columns it removes whole rows. -/
structure DeleteStatement where
  table : String
  columns : List String
  filter : Option Filter
  conditions : Option Filter
deriving Inhabited

inductive Statement
  | select (s : SelectStatement)
  | insert (s : InsertStatement)
  | update (s : UpdateStatement)
  | delete (s : DeleteStatement)
deriving Inhabited

/-- The table a statement is about. -/
def Statement.table : Statement → String
  | .select s => s.table
  | .insert s => s.table
  | .update s => s.table
  | .delete s => s.table

/-- The name of the kind of a statement. -/
def Statement.kind : Statement → String
  | .select _ => "select"
  | .insert _ => "insert"
  | .update _ => "update"
  | .delete _ => "delete"

/-- A statement and the number of parameters it refers to. -/
structure ParsedCommand where
  statement : Statement
  placeholders : Nat
deriving Inhabited

end EntityMapper
