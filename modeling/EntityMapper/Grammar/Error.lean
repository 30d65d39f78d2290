import EntityMapper.Dialect
import EntityMapper.Query.Operator

/-!
# Why an intent or a definition does not compile
-/

namespace EntityMapper

/-- The statements that need columns or keys. -/
inductive StatementKind
  | insert
  | update
  | createTable
  | alterTable
  | createView
deriving DecidableEq

def StatementKind.text : StatementKind → String
  | .insert => "INSERT"
  | .update => "UPDATE"
  | .createTable => "CREATE TABLE"
  | .alterTable => "ALTER TABLE"
  | .createView => "CREATE MATERIALIZED VIEW"

/-- What a dialect may be unable to express. -/
inductive Feature
  | joins
  | havings
  | offsets
  | timeToLive
  | partialDeletes
  | staticColumns
  | tableOptions
  | views
deriving DecidableEq

def Feature.text : Feature → String
  | .joins => "joins"
  | .havings => "having clauses"
  | .offsets => "offsets"
  | .timeToLive => "time-to-live"
  | .partialDeletes => "partial-column deletes"
  | .staticColumns => "static columns"
  | .tableOptions => "table options"
  | .views => "materialized views"

/-- Why there is no command. -/
inductive CompileError
  | emptyColumns (statement : StatementKind)
  | missingPartitionKey (statement : StatementKind)
  | missingPrimaryKey (table : String)
  | unsupported (dialect : Dialect) (feature : Feature)
  | invalidOperator (text : String)
deriving DecidableEq

def CompileError.message : CompileError → String
  | .emptyColumns statement => statement.text ++ " requires at least one column"
  | .missingPartitionKey statement =>
    statement.text ++ " requires at least one partition key"
  | .missingPrimaryKey table => "table '" ++ table ++ "' has no primary key columns"
  | .unsupported dialect feature =>
    dialect.name ++ " grammar does not support " ++ feature.text
  | .invalidOperator text => "invalid operator '" ++ text ++ "'"

/-- Read an operator, or say that the text is none. -/
def Operator.read (text : String) : Except CompileError Operator :=
  match Operator.ofText? text with
  | some operator => .ok operator
  | none => .error (.invalidOperator text)

end EntityMapper
