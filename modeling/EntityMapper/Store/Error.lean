import EntityMapper.Statement.Error

/-!
# Why the store refuses a command
-/

namespace EntityMapper

/-- Why a command was refused. -/
inductive StoreError
  | syntaxError (error : SyntaxError)
  | unconfiguredTable (table : String)
  | groupBy
  | clearedKey (column : String)
  | bindingCount (expected actual : Nat)
  | missingKey (table column : String)
deriving DecidableEq

namespace StoreError

def message : StoreError → String
  | .syntaxError error => "parse error: " ++ error.message
  | .unconfiguredTable table => "table '" ++ table ++ "' is not configured"
  | .groupBy => "unsupported: GROUP BY"
  | .clearedKey column => "unsupported: clearing key column '" ++ column ++ "'"
  | .bindingCount expected actual =>
    "command has " ++ Decimal.natText expected ++ " placeholders but " ++
      Decimal.natText actual ++ " parameters were bound"
  | .missingKey table column =>
    "row for table '" ++ table ++ "' is missing key column '" ++ column ++ "'"

/-- The stable code of a refusal. -/
def code : StoreError → String
  | .syntaxError _ => "syntax_error"
  | .unconfiguredTable _ => "unconfigured_table"
  | .groupBy => "unsupported"
  | .clearedKey _ => "unsupported"
  | .bindingCount _ _ => "binding_count"
  | .missingKey _ _ => "missing_key"

end StoreError

/-- A refusal as a backend reports it. -/
structure BackendError where
  message : String
  code : Option String := none
deriving DecidableEq

def StoreError.toBackendError (e : StoreError) : BackendError :=
  ⟨e.message, some e.code⟩

end EntityMapper
