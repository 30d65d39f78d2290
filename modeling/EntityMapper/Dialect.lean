/-!
# Dialects

The two command languages that intents are compiled to.
-/

namespace EntityMapper

/-- A command language. -/
inductive Dialect
  /-- The language of partitioned stores. -/
  | cql
  /-- The language of relational stores. -/
  | sql
deriving DecidableEq, Inhabited

def Dialect.name : Dialect → String
  | .cql => "cql"
  | .sql => "sql"

end EntityMapper
