import EntityMapper.Dialect
import EntityMapper.Grammar.Name

/-!
# Session settings
-/

namespace EntityMapper

/-- The settings that all queries of a session share. -/
structure Config where
  dialect : Dialect := .cql
  /-- The keyspace or schema of tables named without one. -/
  keyspace : Option String := none
  /-- Whether relation queries may filter on columns outside the key. -/
  allowFiltering : Bool := true
  /-- The attribute that shows the pivot row of a related record. -/
  pivotAccessor : String := "pivot"
  /-- Whether the tags of entity types are written in small letters. -/
  lowercaseMorphTags : Bool := true
deriving DecidableEq, Inhabited

/-- The grammar of the configured dialect. -/
def Config.grammar (c : Config) : Grammar := ⟨c.dialect, c.keyspace⟩

end EntityMapper
