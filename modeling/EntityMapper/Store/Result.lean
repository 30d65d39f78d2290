import EntityMapper.Value

/-!
# Results of commands
-/

namespace EntityMapper

/-- The rows a command returns and the number of rows it touched. -/
structure ResultSet where
  rows : List Row
  rowCount : Nat
deriving Inhabited

namespace ResultSet

/-- A result of rows, each of them touched. -/
def ofRows (rows : List Row) : ResultSet := ⟨rows, rows.length⟩

/-- A result without rows. -/
def affected (count : Nat) : ResultSet := ⟨[], count⟩

end ResultSet

end EntityMapper
