import EntityMapper.Store.Error
import EntityMapper.Store.Evaluation
import EntityMapper.Store.Result

/-!
# Tables

A table has key columns and rows in the order of their first insertion. Writing
a row whose key is present writes into that row, so an insert is an update when
the key is known.
-/

namespace EntityMapper

structure Table where
  keys : List String
  rows : List Row := []
deriving Inhabited

namespace Table

/-- The key of a row: a value for every key column, none of them null. -/
def keyOf (table : String) (row : Row) :
    List String → Except StoreError (List Value)
  | [] => .ok []
  | column :: rest =>
    match Value.bound? (row.get? column) with
    | some value =>
      match keyOf table row rest with
      | .ok values => .ok (value :: values)
      | .error e => .error e
    | none => .error (.missingKey table column)

/-- Whether a row holds the given values in the key columns. -/
def hasKey (row : Row) : List String → List Value → Bool
  | column :: columns, value :: values =>
    (match row.get? column with
      | some stored => stored == value
      | none => false) && hasKey row columns values
  | _, _ => true

/-- The first row with a key. -/
def find? (t : Table) (key : List Value) : Option Row :=
  t.rows.find? fun row => hasKey row t.keys key

/-- Write a row into the first row with its key, or behind the others if there
is none. -/
def upsertRows (keys : List String) (key : List Value) (row : Row) :
    List Row → List Row
  | [] => [row]
  | old :: rest =>
    if hasKey old keys key then old.extend row :: rest
      else old :: upsertRows keys key row rest

/-- Insert or overwrite a row by its key. -/
def upsert (t : Table) (name : String) (row : Row) : Except StoreError Table :=
  match keyOf name row t.keys with
  | .ok key => .ok { t with rows := upsertRows t.keys key row t.rows }
  | .error e => .error e

end Table

/-- The tables of a database under their names. -/
abbrev Tables := NameMap Table

namespace Tables

/-- Declare a table, replacing one of the same name with its rows. -/
def declare (tables : Tables) (name : String) (keys : List String) : Tables :=
  tables.insert name { keys }

def table (tables : Tables) (name : String) : Except StoreError Table :=
  match tables.get? name with
  | some t => .ok t
  | none => .error (.unconfiguredTable name)

end Tables

end EntityMapper
