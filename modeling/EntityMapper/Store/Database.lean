import EntityMapper.Command
import EntityMapper.Statement.Parser
import EntityMapper.Store.Execution

/-!
# The database in memory

A database keeps its tables and a log of every command it was given, refused
ones included. A refused command changes nothing but the log.
-/

namespace EntityMapper

structure Database where
  tables : Tables := ∅
  log : List Command := []
deriving Inhabited

namespace Database

/-- Declare a table, dropping the rows of a table of that name. -/
def createTable (db : Database) (name : String) (keys : List String) : Database :=
  { db with tables := db.tables.declare name keys }

/-- Write a row without a command. -/
def insertRow (db : Database) (name : String) (row : Row) :
    Except StoreError Database := do
  let table ← db.tables.table name
  let table ← table.upsert name row
  return { db with tables := db.tables.insert name table }

/-- The rows of a table in the order of their insertion. -/
def rows (db : Database) (name : String) : Except StoreError (List Row) :=
  (db.tables.table name).map Table.rows

def clearLog (db : Database) : Database := { db with log := [] }

/-- Parse a command and run it on tables. -/
def evaluate (tables : Tables) (command : Command) :
    Except StoreError (ResultSet × Tables) :=
  match ParsedCommand.parse command.text with
  | .error e => .error (.syntaxError e)
  | .ok parsed =>
    if parsed.placeholders ≠ command.params.length then
      .error (.bindingCount parsed.placeholders command.params.length)
    else Store.execute tables parsed.statement command.params

/-- Run a command and log it. -/
def run (db : Database) (command : Command) :
    Except StoreError ResultSet × Database :=
  let log := db.log ++ [command]
  match evaluate db.tables command with
  | .ok (result, tables) => (.ok result, { tables, log })
  | .error e => (.error e, { db with log })

end Database

end EntityMapper
