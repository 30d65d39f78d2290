import EntityMapper.Command
import EntityMapper.Model.Error
import EntityMapper.Store.Database

/-!
# Backends

A session sends its commands to a backend: a state, a way to execute a command
on it, and a clock. Two backends are given. The local one keeps a database in
memory. The scripted one answers from a list of prepared answers as long as
there are any, and from a local one after that.
-/

namespace EntityMapper

/-- What a session needs from the store behind it. -/
structure Backend (σ : Type) where
  execute : Command → σ → Except BackendError ResultSet × σ
  /-- The time in microseconds since the epoch. -/
  clock : σ → Int64 × σ
  /-- Whether the store evaluates joins. -/
  supportsJoins : Bool

/-- A database with a clock that moves on whenever it is read. -/
structure LocalStore where
  database : Database := {}
  time : Int64 := 1700000000000000
deriving Inhabited

namespace LocalStore

def execute (command : Command) (store : LocalStore) :
    Except BackendError ResultSet × LocalStore :=
  let (result, database) := store.database.run command
  (result.mapError StoreError.toBackendError, { store with database })

def readClock (store : LocalStore) : Int64 × LocalStore :=
  (store.time, { store with time := store.time + 1 })

/-- The backend of a local store. It has no joins. -/
def backend : Backend LocalStore := ⟨execute, readClock, false⟩

end LocalStore

/-- A local store behind a list of prepared answers, with the commands that were
sent. -/
structure ScriptedStore where
  store : LocalStore := {}
  answers : List (Except BackendError ResultSet) := []
  sent : List Command := []
deriving Inhabited

namespace ScriptedStore

def execute (command : Command) (s : ScriptedStore) :
    Except BackendError ResultSet × ScriptedStore :=
  let sent := s.sent ++ [command]
  match s.answers with
  | answer :: answers => (answer, { s with answers, sent })
  | [] =>
    let (result, store) := LocalStore.execute command s.store
    (result, { s with store, sent })

def readClock (s : ScriptedStore) : Int64 × ScriptedStore :=
  let (time, store) := s.store.readClock
  (time, { s with store })

def backend (supportsJoins : Bool) : Backend ScriptedStore :=
  ⟨execute, readClock, supportsJoins⟩

end ScriptedStore

end EntityMapper
