import EntityMapper.Grammar.Statement
import EntityMapper.Model.Record
import EntityMapper.Session.Backend
import EntityMapper.Session.Config
import EntityMapper.Session.Effect
import EntityMapper.Text.Lowercase

/-!
# Sessions

A session holds the settings, the grammar, the entity types and the backend that
queries go through. Its operations are effects on the state of the backend;
those that change a record hold it beside that state.
-/

namespace EntityMapper

structure Session (σ : Type) where
  config : Config
  grammar : Grammar
  entities : NameMap EntityType
  backend : Backend σ

namespace Session

variable {σ : Type}

open Effect

/-- A session with the grammar of its settings and no entity types. -/
def new (config : Config) (backend : Backend σ) : Session σ :=
  ⟨config, config.grammar, ∅, backend⟩

/-- Register an entity type under its name, replacing one of that name. -/
def register (s : Session σ) (entity : EntityType) : Session σ :=
  { s with entities := s.entities.insert entity.name entity }

def entity (s : Session σ) (name : String) : Except MappingError EntityType :=
  match s.entities.get? name with
  | some entity => .ok entity
  | none => .error (.unknownEntity name)

/-- The tag that polymorphic relations write for an entity type. -/
def morphTag (s : Session σ) (entity : EntityType) : String :=
  if s.config.lowercaseMorphTags then Text.toLower entity.morphTag
    else entity.morphTag

/-- The time as a value. -/
def now (s : Session σ) : Effect σ Value := fun state =>
  let (time, state) := s.backend.clock state
  (.ok (.timestamp time), state)

/-- Send a command to the backend. -/
def run (s : Session σ) (operation : Operation) (command : Command) :
    Effect σ ResultSet :=
  fun state =>
    let (result, state) := s.backend.execute command state
    (result.mapError (.execution operation), state)

/-- The rows that a query selects. -/
def selectRows (s : Session σ) (q : Intent) : Effect σ (List Row) := do
  let command ← orThrow (compiled (s.grammar.select q))
  return (← s.run .select command).rows

/-- The records that a query selects. -/
def selectRecords (s : Session σ) (entity : EntityType) (q : Intent) :
    Effect σ (List Record) := do
  return (← s.selectRows q).map (Record.hydrate entity)

/-- Write an attribute of the record at hand. -/
def write (key : String) (value : Value) : EffectOn Record σ Unit := do
  let record ← held
  hold (← orThrow (record.set key value))

/-- The key of the stored row: the one last loaded or stored, else the present
one. -/
def persistedKey (record : Record) : Except MappingError Value :=
  match Value.bound? (record.baseline? record.entity.primaryKey) with
  | some key => .ok key
  | none =>
    match record.key? with
    | some key => .ok key
    | none => .error (.missingPrimaryKey record.entity.name)

/-- The intent on the row of a key. -/
def rowIntent (entity : EntityType) (key : Value) : Intent :=
  (Intent.new entity.table).whereEq entity.primaryKey key

/-- Insert the row of a new record. With timestamps, both times come from one
reading of the clock, and a given time of creation is kept. -/
def insertRecord (s : Session σ) : EffectOn Record σ Unit := do
  let record ← held
  if record.key?.isNone then throw (.missingPrimaryKey record.entity.name)
  if record.entity.timestamps then
    let now ← s.now.alongside
    if (record.bound? createdAt).isNone then write createdAt now
    write updatedAt now
  let record ← held
  let command ← orThrow (compiled
    (s.grammar.insert (.new record.entity.table) record.attributes.toList))
  discard (s.run .insert command).alongside
  change fun record => { record.syncBaseline with stored := true }

/-- Update the changed attributes of a stored record; a clean one needs no
command. -/
def updateRecord (s : Session σ) : EffectOn Record σ Unit := do
  let record ← held
  if record.isDirty then
    if record.entity.timestamps then
      let now ← s.now.alongside
      write updatedAt now
    let record ← held
    let key ← orThrow (persistedKey record)
    let command ← orThrow
      (compiled (s.grammar.update (rowIntent record.entity key) record.changes))
    discard (s.run .update command).alongside
    change Record.syncBaseline

/-- Store a record: insert it if it has no row yet, and update its row otherwise. -/
def save (s : Session σ) : EffectOn Record σ Unit := do
  if (← held).stored then s.updateRecord else s.insertRecord

/-- Delete the row of a record; a record without one needs no command. -/
def delete (s : Session σ) : EffectOn Record σ Unit := do
  let record ← held
  if record.stored then
    let key ← orThrow (persistedKey record)
    let command ←
      orThrow (compiled (s.grammar.delete (rowIntent record.entity key)))
    discard (s.run .delete command).alongside
    change fun record => { record with stored := false }

/-- Read the row of a record again. -/
def refresh (s : Session σ) : EffectOn Record σ Unit := do
  let record ← held
  let key ← orThrow (persistedKey record)
  match ← (s.selectRows ((rowIntent record.entity key).withLimit 1)).alongside with
  | row :: _ => change fun record => record.reload row
  | [] => throw (.notFound record.entity.name)

/-- Write attributes of the record at hand by a function that may fail half-way. -/
def writeAll (write : Record → Except MappingError Unit × Record) :
    EffectOn Record σ Unit := do
  let (outcome, record) := write (← held)
  hold record
  orThrow outcome

/-- Make a record, fill it as a bulk write does, and store it. -/
def create (s : Session σ) (entity : String) (attributes : Pairs) :
    Effect σ Record := do
  let entity ← orThrow (s.entity entity)
  let fillAndSave : EffectOn Record σ Unit := do
    writeAll fun record => record.fill attributes
    s.save
  let (outcome, record) ← holding (Record.new entity) fillAndSave
  orThrow outcome
  return record

end Session

end EntityMapper
