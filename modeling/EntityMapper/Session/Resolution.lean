import EntityMapper.Session.Basic

/-!
# Resolution of relations

Resolving a relation of a record reads the related rows. Each kind of relation
binds a key of the parent into a query on the related table; if the key is not
set there is nothing to read and no command is sent. Many-to-many relations are
read with a join if the backend has joins, and with two queries otherwise.
Either way each related record shows its pivot row under one attribute.
-/

namespace EntityMapper

/-- A many-to-many relation of a parent. -/
structure Pivot where
  parent : Record
  name : String
  table : PivotTable

namespace Pivot

/-- The parent's key as pivot rows hold it. -/
def parentKey? (p : Pivot) : Option Value := p.parent.bound? p.table.parentKey

/-- The pivot columns that are shown: the two keys, then the others, each once. -/
def columns (p : Pivot) : List String :=
  p.table.pivotColumns.foldl
    (fun columns column => if columns.contains column then columns
      else columns ++ [column]) [p.table.foreignPivotKey, p.table.relatedPivotKey]

/-- How a pivot row is shown. -/
def rowDocument (p : Pivot) (row : Row) : Value :=
  .json (.ofMembers (p.columns.map fun column =>
    (column, ((row.get? column).map Value.document).getD .null)))

/-- The intent on the parent's pivot rows. -/
def intent (p : Pivot) (key : Value) : Intent :=
  ((Intent.new p.table.table).whereEq p.table.foreignPivotKey key).whereAll
    p.table.pivotWheres

/-- The related keys in pivot rows, each once. -/
def relatedIds (p : Pivot) (rows : List Row) : List Value :=
  rows.foldl (fun ids row =>
    match Value.bound? (row.get? p.table.relatedPivotKey) with
    | some id => if ids.contains id then ids else ids ++ [id]
    | none => ids) []

/-- The name of a pivot column in a joined row. -/
def joinedName (column : String) : String := "pivot_" ++ column

/-- A column of a table, as a path. -/
def path (table column : String) : String := table ++ "." ++ column

/-- Join the pivot table to a query on related rows and keep the parent's pivot
rows. -/
def joined (p : Pivot) (key : Value) (q : Intent) : Intent :=
  let t := p.table
  let joined := q.addJoin ⟨.inner, t.table, path t.table t.relatedPivotKey, .eq,
    path q.table t.relatedKey⟩
  (joined.whereEq (path t.table t.foreignPivotKey) key).whereAll
    (t.pivotWheres.map fun (column, value) => (path t.table column, value))

/-- Take the pivot columns out of a joined row. -/
def splitRow (p : Pivot) (row : Row) : Row × Row :=
  p.columns.foldl (fun (row, pivot) column =>
    match row.get? (joinedName column) with
    | some value => (row.erase (joinedName column), pivot.insert column value)
    | none => (row, pivot)) (row, ∅)

end Pivot

namespace Session

variable {σ : Type}

open Effect

/-- Read the records of a relation query. -/
def fetch (s : Session σ) (related : EntityType) (q : Intent) (many : Bool) :
    Effect σ (Related Record) := do
  let q := if s.config.allowFiltering then q.allowingFiltering else q
  if many then return .many (← s.selectRecords related q)
  return .one (← s.selectRecords related (q.withLimit 1)).head?

/-- Bind the parent's key into a query of an owning relation, with the tag of
the parent's type if the relation is polymorphic. -/
def constrainOwned (parent : Record) (foreignKey localKey : String)
    (morph : Option (String × String)) (q : Intent) : Option Intent :=
  (parent.bound? localKey).map fun key =>
    let q := q.whereEq foreignKey key
    match morph with
    | some (column, tag) => q.whereEq column (.text tag)
    | none => q

/-- The discriminator of a polymorphic relation: its column and the parent's tag. -/
def discriminator (s : Session σ) (parent : Record) (morph : MorphOwns) :
    String × String :=
  (morph.morphType, s.morphTag parent.entity)

/-- Bind the parent's key into a query on the related table; nothing if the key
is not set. -/
def constrain (s : Session σ) (parent : Record) (name : String)
    (relation : Relation) (q : Intent) : Option Intent :=
  match relation with
  | .ownsOne owns => constrainOwned parent owns.foreignKey owns.localKey none q
  | .ownsMany owns => constrainOwned parent owns.foreignKey owns.localKey none q
  | .morphOne morph =>
    constrainOwned parent morph.morphId morph.localKey
      (some (s.discriminator parent morph)) q
  | .morphMany morph =>
    constrainOwned parent morph.morphId morph.localKey
      (some (s.discriminator parent morph)) q
  | .belongsTo belongs =>
    (parent.bound? belongs.foreignKey).map fun key => q.whereEq belongs.ownerKey key
  | .morphTo morph =>
    (parent.bound? morph.morphId).map fun key => q.whereEq morph.ownerKey key
  | .belongsToMany table =>
    let pivot : Pivot := ⟨parent, name, table⟩
    pivot.parentKey?.map fun key => pivot.joined key q

/-- Read a relation whose related entity is known. -/
def resolveDirect (s : Session σ) (parent : Record) (name related : String)
    (relation : Relation) : Effect σ (Related Record) := do
  let entity ← orThrow (s.entity related)
  match s.constrain parent name relation (.new entity.table) with
  | some q => s.fetch entity q relation.isMany
  | none => return .empty relation.isMany

/-- The entity registered for a tag. When tags are written in small letters, a
tag also stands for the first registered one that differs only in the case of
ASCII letters. -/
def morphEntity (s : Session σ) (name : String) (morph : MorphTo) (tag : String) :
    Except MappingError String :=
  match morph.types.get? tag with
  | some entity => .ok entity
  | none =>
    let folded := if s.config.lowercaseMorphTags then
        morph.types.entries.find? fun entry => Text.eqIgnoringAsciiCase entry.1 tag
      else none
    match folded with
    | some (_, entity) => .ok entity
    | none => .error (.unregisteredType name tag)

/-- The stored tag of a polymorphic owner. A tag that is no text counts as shown. -/
def ownerTag? (parent : Record) (morph : MorphTo) : Option String :=
  (parent.bound? morph.morphType).map fun tag => tag.asText?.getD tag.display

/-- Read the owner that a tag and a key point at. -/
def resolveMorphTo (s : Session σ) (parent : Record) (name : String)
    (morph : MorphTo) : Effect σ (Related Record) := do
  match ownerTag? parent morph with
  | none => return .one none
  | some tag =>
    if (parent.bound? morph.morphId).isNone then return .one none
    let related ← orThrow (s.morphEntity name morph tag)
    s.resolveDirect parent name related (.morphTo morph)

/-- The parent's pivot rows. -/
def pivotRows (s : Session σ) (p : Pivot) (key : Value) : Effect σ (List Row) :=
  let q := (p.intent key).select p.columns
  s.selectRows (if s.config.allowFiltering then q.allowingFiltering else q)

/-- Show under the accessor of a related record the first pivot row with its key. -/
def attachPivotRow (accessor : String) (p : Pivot) (rows : List Row)
    (record : Record) : Record :=
  match record.bound? p.table.relatedKey with
  | none => record
  | some id =>
    match rows.find? fun row =>
        Record.sameValue (row.get? p.table.relatedPivotKey) id with
    | some row => record.mergeSynthetic accessor (p.rowDocument row)
    | none => record

/-- Read a many-to-many relation with two queries. -/
def resolveInTwo (s : Session σ) (p : Pivot) (related : EntityType) (key : Value) :
    Effect σ (Related Record) := do
  let rows ← s.pivotRows p key
  let ids := p.relatedIds rows
  if ids.isEmpty then return .many []
  let q := (Intent.new related.table).whereIn p.table.relatedKey ids
  let records ← s.selectRecords related
    (if s.config.allowFiltering then q.allowingFiltering else q)
  return .many (records.map (attachPivotRow s.config.pivotAccessor p rows))

/-- The select list of a joined query: the related columns, and the pivot
columns under names of their own. -/
def joinedColumns (p : Pivot) (related : EntityType) : List String :=
  (related.table ++ ".*") :: p.columns.map fun column =>
    Pivot.path p.table.table column ++ " as " ++ Pivot.joinedName column

/-- The record of a joined row. -/
def joinedRecord (accessor : String) (p : Pivot) (related : EntityType)
    (row : Row) : Record :=
  let (attributes, pivot) := p.splitRow row
  (Record.hydrate related attributes).mergeSynthetic accessor (p.rowDocument pivot)

/-- Read a many-to-many relation with a join. -/
def resolveJoined (s : Session σ) (p : Pivot) (related : EntityType) (key : Value) :
    Effect σ (Related Record) := do
  let q := (p.joined key (.new related.table)).select (joinedColumns p related)
  return .many
    ((← s.selectRows q).map (joinedRecord s.config.pivotAccessor p related))

/-- Read a many-to-many relation. -/
def resolvePivot (s : Session σ) (p : Pivot) : Effect σ (Related Record) := do
  match p.parentKey? with
  | none => return .many []
  | some key =>
    let related ← orThrow (s.entity p.table.related)
    if s.backend.supportsJoins then s.resolveJoined p related key
    else s.resolveInTwo p related key

/-- Read a relation of a record. -/
def resolve (s : Session σ) (parent : Record) (name : String) :
    Effect σ (Related Record) := do
  match ← orThrow (parent.declaredRelation name) with
  | .ownsOne owns => s.resolveDirect parent name owns.related (.ownsOne owns)
  | .ownsMany owns => s.resolveDirect parent name owns.related (.ownsMany owns)
  | .morphOne morph => s.resolveDirect parent name morph.related (.morphOne morph)
  | .morphMany morph => s.resolveDirect parent name morph.related (.morphMany morph)
  | .belongsTo belongs =>
    s.resolveDirect parent name belongs.related (.belongsTo belongs)
  | .belongsToMany table => s.resolvePivot ⟨parent, name, table⟩
  | .morphTo morph => s.resolveMorphTo parent name morph

/-- Read a relation of the record at hand and attach the result. -/
def loadRelation (s : Session σ) (name : String) : EffectOn Record σ Unit := do
  let related ← (s.resolve (← held) name).alongside
  change fun record => record.setRelation name related

end Session

end EntityMapper
