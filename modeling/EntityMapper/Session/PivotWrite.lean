import EntityMapper.Session.Resolution

/-!
# Changing many-to-many relations

The related keys attached to a parent are the keys in its pivot rows. The
operations here attach, detach and compare them with a requested list. All of
them need the parent's key.
-/

namespace EntityMapper

/-- The keys that an operation attached, detached and updated. -/
structure SyncChanges where
  attached : List Value := []
  detached : List Value := []
  updated : List Value := []
deriving Inhabited

namespace Session

variable {σ : Type}

open Effect

/-- The many-to-many relation of a record under a name. -/
def pivot (parent : Record) (name : String) : Except MappingError Pivot := do
  match ← parent.declaredRelation name with
  | .belongsToMany table => return ⟨parent, name, table⟩
  | _ => throw (.relationKind name "belongs-to-many")

/-- The parent's key, which the given action needs. -/
def requireKey (p : Pivot) (action : RelationAction) : Except MappingError Value :=
  match p.parentKey? with
  | some key => .ok key
  | none => .error (.missingParentKey p.name p.table.parentKey action)

/-- The related keys attached to the parent. -/
def currentIds (s : Session σ) (p : Pivot) : Effect σ (List Value) := do
  match p.parentKey? with
  | none => return []
  | some key => return p.relatedIds (← s.pivotRows p key)

/-- Put a pair into a list of pairs: in the place of the first one of its name,
or at the end. -/
def overwrite (pairs : Pairs) (column : String) (value : Value) : Pairs :=
  match pairs with
  | [] => [(column, value)]
  | (existing, old) :: rest =>
    if existing = column then (existing, value) :: rest
    else (existing, old) :: overwrite rest column value

/-- The values of a new pivot row: the two keys, the relation's equalities, the
extra columns. -/
def pivotValues (p : Pivot) (key id : Value) (extra : Pairs) : Pairs :=
  (p.table.pivotWheres ++ extra).foldl
    (fun pairs (column, value) => overwrite pairs column value)
    [(p.table.foreignPivotKey, key), (p.table.relatedPivotKey, id)]

/-- Insert one pivot row. -/
def insertPivot (s : Session σ) (p : Pivot) (key id : Value) (extra : Pairs) :
    Effect σ Unit := do
  let command ← orThrow
    (compiled (s.grammar.insert (.new p.table.table) (pivotValues p key id extra)))
  discard (s.run .insert command)

/-- Delete the pivot rows of an intent. -/
def deletePivotRows (s : Session σ) (q : Intent) : Effect σ Nat := do
  let command ← orThrow (compiled (s.grammar.delete q))
  return (← s.run .delete command).rowCount

/-- Delete the pivot rows of some related keys; none of them needs no command. -/
def deletePivot (s : Session σ) (p : Pivot) (key : Value) (ids : List Value) :
    Effect σ Nat :=
  if ids.isEmpty then pure 0
  else s.deletePivotRows ((p.intent key).whereIn p.table.relatedPivotKey ids)

/-- Insert pivot rows, one per related key. -/
def insertPivots (s : Session σ) (p : Pivot) (key : Value) (extra : Pairs) :
    List Value → Effect σ Unit
  | [] => pure ()
  | id :: rest => do
    s.insertPivot p key id extra
    s.insertPivots p key extra rest

/-- Attach related keys. -/
def attach (s : Session σ) (p : Pivot) (ids : List Value) (extra : Pairs) :
    Effect σ Unit := do
  let key ← orThrow (requireKey p .attach)
  s.insertPivots p key extra ids

/-- Detach related keys. -/
def detach (s : Session σ) (p : Pivot) (ids : List Value) : Effect σ Nat := do
  let key ← orThrow (requireKey p .detach)
  s.deletePivot p key ids

/-- Detach every related key. -/
def detachAll (s : Session σ) (p : Pivot) : Effect σ Nat := do
  let key ← orThrow (requireKey p .detach)
  s.deletePivotRows (p.intent key)

/-- Set columns of the pivot row of a related key; no columns need no command. -/
def updatePivot (s : Session σ) (p : Pivot) (id : Value) (values : Pairs) :
    Effect σ Nat := do
  let key ← orThrow (requireKey p .updatePivot)
  if values.isEmpty then return 0
  let q := (p.intent key).whereEq p.table.relatedPivotKey id
  let command ← orThrow (compiled (s.grammar.update q values))
  return (← s.run .update command).rowCount

/-- Attach the requested keys that are not attached, and update those that are
and come with columns. A key that is requested again is passed over. -/
def syncEntries (s : Session σ) (p : Pivot) (key : Value) (current : List Value) :
    (requested : List Value) → SyncChanges → List (Value × Pairs) →
      Effect σ (List Value × SyncChanges)
  | requested, changes, [] => pure (requested, changes)
  | requested, changes, (id, extra) :: rest => do
    if requested.contains id then s.syncEntries p key current requested changes rest
    else
      let requested := requested ++ [id]
      if !current.contains id then
        s.insertPivot p key id extra
        s.syncEntries p key current requested
          { changes with attached := changes.attached ++ [id] } rest
      else if !extra.isEmpty then
        discard (s.updatePivot p id extra)
        let changes := { changes with updated := changes.updated ++ [id] }
        s.syncEntries p key current requested changes rest
      else s.syncEntries p key current requested changes rest

/-- Bring the attached keys in line with a list of entries. Missing keys are
attached before others are detached. -/
def sync (s : Session σ) (p : Pivot) (entries : List (Value × Pairs))
    (detaching : Bool) : Effect σ SyncChanges := do
  let key ← orThrow (requireKey p .sync)
  let current ← s.currentIds p
  let (requested, changes) ← s.syncEntries p key current [] {} entries
  if !detaching then return changes
  let removed := current.filter fun id => !requested.contains id
  if removed.isEmpty then return changes
  discard (s.deletePivot p key removed)
  return { changes with detached := removed }

/-- Entries without columns. -/
def plainEntries (ids : List Value) : List (Value × Pairs) :=
  ids.map fun id => (id, [])

/-- Sort the requested keys into those to attach and those to detach, each once. -/
def toggled (current : List Value) (ids : List Value) : SyncChanges :=
  ids.foldl (fun changes id =>
    if changes.attached.contains id || changes.detached.contains id then changes
    else if current.contains id then
      { changes with detached := changes.detached ++ [id] }
    else { changes with attached := changes.attached ++ [id] }) {}

/-- Detach the given keys that are attached and attach the others. -/
def toggle (s : Session σ) (p : Pivot) (ids : List Value) :
    Effect σ SyncChanges := do
  let key ← orThrow (requireKey p .toggle)
  let current ← s.currentIds p
  let changes := toggled current ids
  discard (s.deletePivot p key changes.detached)
  s.insertPivots p key [] changes.attached
  return changes

end Session

end EntityMapper
