import EntityMapper.Model.Entity
import EntityMapper.Model.Error

/-!
# Records

A record holds the attributes of one row, the attributes as they were last
loaded or stored (the baseline), the names whose value differs from the
baseline, and the relations loaded so far. The baseline of a record that was
never loaded is taken when it is first written to.

An attribute is dirty iff its value differs from its baseline. The set of dirty
names is kept as a map so that its order is the order of names.
-/

namespace EntityMapper

/-- One row of an entity. -/
structure Record where
  entity : EntityType
  attributes : Row
  baseline : Option Row
  dirty : NameMap Unit
  /-- Whether there is a stored row behind the record. -/
  stored : Bool
  relations : NameMap (Related Record)

instance : Inhabited Record := ⟨⟨default, ∅, none, ∅, false, ∅⟩⟩

namespace Record

/-- A record without attributes that has no row yet. -/
def new (entity : EntityType) : Record := ⟨entity, ∅, none, ∅, false, ∅⟩

/-- The record of a stored row. It is clean. -/
def hydrate (entity : EntityType) (row : Row) : Record :=
  ⟨entity, row, some row, ∅, true, ∅⟩

/-- The stored form of an attribute. -/
def raw? (r : Record) (key : String) : Option Value := r.attributes.get? key

/-- The stored form of an attribute, if it is not null. -/
def bound? (r : Record) (key : String) : Option Value := Value.bound? (r.raw? key)

/-- The value of the primary key. -/
def key? (r : Record) : Option Value := r.bound? r.entity.primaryKey

/-- The attributes as they were last loaded or stored. -/
def snapshot (r : Record) : Row := r.baseline.getD r.attributes

/-- The attribute as it was last loaded or stored. -/
def baseline? (r : Record) (key : String) : Option Value := r.snapshot.get? key

def isDirty (r : Record) : Bool := !r.dirty.isEmpty

def isAttributeDirty (r : Record) (key : String) : Bool := r.dirty.contains key

/-- The changed attributes with their values, in the order of names. -/
def changes (r : Record) : Pairs :=
  r.dirty.keys.map fun key => (key, (r.raw? key).getD .null)

/-- An attribute as reading shows it: by the getter, else by the cast, else as
it is stored. -/
def get (r : Record) (key : String) : Except MappingError Value :=
  let stored := (r.raw? key).getD .null
  match (r.entity.transform? key).bind fun t => t.applyGet? stored with
  | some shown => .ok shown
  | none =>
    match r.entity.cast? key with
    | some cast => (cast.get stored).mapError (.cast key cast)
    | none => .ok stored

/-- The stored form of a value to be written: the setter first, then the cast. -/
def storedForm (entity : EntityType) (key : String) (value : Value) :
    Except MappingError Value :=
  let value := match entity.transform? key with
    | some t => t.applySet value
    | none => value
  match entity.cast? key with
  | some cast => (cast.set value).mapError (.cast key cast)
  | none => .ok value

/-- Whether an optional value is the given one. -/
def sameValue (stored : Option Value) (value : Value) : Bool :=
  match stored with
  | some v => v == value
  | none => false

/-- Put a value in stored form under a name and note whether it differs from the
baseline. -/
def put (r : Record) (key : String) (value : Value) : Record :=
  let baseline := r.snapshot
  { r with
    baseline := some baseline
    dirty := if sameValue (baseline.get? key) value then r.dirty.erase key
      else r.dirty.insert key ()
    attributes := r.attributes.insert key value }

/-- Write an attribute. -/
def set (r : Record) (key : String) (value : Value) : Except MappingError Record :=
  (storedForm r.entity key value).map (r.put key)

/-- Write attributes one after another; the first failure ends it, and what was
written before stays. -/
def forceFill (r : Record) : Pairs → Except MappingError Unit × Record
  | [] => (.ok (), r)
  | (key, value) :: rest =>
    match r.set key value with
    | .ok r => r.forceFill rest
    | .error e => (.error e, r)

/-- Write the attributes that bulk writes may write. Others are passed over,
unless nothing may be written: then the first of them is an error. -/
def fill (r : Record) : Pairs → Except MappingError Unit × Record
  | [] => (.ok (), r)
  | (key, value) :: rest =>
    if r.entity.isFillable key then
      match r.set key value with
      | .ok r => r.fill rest
      | .error e => (.error e, r)
    else if r.entity.isTotallyGuarded then
      (.error (.massAssignment r.entity.name key), r)
    else r.fill rest

/-- Take the attributes as they are for the baseline. -/
def syncBaseline (r : Record) : Record :=
  { r with baseline := some r.attributes, dirty := ∅ }

/-- Replace the attributes by a row that was read again. -/
def reload (r : Record) (row : Row) : Record :=
  { r with attributes := row, baseline := some row, dirty := ∅, stored := true }

/-- Put a value that does not count as a change. -/
def mergeSynthetic (r : Record) (key : String) (value : Value) : Record :=
  { r with
    baseline := some (r.snapshot.insert key value)
    dirty := r.dirty.erase key
    attributes := r.attributes.insert key value }

def setRelation (r : Record) (name : String) (related : Related Record) : Record :=
  { r with relations := r.relations.insert name related }

def relation? (r : Record) (name : String) : Option (Related Record) :=
  r.relations.get? name

def relationLoaded (r : Record) (name : String) : Bool := r.relations.contains name

/-- The relation of a name that the entity declares. -/
def declaredRelation (r : Record) (name : String) : Except MappingError Relation :=
  match r.entity.relations.get? name with
  | some relation => .ok relation
  | none => .error (.unknownRelation r.entity.name name)

/-- The belongs-to relation of a name. -/
def declaredOwner (r : Record) (name : String) : Except MappingError BelongsTo := do
  match ← r.declaredRelation name with
  | .belongsTo belongs => return belongs
  | _ => throw (.relationKind name "belongs-to")

/-- Point the foreign key of a relation at an owner, and attach the owner. -/
def associate (r : Record) (name : String) (owner : Record) :
    Except MappingError Record := do
  let belongs ← r.declaredOwner name
  match owner.bound? belongs.ownerKey with
  | none => throw (.missingParentKey name belongs.ownerKey .associate)
  | some key =>
    return (← r.set belongs.foreignKey key).setRelation name (.one (some owner))

/-- Clear the foreign key of a relation. -/
def dissociate (r : Record) (name : String) : Except MappingError Record := do
  let belongs ← r.declaredOwner name
  return (← r.set belongs.foreignKey .null).setRelation name (.one none)

/-- The shown attributes that are not hidden, as members of a document. -/
def attributeMembers (r : Record) :
    List String → Except MappingError (List (String × Json.Document))
  | [] => .ok []
  | key :: rest =>
    if r.entity.isHidden key then r.attributeMembers rest
    else do
      let value ← r.get key
      return (key, value.document) :: (← r.attributeMembers rest)

mutual

/-- The document of a record: its shown attributes and its loaded relations,
without the hidden ones. A relation stands over an attribute of the same name.
-/
def document : Record → Except MappingError Json.Document
  | ⟨entity, attributes, baseline, dirty, stored, ⟨relations⟩⟩ => do
    let own ← attributeMembers ⟨entity, attributes, baseline, dirty, stored, ∅⟩
      attributes.keys
    let related ← relationMembers entity relations
    return .ofMembers (own ++ related)

def relationMembers (entity : EntityType) :
    List (String × Related Record) →
      Except MappingError (List (String × Json.Document))
  | [] => .ok []
  | (name, related) :: rest =>
    if entity.isHidden name then relationMembers entity rest
    else do
      let member ← relatedDocument related
      return (name, member) :: (← relationMembers entity rest)

def relatedDocument : Related Record → Except MappingError Json.Document
  | .one none => .ok .null
  | .one (some record) => document record
  | .many records => do return .array (← documents records)

def documents : List Record → Except MappingError (List Json.Document)
  | [] => .ok []
  | record :: rest => do
    let first ← document record
    return first :: (← documents rest)

end

end Record

end EntityMapper
