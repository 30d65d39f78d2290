import EntityMapper.Session.Resolution

/-!
# Loading of relation paths

A path names a relation, then a relation of the related records, and so on, with
dots between. Paths are grouped by their first name. The relation of that name
is read once for every record, in the order of the records; then the rest of the
paths is loaded onto all related records together, and they are put back in
place.
-/

namespace EntityMapper

/-- The first name of some paths, and what follows it in them. -/
structure PathGroup where
  head : String
  tails : List String
deriving DecidableEq

namespace PathGroup

/-- Cut a path at its first dot. -/
def splitPath : List Char → List Char × Option (List Char)
  | [] => ([], none)
  | c :: rest =>
    if c = '.' then ([], some rest)
    else
      let (head, tail) := splitPath rest
      (c :: head, tail)

/-- Add a tail to a group, unless it is empty or already there. -/
def addTail (group : PathGroup) (tail : Option String) : PathGroup :=
  match tail with
  | none => group
  | some tail =>
    if tail.isEmpty || group.tails.contains tail then group
    else { group with tails := group.tails ++ [tail] }

/-- Add a path to the group of its head; a new head makes a group at the end. -/
def add (head : String) (tail : Option String) : List PathGroup → List PathGroup
  | [] => [addTail ⟨head, []⟩ tail]
  | group :: rest =>
    if group.head = head then addTail group tail :: rest
      else group :: add head tail rest

/-- Group paths by their heads, in the order of first appearance. Blank paths
are passed over. -/
def ofPaths (paths : List String) : List PathGroup :=
  paths.foldl (fun groups path =>
    match Text.trimChars path.toList with
    | [] => groups
    | chars =>
      let (head, tail) := splitPath chars
      add (String.ofList head) (tail.map String.ofList) groups) []

end PathGroup

namespace Session

variable {σ : Type}

open Effect

/-- Read a relation of every record in turn. -/
def resolveAll (s : Session σ) (name : String) :
    List Record → Effect σ (List (Related Record))
  | [] => pure []
  | record :: rest => do
    let related ← s.resolve record name
    return related :: (← s.resolveAll name rest)

/-- Put records back into results of the shapes that they were taken from. -/
def refill : List (Related Record) → List Record → List (Related Record)
  | [], _ => []
  | .one none :: shapes, records => .one none :: refill shapes records
  | .one (some _) :: shapes, records =>
    .one records.head? :: refill shapes records.tail
  | .many items :: shapes, records =>
    .many (records.take items.length) :: refill shapes (records.drop items.length)

/-- Attach one result to each record. -/
def attachAll (name : String) (records : List Record)
    (results : List (Related Record)) : List Record :=
  records.zipWith (fun record related => record.setRelation name related) results

/-- Take a relation off a record. -/
def dropRelation (name : String) (record : Record) : Record :=
  { record with relations := record.relations.erase name }

/-- Load paths onto the records at hand. The fuel bounds the number of names in
a path. While the rest of a path is being loaded the related records are not
attached, so a failure there leaves the records without them. -/
def loadWithin (s : Session σ) : (fuel : Nat) → (paths : List String) →
    EffectOn (List Record) σ Unit
  | 0, _ => pure ()
  | fuel + 1, paths =>
    (PathGroup.ofPaths paths).forM fun group => do
      let results ← (s.resolveAll group.head (← held)).alongside
      change fun records => attachAll group.head records results
      if !group.tails.isEmpty then
        change fun records => records.map (dropRelation group.head)
        let children := results.flatMap Related.toList
        let loaded ← (if children.isEmpty then pure children else do
          let (outcome, loaded) ← holding children (s.loadWithin fuel group.tails)
          orThrow outcome
          return loaded : Effect σ (List Record)).alongside
        change fun records => attachAll group.head records (refill results loaded)

/-- Load paths onto the records at hand. A tail is shorter than its path, so the
longest path bounds the depth. -/
def load (s : Session σ) (paths : List String) : EffectOn (List Record) σ Unit :=
  s.loadWithin ((paths.map String.length).foldl max 0 + 1) paths

end Session

end EntityMapper
