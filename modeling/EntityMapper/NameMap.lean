/-!
# Maps from names

A map keyed by names, kept as a list of entries in increasing order of the name.
Names are ordered by code points. The order is visible: rows, attributes and
documents list their entries in it. `WellFormed` says that the entries are
strictly increasing; every operation keeps it.
-/

namespace EntityMapper

/-- A finite map from names, as entries in order. -/
structure NameMap (α : Type u) where
  entries : List (String × α)
deriving Inhabited, DecidableEq

namespace NameMap

variable {α : Type u} {β : Type v}

def empty : NameMap α := ⟨[]⟩

instance : EmptyCollection (NameMap α) := ⟨empty⟩

/-- The entries are strictly increasing in their names. -/
def WellFormed (m : NameMap α) : Prop :=
  m.entries.Pairwise fun x y => x.1 < y.1

/-- The value stored under a name in a list of entries. -/
def lookup (name : String) : List (String × α) → Option α
  | [] => none
  | (key, value) :: rest => if key = name then some value else lookup name rest

/-- The value stored under a name. -/
def get? (m : NameMap α) (name : String) : Option α := lookup name m.entries

def contains (m : NameMap α) (name : String) : Bool := (m.get? name).isSome

/-- Put an entry at its place in the order, replacing an entry of that name. -/
def insertEntry (name : String) (value : α) : List (String × α) → List (String × α)
  | [] => [(name, value)]
  | (key, old) :: rest =>
    if name < key then (name, value) :: (key, old) :: rest
    else if name = key then (name, value) :: rest
    else (key, old) :: insertEntry name value rest

def insert (m : NameMap α) (name : String) (value : α) : NameMap α :=
  ⟨insertEntry name value m.entries⟩

/-- Remove the entry of a name. -/
def erase (m : NameMap α) (name : String) : NameMap α :=
  ⟨m.entries.filter fun entry => decide (entry.1 ≠ name)⟩

/-- The map of a list of entries in any order; of several entries of one name
the last counts. -/
def ofList (entries : List (String × α)) : NameMap α :=
  entries.foldl (fun m entry => m.insert entry.1 entry.2) empty

def toList (m : NameMap α) : List (String × α) := m.entries

def keys (m : NameMap α) : List String := m.entries.map Prod.fst

def values (m : NameMap α) : List α := m.entries.map Prod.snd

def size (m : NameMap α) : Nat := m.entries.length

def isEmpty (m : NameMap α) : Bool := m.entries.isEmpty

def map (f : α → β) (m : NameMap α) : NameMap β :=
  ⟨m.entries.map fun entry => (entry.1, f entry.2)⟩

/-- The entries of the second map are written over those of the first. -/
def extend (m other : NameMap α) : NameMap α :=
  other.entries.foldl (fun m entry => m.insert entry.1 entry.2) m

end NameMap

end EntityMapper
