import EntityMapper.Json.Reader
import EntityMapper.NameMap

/-!
# Reading serial forms

A serial form is JSON text that a typed value is read from. A reader takes the
number of levels that may still be opened, and one, as its depth. A structure is
written as an object of its fields in any order, or as an array of them in the
order of the declaration. A choice is written as the name of an alternative
without content, or as an object whose one member is named for the alternative
and holds its content.

Fields that a structure does not know are passed over, whatever they hold. A
field that stands twice is refused.
-/

namespace EntityMapper.Serial

open Json (Tree)

/-- A reader of the serial form of a type, given the depth that is left. -/
abbrev Decoder (α : Type) := (depth : Nat) → Tree → Option α

/-- Read a text that holds one serial form. -/
def read {α : Type} (decoder : Decoder α) (text : String) : Option α :=
  match Tree.read false text.toList with
  | .ok tree => decoder Json.levels tree
  | .error _ => none

/-! ## Plain values -/

def text : Decoder String
  | _, .string value => value
  | _, _ => none

def flag : Decoder Bool
  | _, .bool value => some value
  | _, _ => none

/-- A number written without point and exponent, within bounds. -/
def whole (low high : Int) : Decoder Int
  | _, .number (some (.int n)) => if low ≤ n ∧ n ≤ high then some n else none
  | _, _ => none

def int64 : Decoder Int64 := fun depth tree =>
  (whole (-Nat.pow 2 63) (Nat.pow 2 63 - 1) depth tree).map Int64.ofInt

def uint64 : Decoder UInt64 := fun depth tree =>
  (whole 0 (Nat.pow 2 64 - 1) depth tree).map fun n => UInt64.ofNat n.toNat

def uint32 : Decoder UInt32 := fun depth tree =>
  (whole 0 (Nat.pow 2 32 - 1) depth tree).map fun n => UInt32.ofNat n.toNat

def uint8 : Decoder UInt8 := fun depth tree =>
  (whole 0 255 depth tree).map fun n => UInt8.ofNat n.toNat

/-- A number of any spelling, rounded if it is whole. -/
def float : Decoder Binary64
  | _, .number (some (.int n)) => some (.ofInt n)
  | _, .number (some (.float x)) => some x
  | _, _ => none

/-- An array of values of one type. -/
def list {α : Type} (decoder : Decoder α) : Decoder (List α)
  | depth, .array items =>
    if depth ≤ 1 then none else items.mapM (decoder (depth - 1))
  | _, _ => none

/-- A value or null. -/
def optional {α : Type} (decoder : Decoder α) : Decoder (Option α)
  | _, .null => some none
  | depth, tree => (decoder depth tree).map some

/-- Members whose names all have a value. -/
def readableMembers (members : List (Option String × Tree)) :
    Option (List (String × Tree)) :=
  members.mapM fun (name, tree) => name.map fun name => (name, tree)

/-! ## Structures -/

/-- The trees of some fields, under the names of the fields. -/
abbrev Fields := List (String × Tree)

/-- The fields of a structure with the given field names. An array has to hold
all of them, unless `short` says that it may end early. -/
def fields (names : List String) (short : Bool) : Decoder Fields
  | depth, .array items =>
    if depth ≤ 1 ∨ names.length < items.length ∨
        (items.length < names.length ∧ short = false) then
      none
    else some (names.zip items)
  | depth, .object members =>
    if depth ≤ 1 then none
    else do
      let members ← readableMembers members
      let known := members.filter fun member => names.contains member.1
      if (known.map Prod.fst).Nodup then some known else none
  | _, _ => none

/-- A field that has to be there. -/
def Fields.required {α : Type} (fs : Fields) (name : String)
    (decoder : Decoder α) (depth : Nat) : Option α :=
  (NameMap.lookup name fs).bind (decoder depth)

/-- A field that takes a value of its own if it is not there. -/
def Fields.orElse {α : Type} (fs : Fields) (name : String) (default : α)
    (decoder : Decoder α) (depth : Nat) : Option α :=
  match NameMap.lookup name fs with
  | some tree => decoder depth tree
  | none => some default

/-- A field that may be absent or null. -/
def Fields.optional {α : Type} (fs : Fields) (name : String)
    (decoder : Decoder α) (depth : Nat) : Option (Option α) :=
  fs.orElse name none (Serial.optional decoder) depth

/-! ## Choices -/

/-- The name of an alternative, and its content if one is written. -/
def alternative : Decoder (String × Option Tree)
  | _, .string (some name) => some (name, none)
  | depth, .object [(some name, content)] =>
    if depth ≤ 1 then none else some (name, some content)
  | _, _ => none

/-- The name of an alternative without content. Its content may be written as
null. -/
def word : Decoder String := fun depth tree =>
  match alternative depth tree with
  | some (name, none) => some name
  | some (name, some .null) => some name
  | _ => none

/-! ## Writing -/

/-- An object with one member. -/
def tagged (name : String) (content : Json.Document) : Json.Document :=
  .object [(name, content)]

def texts (items : List String) : Json.Document := .array (items.map .string)

def byteArray (bytes : List UInt8) : Json.Document :=
  .array (bytes.map fun b => .int b.toNat)

/-- The serial form of a value that may be absent. -/
def ofOption {α : Type} (write : α → Json.Document) : Option α → Json.Document
  | some value => write value
  | none => .null

end EntityMapper.Serial
