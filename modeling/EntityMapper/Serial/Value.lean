import EntityMapper.Serial.Fields
import EntityMapper.Value

/-!
# Serial form of values

The serial form keeps the kind of a value: null is the bare word, every other
value is an object whose one member is named for its kind. The members of a
serial form stand in the order of the declaration, not in the order of their
names.
-/

namespace EntityMapper

namespace Value

open Serial

mutual

/-- The serial form of a value. -/
def serial : Value → Json.Document
  | .null => .string "Null"
  | .bool b => tagged "Bool" (.bool b)
  | .int n => tagged "Int" (.int n.toInt)
  | .float x => tagged "Float" (.float x)
  | .text s => tagged "Text" (.string s)
  | .bytes b => tagged "Bytes" (byteArray b)
  | .timestamp t => tagged "Timestamp" (.int t.toInt)
  | .uuid u => tagged "Uuid" (byteArray u.toList)
  | .list items => tagged "List" (.array (serials items))
  | .json d => tagged "Json" d

def serials : List Value → List Json.Document
  | [] => []
  | v :: rest => serial v :: serials rest

end

/-- The sixteen bytes of an identifier. -/
def uuidOfBytes? (bytes : List UInt8) : Option (Vector UInt8 16) :=
  if h : bytes.toArray.size = 16 then some ⟨bytes.toArray, h⟩ else none

/-- Read the content of a value of a kind other than lists. -/
def ofContent? (name : String) : Decoder Value := fun depth content =>
  match name with
  | "Null" =>
    match content with
    | .null => some .null
    | _ => none
  | "Bool" => (flag depth content).map .bool
  | "Int" => (int64 depth content).map .int
  | "Float" => (Serial.float depth content).map .float
  | "Text" => (Serial.text depth content).map .text
  | "Bytes" => (Serial.list uint8 depth content).map .bytes
  | "Timestamp" => (int64 depth content).map .timestamp
  | "Uuid" => ((Serial.list uint8 depth content).bind uuidOfBytes?).map .uuid
  | "Json" => (content.document? depth).map .json
  | _ => none

mutual

/-- Read a value from its serial form. -/
def ofSerial? (depth : Nat) : Json.Tree → Option Value
  | .string (some name) => if name = "Null" then some .null else none
  | .object [(some name, .array items)] =>
    if depth ≤ 1 then none
    else if name = "List" then
      if depth ≤ 2 then none else (ofSerials? (depth - 2) items).map .list
    else ofContent? name (depth - 1) (.array items)
  | .object [(some name, content)] =>
    if depth ≤ 1 then none else ofContent? name (depth - 1) content
  | _ => none

def ofSerials? (depth : Nat) : List Json.Tree → Option (List Value)
  | [] => some []
  | tree :: rest =>
    match ofSerial? depth tree, ofSerials? depth rest with
    | some value, some values => some (value :: values)
    | _, _ => none

end

/-- Read a list of values. -/
def listOfSerial? : Decoder (List Value)
  | depth, .array items => if depth ≤ 1 then none else ofSerials? (depth - 1) items
  | _, _ => none

end Value

namespace Row

/-- The serial form of a row: an object with the values of its columns. -/
def serial (row : Row) : Json.Document := .object (row.map Value.serial).entries

/-- Read a row. Of several members of one name the last counts. -/
def ofSerial? : Serial.Decoder Row
  | depth, .object members =>
    if depth ≤ 1 then none
    else do
      let members ← Serial.readableMembers members
      let entries ← members.mapM fun (name, tree) =>
        (Value.ofSerial? (depth - 1) tree).map fun value => (name, value)
      return .ofList entries
  | _, _ => none

end Row

end EntityMapper
