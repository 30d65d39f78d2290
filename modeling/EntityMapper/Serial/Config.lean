import EntityMapper.Model.Cast
import EntityMapper.Serial.Value
import EntityMapper.Session.Config
import EntityMapper.Store.Result

/-!
# Serial forms of settings and results

Settings that a serial form leaves out keep their defaults. Dialects and casts
are single words in small letters.
-/

namespace EntityMapper

open Serial

def Dialect.serial (d : Dialect) : Json.Document := .string d.name

def Dialect.ofSerial? : Decoder Dialect := fun depth tree =>
  match word depth tree with
  | some "cql" => some .cql
  | some "sql" => some .sql
  | _ => none

def Cast.serial (c : Cast) : Json.Document := .string c.name

def Cast.ofName? : String → Option Cast
  | "int" => some .int
  | "float" => some .float
  | "bool" => some .bool
  | "string" => some .string
  | "json" => some .json
  | "array" => some .array
  | "date" => some .date
  | _ => none

def Cast.ofSerial? : Decoder Cast :=
  fun depth tree => (word depth tree).bind Cast.ofName?

namespace Config

def serial (c : Config) : Json.Document :=
  .object [
    ("dialect", c.dialect.serial),
    ("keyspace", ofOption .string c.keyspace),
    ("allow_filtering", .bool c.allowFiltering),
    ("pivot_accessor", .string c.pivotAccessor),
    ("lowercase_morph_tags", .bool c.lowercaseMorphTags)]

/-- Read settings. -/
def ofSerial? : Decoder Config := fun depth tree => do
  let fs ← fields ["dialect", "keyspace", "allow_filtering", "pivot_accessor",
      "lowercase_morph_tags"] true depth tree
  let depth := depth - 1
  let defaults : Config := {}
  let dialect ← fs.orElse "dialect" defaults.dialect Dialect.ofSerial? depth
  let keyspace ← fs.orElse "keyspace" defaults.keyspace (optional text) depth
  let allowFiltering ←
    fs.orElse "allow_filtering" defaults.allowFiltering flag depth
  let pivotAccessor ← fs.orElse "pivot_accessor" defaults.pivotAccessor text depth
  let lowercaseMorphTags ←
    fs.orElse "lowercase_morph_tags" defaults.lowercaseMorphTags flag depth
  return ⟨dialect, keyspace, allowFiltering, pivotAccessor, lowercaseMorphTags⟩

end Config

def ResultSet.serial (r : ResultSet) : Json.Document :=
  .object [("rows", .array (r.rows.map Row.serial)), ("row_count", .int r.rowCount)]

def ResultSet.ofSerial? : Decoder ResultSet := fun depth tree => do
  let fs ← fields ["rows", "row_count"] false depth tree
  let rows ← fs.required "rows" (list Row.ofSerial?) (depth - 1)
  let rowCount ← fs.required "row_count" uint64 (depth - 1)
  return ⟨rows, rowCount.toNat⟩

end EntityMapper
