import EntityMapper.Schema
import EntityMapper.Serial.Query

/-!
# Serial forms of definitions
-/

namespace EntityMapper

open Serial

def ColumnDefinition.serial (c : ColumnDefinition) : Json.Document :=
  .object [("name", .string c.name), ("data_type", .string c.dataType),
    ("primary", .bool c.primary), ("is_static", .bool c.isStatic)]

def ColumnDefinition.ofSerial? : Decoder ColumnDefinition := fun depth tree => do
  let fs ← fields ["name", "data_type", "primary", "is_static"] false depth tree
  let name ← fs.required "name" text (depth - 1)
  let dataType ← fs.required "data_type" text (depth - 1)
  let primary ← fs.required "primary" flag (depth - 1)
  let isStatic ← fs.required "is_static" flag (depth - 1)
  return ⟨name, dataType, primary, isStatic⟩

def TableOption.serial (o : TableOption) : Json.Document :=
  .object [("name", .string o.name), ("value", .string o.value)]

def TableOption.ofSerial? : Decoder TableOption := fun depth tree => do
  let fs ← fields ["name", "value"] false depth tree
  let name ← fs.required "name" text (depth - 1)
  let value ← fs.required "value" text (depth - 1)
  return ⟨name, value⟩

/-- The serial form of a list of columns, orders or options. -/
def Serial.listOf {α : Type} (write : α → Json.Document) (items : List α) :
    Json.Document :=
  .array (items.map write)

namespace TableDefinition

def serial (t : TableDefinition) : Json.Document :=
  .object [
    ("name", .string t.name),
    ("columns", listOf ColumnDefinition.serial t.columns),
    ("partition_keys", texts t.partitionKeys),
    ("clustering_keys", listOf Order.serial t.clusteringKeys),
    ("options", listOf TableOption.serial t.options),
    ("if_not_exists", .bool t.ifNotExists)]

def ofSerial? : Decoder TableDefinition := fun depth tree => do
  let fs ← fields ["name", "columns", "partition_keys", "clustering_keys",
      "options", "if_not_exists"] false depth tree
  let depth := depth - 1
  let name ← fs.required "name" text depth
  let columns ← fs.required "columns" (list ColumnDefinition.ofSerial?) depth
  let partitionKeys ← fs.required "partition_keys" (list text) depth
  let clusteringKeys ← fs.required "clustering_keys" (list Order.ofSerial?) depth
  let options ← fs.required "options" (list TableOption.ofSerial?) depth
  let ifNotExists ← fs.required "if_not_exists" flag depth
  return ⟨name, columns, partitionKeys, clusteringKeys, options, ifNotExists⟩

end TableDefinition

namespace Alteration

def serial (a : Alteration) : Json.Document :=
  .object [
    ("table", .string a.table),
    ("add", listOf ColumnDefinition.serial a.add),
    ("drop", texts a.drop),
    ("options", listOf TableOption.serial a.options)]

def ofSerial? : Decoder Alteration := fun depth tree => do
  let fs ← fields ["table", "add", "drop", "options"] false depth tree
  let depth := depth - 1
  let table ← fs.required "table" text depth
  let add ← fs.required "add" (list ColumnDefinition.ofSerial?) depth
  let drop ← fs.required "drop" (list text) depth
  let options ← fs.required "options" (list TableOption.ofSerial?) depth
  return ⟨table, add, drop, options⟩

end Alteration

namespace ViewDefinition

def serial (v : ViewDefinition) : Json.Document :=
  .object [
    ("name", .string v.name),
    ("base_table", .string v.baseTable),
    ("columns", v.selection.serial),
    ("partition_keys", texts v.partitionKeys),
    ("clustering_keys", listOf Order.serial v.clusteringKeys),
    ("options", listOf TableOption.serial v.options),
    ("if_not_exists", .bool v.ifNotExists)]

def ofSerial? : Decoder ViewDefinition := fun depth tree => do
  let fs ← fields ["name", "base_table", "columns", "partition_keys",
      "clustering_keys", "options", "if_not_exists"] false depth tree
  let depth := depth - 1
  let name ← fs.required "name" text depth
  let baseTable ← fs.required "base_table" text depth
  let selection ← fs.required "columns" Selection.ofSerial? depth
  let partitionKeys ← fs.required "partition_keys" (list text) depth
  let clusteringKeys ← fs.required "clustering_keys" (list Order.ofSerial?) depth
  let options ← fs.required "options" (list TableOption.ofSerial?) depth
  let ifNotExists ← fs.required "if_not_exists" flag depth
  return ⟨name, baseTable, selection, partitionKeys, clusteringKeys,
    options, ifNotExists⟩

end ViewDefinition

end EntityMapper
