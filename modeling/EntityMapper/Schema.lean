import EntityMapper.Query.Intent

/-!
# Definitions of tables and views

What a grammar turns into definition statements. Type names and option values
are command text and are taken as they are.
-/

namespace EntityMapper

structure ColumnDefinition where
  name : String
  dataType : String
  /-- Part of the primary key when no key lists are given. -/
  primary : Bool := false
  /-- Shared by all rows of a partition. -/
  isStatic : Bool := false
deriving DecidableEq, Inhabited

structure TableOption where
  name : String
  value : String
deriving DecidableEq, Inhabited

/-- A table to create. -/
structure TableDefinition where
  name : String
  columns : List ColumnDefinition := []
  partitionKeys : List String := []
  clusteringKeys : List Order := []
  options : List TableOption := []
  ifNotExists : Bool := false
deriving DecidableEq, Inhabited

/-- Changes to an existing table. -/
structure Alteration where
  table : String
  add : List ColumnDefinition := []
  drop : List String := []
  options : List TableOption := []
deriving DecidableEq, Inhabited

/-- A view that the store keeps up to date with its base table. -/
structure ViewDefinition where
  name : String
  baseTable : String
  selection : Selection := .all
  partitionKeys : List String := []
  clusteringKeys : List Order := []
  options : List TableOption := []
  ifNotExists : Bool := false
deriving DecidableEq, Inhabited

end EntityMapper
