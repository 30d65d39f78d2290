import EntityMapper.Proofs.Query.Joining
import EntityMapper.Proofs.Session.PivotChanges
import Mathlib.Data.List.Find

/-!
# A relation read with a join and with two queries

A many-to-many relation is read with a join if the backend has joins, and with
two queries otherwise: the parent's pivot rows first, then the related rows with
one of the keys in them. This module proves that the two give the same records,
with the same pivot attributes, and all of them clean.

The two are compared at one related row. The join pairs it with the pivot rows
that are shown and have its key, of which there is at most one. The two queries
find it by the keys of the shown rows, and then find the first shown row with
its key. The join compares keys as the store does, the two queries also as the
session does, so the keys have to be of one type.
-/

namespace EntityMapper

namespace Pivot

open Session Store

variable {p : Pivot} {related : EntityType} {key : Value} {base joined : Row}

/-! ## The query with a join -/

/-- The query that reads a relation with a join. -/
def joinQuery (p : Pivot) (key : Value) (related : EntityType) : Intent :=
  (p.joined key (.new related.table)).select (joinedColumns p related)

/-- The join of the pivot table. -/
def join (p : Pivot) (related : EntityType) : Join :=
  ⟨.inner, p.table.table, path p.table.table p.table.relatedPivotKey, .eq,
    path related.table p.table.relatedKey⟩

theorem joinQuery_eq (p : Pivot) (key : Value) (related : EntityType) :
    p.joinQuery key related =
      { table := related.table
        selection := .columns (joinedColumns p related)
        joins := [p.join related]
        wheres :=
          ⟨.and, .basic (path p.table.table p.table.foreignPivotKey) .eq key⟩ ::
          p.table.pivotWheres.map fun pair =>
            ⟨.and, .basic (path p.table.table pair.1) .eq pair.2⟩ } := by
  rw [joinQuery, Pivot.joined, Intent.whereAll_eq, List.map_map]
  rfl

/-- Every text of the query by which a column or a table is referred to stands
for it. -/
structure ReadsJoin (p : Pivot) (related : EntityType) : Prop where
  every : .ofText (related.table ++ ".*") = SelectedItem.all related.table
  relatedKey : .ofText (path related.table p.table.relatedKey) =
    SelectedItem.column related.table p.table.relatedKey p.table.relatedKey
  compared : ∀ column ∈ p.keyColumns ++ p.table.pivotWheres.map Prod.fst,
    .ofText (path p.table.table column) =
      SelectedItem.column p.table.table column column
  labelled : ∀ column ∈ p.columns,
    .ofText (path p.table.table column ++ " as " ++ joinedName column) =
      SelectedItem.column p.table.table column (joinedName column)

theorem readsJoin_of_simple (htable : Unbroken p.table.table.toList)
    (hrelated : Unbroken related.table.toList)
    (hkey : SimpleName p.table.relatedKey)
    (hcolumns : ∀ column ∈ p.columns ++ p.table.pivotWheres.map Prod.fst,
      SimpleName column) : p.ReadsJoin related where
  every := SelectedItem.ofText_all hrelated
  relatedKey := SelectedItem.ofText_path hrelated hkey
  compared column hcolumn := SelectedItem.ofText_path htable (hcolumns column
    (List.mem_append.mpr ((List.mem_append.mp hcolumn).imp_left mem_columns)))
  labelled column hcolumn := by
    have hname := hcolumns column (List.mem_append_left _ hcolumn)
    refine SelectedItem.ofText_labelled htable hname ?_
    rw [joinedName, String.toList_append]
    exact Unbroken.append (by decide) hname.unbroken

theorem row_joinedFirst (p : Pivot) (related : EntityType) (base joined : Row) :
    ((p.join related).joinedFirst related.table base joined).row p.table.table =
      joined := by
  rw [Join.joinedFirst, NamedRows.row, NameMap.lookup,
    if_pos (show (p.join related).table = p.table.table from rfl)]
  rfl

theorem row_baseFirst (join : Join) (table : String) (base joined : Row) :
    (join.baseFirst table base joined).row table = base := by
  rw [Join.baseFirst, NamedRows.row, NameMap.lookup, if_pos rfl]
  rfl

theorem ReadsJoin.cell (h : p.ReadsJoin related) {column : String}
    (hcolumn : column ∈ p.keyColumns ++ p.table.pivotWheres.map Prod.fst) :
    ((p.join related).joinedFirst related.table base joined).cell
        (path p.table.table column) = Store.cell joined column := by
  rw [NamedRows.cell, h.compared column hcolumn]
  dsimp only
  rw [row_joinedFirst]

/-- The query has a row for two rows if the pivot row is shown and its related
key is that of the other. -/
theorem pairs_joinQuery (h : p.ReadsJoin related) :
    (p.joinQuery key related).pairs (p.join related) base joined =
      (valuesEqual (cell joined p.table.relatedPivotKey)
          (cell base p.table.relatedKey) && p.shows key joined) := by
  have hfirst : ((p.join related).joinedFirst related.table base joined).cell
      (p.join related).first = cell joined p.table.relatedPivotKey :=
    h.cell (by simp [keyColumns])
  have hsecond : ((p.join related).baseFirst related.table base joined).cell
      (p.join related).second = cell base p.table.relatedKey := by
    rw [NamedRows.cell, join, h.relatedKey]
    dsimp only
    rw [row_baseFirst]
  have hforeign : ((p.join related).joinedFirst related.table base joined).cell
        (path p.table.table p.table.foreignPivotKey) =
      cell joined p.table.foreignPivotKey :=
    h.cell (by simp [keyColumns])
  rw [Intent.pairs, joinQuery_eq, Join.links, hfirst, hsecond]
  simp only [List.all_cons, List.all_map, Function.comp_def,
    Condition.holdsAmong, hforeign]
  congr 2
  refine all_congr_mem fun pair hpair => ?_
  rw [h.cell (List.mem_append_right _ (List.mem_map_of_mem hpair))]
  rfl

/-- The row of the query holds the related columns, and the pivot columns under
their labels. -/
theorem pairRow_joinQuery (h : p.ReadsJoin related) (hbase : base.WellFormed) :
    (p.joinQuery key related).pairRow (p.join related) base joined = base.extend
        ⟨p.columns.map fun column => (joinedName column, cell joined column)⟩ := by
  have hfold {columns : List String}
      (hcolumns : ∀ column ∈ columns, column ∈ p.columns) (row : Row) :
      (columns.map fun column =>
        path p.table.table column ++ " as " ++ joinedName column).foldl
          (Intent.addItem (p.join related) related.table base joined) row =
        row.extend ⟨columns.map
          fun column => (joinedName column, cell joined column)⟩ := by
    induction columns generalizing row with
    | nil => rfl
    | cons column rest ih =>
      obtain ⟨hcolumn, hrest⟩ := List.forall_mem_cons.mp hcolumns
      rw [List.map_cons, List.foldl_cons, ih hrest, Intent.addItem,
        h.labelled column hcolumn]
      dsimp only
      rw [row_joinedFirst, List.map_cons, NameMap.extend_cons]
  rw [Intent.pairRow, joinQuery_eq]
  dsimp only [Selection.names]
  rw [joinedColumns, List.foldl_cons, hfold fun _ => id, Intent.addItem, h.every]
  dsimp only
  rw [row_baseFirst]
  exact congrArg (NameMap.extend · _) hbase.ofList_entries

/-! ## Joined rows taken apart -/

theorem joinedName_inj (first second : String)
    (h : joinedName first = joinedName second) : first = second :=
  (String.append_right_inj _).mp h

/-- Take a pivot column out of a joined row. -/
def takeColumn (parts : Row × Row) (column : String) : Row × Row :=
  match parts.1.get? (joinedName column) with
  | some value => (parts.1.erase (joinedName column), parts.2.insert column value)
  | none => parts

theorem splitRow_eq (p : Pivot) (row : Row) :
    p.splitRow row = p.columns.foldl takeColumn (row, ∅) := rfl

/-- Some columns of a joined row have been taken out of it, with their values,
and nothing else. -/
structure Takes (value : String → Value) (columns : List String) (row : Row)
    (parts : Row × Row) : Prop where
  ordered : parts.1.WellFormed
  left : ∀ name, parts.1.get? name =
    if name ∈ columns.map joinedName then none else row.get? name
  taken : ∀ column ∈ columns, parts.2.get? column = some (value column)

variable {value : String → Value} {columns : List String} {row : Row}
  {parts : Row × Row}

/-- A column that has been taken out is not there a second time. -/
theorem Takes.step (h : Takes value columns row parts) {column : String}
    (hcolumn : row.get? (joinedName column) = some (value column)) :
    Takes value (columns ++ [column]) row (takeColumn parts column) := by
  have hname {name : String} : name ∈ (columns ++ [column]).map joinedName ↔
      name ∈ columns.map joinedName ∨ name = joinedName column := by simp
  have hleft := h.left (joinedName column)
  rw [takeColumn]
  by_cases hmem : column ∈ columns
  · have hgone : joinedName column ∈ columns.map joinedName :=
      List.mem_map_of_mem hmem
    rw [if_pos hgone] at hleft
    rw [hleft]
    refine ⟨h.ordered, fun name => ?_, fun other hother => ?_⟩
    · rw [h.left]
      exact if_congr
        (hname.trans (or_iff_left_of_imp fun heq => heq ▸ hgone)).symm rfl rfl
    · rcases List.mem_append.mp hother with hother | hother
      · exact h.taken other hother
      · exact List.mem_singleton.mp hother ▸ h.taken column hmem
  · have hthere : joinedName column ∉ columns.map joinedName := fun hgone => by
      obtain ⟨other, hother, heq⟩ := List.mem_map.mp hgone
      exact hmem (joinedName_inj other column heq ▸ hother)
    rw [if_neg hthere, hcolumn] at hleft
    rw [hleft]
    refine ⟨h.ordered.erase _, fun name => ?_, fun other hother => ?_⟩
    · rw [NameMap.get?_erase, h.left]
      by_cases heq : joinedName column = name
      · rw [if_pos heq, if_pos (hname.mpr (.inr heq.symm))]
      · rw [if_neg heq]
        exact if_congr (hname.trans (or_iff_left (Ne.symm heq))).symm rfl rfl
    · rw [NameMap.get?_insert]
      split
      · next heq => rw [heq]
      · next hne =>
        rcases List.mem_append.mp hother with hother | hother
        · exact h.taken other hother
        · exact absurd (List.mem_singleton.mp hother).symm hne

theorem takes_foldl (hrow : row.WellFormed)
    (hcolumns : ∀ column ∈ columns,
      row.get? (joinedName column) = some (value column)) :
    Takes value columns row (columns.foldl takeColumn (row, ∅)) := by
  induction columns using List.reverseRec with
  | nil => exact ⟨hrow, fun name => by simp, List.forall_mem_nil _⟩
  | append_singleton before column ih =>
    obtain ⟨hbefore, hlast⟩ := List.forall_mem_append.mp hcolumns
    rw [List.foldl_concat]
    exact (ih hbefore).step (hlast column (List.mem_singleton_self column))

/-- A joined row falls into the related row and the pivot columns. -/
theorem splitRow_extend (value : String → Value) (hbase : base.WellFormed)
    (hfree : ∀ column ∈ p.columns, base.get? (joinedName column) = none) :
    ∃ pivot, p.splitRow (base.extend ⟨p.columns.map fun column =>
        (joinedName column, value column)⟩) = (base, pivot) ∧
      ∀ column ∈ p.columns, pivot.get? column = some (value column) := by
  have hordered : (base.extend ⟨p.columns.map fun column =>
      (joinedName column, value column)⟩).WellFormed :=
    List.foldlRecOn _ _ hbase fun _ h entry _ => h.insert entry.1 entry.2
  have htakes := takes_foldl hordered fun column hcolumn =>
    NameMap.get?_extend_map joinedName_inj base value hcolumn
  refine ⟨_, (splitRow_eq ..).trans (Prod.ext ?_ rfl), htakes.taken⟩
  refine htakes.ordered.ext hbase fun name => ?_
  rw [htakes.left]
  split
  · next hmem =>
    obtain ⟨column, hcolumn, rfl⟩ := List.mem_map.mp hmem
    exact (hfree column hcolumn).symm
  · next hmem =>
    refine NameMap.get?_extend_of_not_mem ?_ base
    rwa [List.map_map]

/-! ## The pivot row of a related row -/

/-- Rows of a related table and of a pivot table that can be read with a join:
no related column has the name of a pivot column in a joined row, keys are of
one type, and no two of the pivot rows that are shown have the same related key.
-/
structure Joinable (p : Pivot) (key : Value) (type : String)
    (relateds pivots : List Row) : Prop where
  ordered : ∀ row ∈ relateds, row.WellFormed
  unlabelled :
    ∀ row ∈ relateds, ∀ column ∈ p.columns, row.get? (joinedName column) = none
  relatedKey : ∀ row ∈ relateds, OfType type (cell row p.table.relatedKey)
  relatedId : ∀ row ∈ pivots.filter (p.shows key),
    OfType type (cell row p.table.relatedPivotKey)
  distinct : (pivots.filter (p.shows key)).Pairwise fun first second =>
    valuesEqual (cell first p.table.relatedPivotKey)
        (cell second p.table.relatedPivotKey) = false

variable {type : String} {relateds pivots : List Row}

/-- Whether a pivot row has the key of a related row. -/
def points (p : Pivot) (base joined : Row) : Bool :=
  valuesEqual (cell joined p.table.relatedPivotKey) (cell base p.table.relatedKey)

/-- The shown pivot row that has the key of a related row. -/
def pivotRow (p : Pivot) (key : Value) (pivots : List Row) (base : Row) :
    Option Row :=
  (pivots.filter (p.shows key)).find? (p.points base)

/-- A related record that shows a pivot row. -/
def shownRecord (accessor : String) (p : Pivot) (related : EntityType)
    (base joined : Row) : Record :=
  (Record.hydrate related base).mergeSynthetic accessor (.json (.ofMembers
    (p.columns.map fun column => (column, (cell joined column).document))))

/-- The related records that have a pivot row, each with it. -/
def linkedRecords (accessor : String) (p : Pivot) (related : EntityType)
    (key : Value) (relateds pivots : List Row) : List Record :=
  relateds.filterMap fun base =>
    (p.pivotRow key pivots base).map (shownRecord accessor p related base)

/-- The records of the relation: those linked to the parent's key, and none
without one. -/
def relatedRecords (accessor : String) (p : Pivot) (related : EntityType)
    (relateds pivots : List Row) : List Record :=
  match p.parentKey? with
  | none => []
  | some key => p.linkedRecords accessor related key relateds pivots

theorem rowDocument_eq {pivot : Row}
    (h : ∀ column ∈ p.columns, pivot.get? column = some (cell joined column)) :
    p.rowDocument pivot = .json (.ofMembers
      (p.columns.map fun column => (column, (cell joined column).document))) := by
  rw [rowDocument]
  congr 2
  refine List.map_congr_left fun column hcolumn => ?_
  rw [h column hcolumn]
  rfl

/-! ## Both ways of reading -/

theorem Joinable.points (h : p.Joinable key type relateds pivots)
    (hbase : base ∈ relateds) (hjoined : joined ∈ pivots.filter (p.shows key)) :
    p.points base joined = (!(cell joined p.table.relatedPivotKey).isNull &&
        cell joined p.table.relatedPivotKey == cell base p.table.relatedKey) :=
  (h.relatedId joined hjoined).valuesEqual (h.relatedKey base hbase)

/-- A related row has at most one pivot row in the join. -/
theorem Joinable.filter_points (h : p.Joinable key type relateds pivots)
    (hbase : base ∈ relateds) :
    (pivots.filter (p.shows key)).filter (p.points base) =
      (p.pivotRow key pivots base).toList := by
  refine filter_eq_toList_find? (h.distinct.imp_of_mem ?_)
  intro first second hfirst hsecond hdistinct hpoints
  rw [Bool.eq_false_iff]
  intro hagain
  -- A filter may find two keys equal to a third and not to each other, unless
  -- they are of one type.
  rw [h.points hbase hfirst, Bool.and_eq_true, Bool.not_eq_true'] at hpoints
  rw [h.points hbase hsecond, Bool.and_eq_true] at hagain
  have hsame := PartialEquivBEq.trans (α := Value) hpoints.2
    (PartialEquivBEq.symm (α := Value) hagain.2)
  rw [valuesEqual_of_beq hsame hpoints.1] at hdistinct
  cases hdistinct

/-- The record of a joined row is the related one with the pivot row. -/
theorem joinedRecord_pairRow (hpaths : p.ReadsJoin related) (accessor : String)
    (h : p.Joinable key type relateds pivots) (hbase : base ∈ relateds)
    (joined : Row) :
    joinedRecord accessor p related
        ((p.joinQuery key related).pairRow (p.join related) base joined) =
      shownRecord accessor p related base joined := by
  obtain ⟨pivot, hsplit, hpivot⟩ :=
    splitRow_extend (cell joined) (h.ordered base hbase) (h.unlabelled base hbase)
  calc
    joinedRecord accessor p related
          ((p.joinQuery key related).pairRow (p.join related) base joined) =
        (Record.hydrate related base).mergeSynthetic accessor
          (p.rowDocument pivot) := by
        rw [pairRow_joinQuery hpaths (h.ordered base hbase), joinedRecord, hsplit]
    _ = shownRecord accessor p related base joined := by
      rw [rowDocument_eq hpivot, shownRecord]

/-- With a join the related records that have a pivot row are read, each with it. -/
theorem joinedRecords_eq (hpaths : p.ReadsJoin related) (accessor : String)
    (h : p.Joinable key type relateds pivots) :
    ((p.joinQuery key related).joinRows relateds pivots).map
        (joinedRecord accessor p related) =
      p.linkedRecords accessor related key relateds pivots := by
  have hrows : (p.joinQuery key related).joinRows relateds pivots =
      relateds.flatMap fun base =>
      (pivots.filter ((p.joinQuery key related).pairs (p.join related) base)).map
        ((p.joinQuery key related).pairRow (p.join related) base) := by
    rw [Intent.joinRows, joinQuery_eq]
    rfl
  rw [hrows, List.map_flatMap, linkedRecords, List.filterMap_eq_flatMap_toList]
  refine List.flatMap_congr fun base hbase => ?_
  have hpairs : (p.joinQuery key related).pairs (p.join related) base =
      fun joined => p.points base joined && p.shows key joined :=
    funext fun joined => pairs_joinQuery hpaths
  have hrecords : joinedRecord accessor p related ∘
      (p.joinQuery key related).pairRow (p.join related) base =
        shownRecord accessor p related base :=
    funext fun joined => joinedRecord_pairRow hpaths accessor h hbase joined
  calc
    ((pivots.filter ((p.joinQuery key related).pairs (p.join related) base)).map
        ((p.joinQuery key related).pairRow (p.join related) base)).map
          (joinedRecord accessor p related) =
      ((pivots.filter (p.shows key)).filter (p.points base)).map
        (shownRecord accessor p related base) := by
        rw [List.map_map, hrecords, hpairs, ← List.filter_filter]
    _ = (p.pivotRow key pivots base).toList.map
        (shownRecord accessor p related base) := by
      rw [h.filter_points hbase]
    _ = ((p.pivotRow key pivots base).map
          (shownRecord accessor p related base)).toList := by
      cases p.pivotRow key pivots base <;> rfl

/-- The keys of the shown rows name the related rows that have a pivot row. -/
theorem Joinable.named (h : p.Joinable key type relateds pivots)
    (hbase : base ∈ relateds) :
    (!(cell base p.table.relatedKey).isNull &&
      (p.relatedIds (p.shownRows key pivots)).any fun id =>
        valuesEqual (cell base p.table.relatedKey) id) =
      (p.pivotRow key pivots base).isSome := by
  have hids : ∀ id ∈ p.relatedIds (p.shownRows key pivots),
      valuesEqual (cell base p.table.relatedKey) id =
        (!(cell base p.table.relatedKey).isNull && cell base p.table.relatedKey ==
          id) := by
    intro id hid
    rw [relatedIds_shownRows] at hid
    obtain ⟨joined, hjoined, hbound⟩ :=
      List.mem_filterMap.mp (mem_of_mem_eachOnce hid)
    rw [Value.bound?_some, Option.ite_none_left_eq_some] at hbound
    obtain rfl := Option.some.inj hbound.2
    exact (h.relatedKey base hbase).valuesEqual (h.relatedId joined hjoined)
  rw [pivotRow, List.isSome_find?, any_congr_mem hids]
  cases hnull : (cell base p.table.relatedKey).isNull with
  | true =>
    rw [Bool.not_true, Bool.false_and, eq_comm, List.any_eq_false]
    intro joined hjoined hpoints
    rw [h.points hbase hjoined, Bool.and_eq_true, Bool.not_eq_true'] at hpoints
    rw [Value.isNull_eq_of_beq hpoints.2, hnull] at hpoints
    cases hpoints.1
  | false =>
    simp only [Bool.not_false, Bool.true_and]
    rw [relatedIds_shownRows, any_eachOnce, List.any_filterMap]
    refine any_congr_mem fun joined hjoined => ?_
    rw [h.points hbase hjoined, Value.bound?_some, BEq.comm]
    cases (cell joined p.table.relatedPivotKey).isNull <;> rfl

/-- The pivot row of a related row is the one that is attached to its record. -/
theorem attachPivotRow_eq (accessor : String)
    (h : p.Joinable key type relateds pivots) (hbase : base ∈ relateds)
    (hpivot : p.pivotRow key pivots base = some joined) :
    attachPivotRow accessor p (p.shownRows key pivots)
        (Record.hydrate related base) =
      shownRecord accessor p related base joined := by
  have hjoined : joined ∈ pivots.filter (p.shows key) :=
    List.mem_of_find?_eq_some hpivot
  have hpoints : p.points base joined = true := List.find?_some hpivot
  rw [h.points hbase hjoined, Bool.and_eq_true, Bool.not_eq_true'] at hpoints
  have hnull : (cell base p.table.relatedKey).isNull = false :=
    (Value.isNull_eq_of_beq hpoints.2).symm.trans hpoints.1
  have hfind : (p.shownRows key pivots).find? (fun row => Record.sameValue
      (row.get? p.table.relatedPivotKey) (cell base p.table.relatedKey)) =
        some (project (p.columns.map fun column => ⟨column, none⟩) joined) := by
    rw [shownRows, List.find?_map, ← Option.map_some, ← hpivot, pivotRow]
    refine congrArg _ (List.find?_congr fun row hrow => ?_)
    rw [Function.comp_apply, get?_project_relatedPivotKey, h.points hbase hrow]
    change (cell row p.table.relatedPivotKey == cell base p.table.relatedKey) = _
    cases hequal : cell row p.table.relatedPivotKey ==
        cell base p.table.relatedKey with
    | false => rw [Bool.and_false]
    | true =>
      rw [Value.isNull_eq_of_beq hequal, hnull]
      rfl
  calc
    attachPivotRow accessor p (p.shownRows key pivots)
          (Record.hydrate related base) =
        (Record.hydrate related base).mergeSynthetic accessor (p.rowDocument
          (project (p.columns.map fun column => ⟨column, none⟩) joined)) := by
      rw [attachPivotRow, Record.bound?_hydrate, hnull, if_neg Bool.false_ne_true]
      dsimp only
      rw [hfind]
    _ = shownRecord accessor p related base joined := by
      rw [shownRecord,
        rowDocument_eq fun column hcolumn => get?_project hcolumn joined]

/-- With two queries the related records that have a pivot row are read, each
with it. -/
theorem attachedRecords_eq (accessor : String)
    (h : p.Joinable key type relateds pivots) :
    ((relateds.filter fun base => !(cell base p.table.relatedKey).isNull &&
        (p.relatedIds (p.shownRows key pivots)).any fun id =>
          valuesEqual (cell base p.table.relatedKey) id).map
            (Record.hydrate related)).map
        (attachPivotRow accessor p (p.shownRows key pivots)) =
      p.linkedRecords accessor related key relateds pivots := by
  rw [List.map_map, ← List.filterMap_eq_filter, List.map_filterMap, linkedRecords]
  refine List.filterMap_congr fun base hbase => ?_
  have hnamed := h.named hbase
  cases hpivot : p.pivotRow key pivots base with
  | none =>
    rw [hpivot] at hnamed
    rw [Option.guard, hnamed]
    rfl
  | some joined =>
    rw [hpivot] at hnamed
    rw [Option.guard, hnamed]
    exact congrArg some (attachPivotRow_eq accessor h hbase hpivot)

theorem relatedRecords_unset (accessor : String) (hkey : p.parentKey? = none)
    (related : EntityType) (relateds pivots : List Row) :
    p.relatedRecords accessor related relateds pivots = [] := by
  rw [relatedRecords, hkey]

theorem relatedRecords_set (accessor : String) (hkey : p.parentKey? = some key)
    (related : EntityType) (relateds pivots : List Row) :
    p.relatedRecords accessor related relateds pivots =
      p.linkedRecords accessor related key relateds pivots := by
  rw [relatedRecords, hkey]

theorem clean_relatedRecords (accessor : String) (p : Pivot)
    (related : EntityType) (relateds pivots : List Row) :
    ∀ record ∈ p.relatedRecords accessor related relateds pivots,
      record.isDirty = false := by
  intro record hrecord
  cases hkey : p.parentKey? with
  | none =>
    rw [relatedRecords_unset accessor hkey] at hrecord
    cases hrecord
  | some key =>
    rw [relatedRecords_set accessor hkey] at hrecord
    obtain ⟨base, -, hlinked⟩ := List.mem_filterMap.mp hrecord
    obtain ⟨joined, -, rfl⟩ := Option.map_eq_some_iff.mp hlinked
    rfl

end Pivot

namespace Session

open Effect Pivot Store

variable {σ : Type} {p : Pivot} {related : EntityType} {key : Value} {type : String}
  {relateds pivots : List Row}

/-- In a state the backend answers a query with a join from the rows of two
tables. -/
def AnswersJoin (s : Session σ) (q : Intent) (relateds pivots : List Row)
    (state : σ) : Prop :=
  ∀ c, s.grammar.select q = .ok c →
    (s.backend.execute c state).1 = .ok (.ofRows (q.joinRows relateds pivots))

theorem resolveJoined_ok {s : Session σ} {state : σ}
    (hsql : s.grammar.dialect = .sql) (hpaths : p.ReadsJoin related)
    (h : p.Joinable key type relateds pivots)
    (hanswer : s.AnswersJoin (p.joinQuery key related) relateds pivots state) :
    (s.resolveJoined p related key state).1 = .ok (.many
      (p.linkedRecords s.config.pivotAccessor related key relateds pivots)) := by
  obtain ⟨c, hc⟩ : ∃ c, s.grammar.select (p.joinQuery key related) = .ok c := by
    unfold Grammar.select
    rw [hsql]
    exact ⟨_, rfl⟩
  have hrun : s.run .select c state =
      (.ok (.ofRows ((p.joinQuery key related).joinRows relateds pivots)),
        (s.backend.execute c state).2) := by
    change ((s.backend.execute c state).1.mapError _, _) = _
    rw [hanswer c hc]
    rfl
  have hrows : s.selectRows (p.joinQuery key related) state =
      (.ok ((p.joinQuery key related).joinRows relateds pivots),
        (s.backend.execute c state).2) := by
    rw [selectRows, bind_compiled hc, bind_ok hrun]
    rfl
  unfold resolveJoined
  rw [← joinedRecords_eq hpaths s.config.pivotAccessor h]
  exact congrArg Prod.fst (bind_ok hrows)

/-- The keys that are asked for select the rows that they name. -/
theorem selectRecords_whereIn {s : Session LocalStore} (related : EntityType)
    (store : LocalStore) (hlocal : s.backend = LocalStore.backend)
    (htable : s.grammar.ReadsBackTable related.table) {column : String}
    (hcolumn : s.grammar.NamesColumn column) (ids : List Value)
    (filtering : Bool) {t : Table}
    (hrows : store.database.tables.get? (columnOf related.table) = some t) :
    ∃ next, s.selectRecords related (if filtering then
        ((Intent.new related.table).whereIn column ids).allowingFiltering
        else (Intent.new related.table).whereIn column ids) store =
      (.ok ((t.rows.filter fun row => !(cell row column).isNull &&
            ids.any fun id => valuesEqual (cell row column) id).map
          (Record.hydrate related)), next) := by
  have hselects : selects [⟨.and, .isIn column ids⟩] = fun row =>
      !(cell row column).isNull &&
          ids.any fun id => valuesEqual (cell row column) id := by
    funext row
    rw [selects_alone, Condition.holds, hcolumn.single]
  have hconveys : ∀ p ∈ [(⟨.and, .isIn column ids⟩ : Predicate)],
      s.grammar.Conveys p.condition :=
    List.forall_mem_singleton.mpr
      (Grammar.conveys_column hcolumn.readsBack rfl trivial rfl)
  have hquery : (if filtering then
        ((Intent.new related.table).whereIn column ids).allowingFiltering
      else (Intent.new related.table).whereIn column ids) =
        { table := related.table
          wheres := [⟨.and, .isIn column ids⟩]
          allowFiltering := filtering } := by
    cases filtering <;> rfl
  obtain ⟨c, hselect⟩ :=
    selectRecords_ok hlocal htable hconveys none (by simp) filtering hrows
  rw [hquery, ← hselects]
  exact ⟨_, hselect⟩

theorem resolveInTwo_ok {s : Session LocalStore} {store : LocalStore}
    (hlocal : s.backend = LocalStore.backend) (hreadable : p.Readable s.grammar)
    (htable : s.grammar.ReadsBackTable related.table)
    (hkey : s.grammar.NamesColumn p.table.relatedKey) {t u : Table}
    (h : p.Joinable key type t.rows u.rows)
    (hrelateds : store.database.tables.get? (columnOf related.table) = some t)
    (hpivots : store.database.tables.get? (columnOf p.table.table) = some u) :
    (s.resolveInTwo p related key store).1 = .ok (.many
      (p.linkedRecords s.config.pivotAccessor related key t.rows u.rows)) := by
  obtain ⟨c, hread⟩ := pivotRows_ok hlocal hreadable key hpivots
  unfold resolveInTwo
  rw [bind_ok hread, ← attachedRecords_eq s.config.pivotAccessor h]
  dsimp only
  cases hempty : (p.relatedIds (p.shownRows key u.rows)).isEmpty with
  | true =>
    rw [List.isEmpty_iff.mp hempty]
    simp
  | false =>
    obtain ⟨next, hselect⟩ := selectRecords_whereIn related
      (store.ran c store.database.tables) hlocal htable hkey
      (p.relatedIds (p.shownRows key u.rows)) s.config.allowFiltering hrelateds
    rw [if_neg Bool.false_ne_true]
    exact congrArg Prod.fst (bind_ok hselect)

/-- A session whose backend has joins and a session on a local store that know
the same entity for a relation, show pivot rows under one attribute, and write
names that are read back. -/
structure BothRead (joining : Session σ) (memory : Session LocalStore) (p : Pivot)
    (related : EntityType) : Prop where
  joins : joining.backend.supportsJoins = true
  dialect : joining.grammar.dialect = .sql
  backend : memory.backend = LocalStore.backend
  accessor : joining.config.pivotAccessor = memory.config.pivotAccessor
  joiningEntity : joining.entity p.table.related = .ok related
  memoryEntity : memory.entity p.table.related = .ok related
  paths : p.ReadsJoin related
  readable : p.Readable memory.grammar
  relatedTable : memory.grammar.ReadsBackTable related.table
  relatedKey : memory.grammar.NamesColumn p.table.relatedKey

section Both

variable {joining : Session σ} {memory : Session LocalStore} {state : σ}
  {store : LocalStore} {t u : Table}

/-- With joins, one query gives the records of the relation. -/
theorem BothRead.resolvePivot_joining (hboth : BothRead joining memory p related)
    (hrows : ∀ key, p.parentKey? = some key → p.Joinable key type relateds pivots)
    (hanswer : ∀ key, p.parentKey? = some key →
      joining.AnswersJoin (p.joinQuery key related) relateds pivots state) :
    (joining.resolvePivot p state).1 = .ok (.many
      (p.relatedRecords memory.config.pivotAccessor related relateds pivots)) := by
  unfold resolvePivot
  cases hkey : p.parentKey? with
  | none =>
    rw [relatedRecords_unset _ hkey]
    rfl
  | some key =>
    have hentity : orThrow (joining.entity p.table.related) state =
        (.ok related, state) := by
      rw [hboth.joiningEntity]
      rfl
    dsimp only
    rw [relatedRecords_set _ hkey, bind_ok hentity, if_pos hboth.joins,
      ← hboth.accessor]
    exact resolveJoined_ok hboth.dialect hboth.paths (hrows key hkey)
      (hanswer key hkey)

/-- Without joins, two queries give them. -/
theorem BothRead.resolvePivot_memory (hboth : BothRead joining memory p related)
    (hrelateds : store.database.tables.get? (columnOf related.table) = some t)
    (hpivots : store.database.tables.get? (columnOf p.table.table) = some u)
    (hrows : ∀ key, p.parentKey? = some key → p.Joinable key type t.rows u.rows) :
    (memory.resolvePivot p store).1 = .ok (.many
      (p.relatedRecords memory.config.pivotAccessor related t.rows u.rows)) := by
  unfold resolvePivot
  cases hkey : p.parentKey? with
  | none =>
    rw [relatedRecords_unset _ hkey]
    rfl
  | some key =>
    have hentity : orThrow (memory.entity p.table.related) store =
        (.ok related, store) := by
      rw [hboth.memoryEntity]
      rfl
    have hjoins : ¬ memory.backend.supportsJoins = true := by
      rw [hboth.backend]
      exact Bool.false_ne_true
    dsimp only
    rw [relatedRecords_set _ hkey, bind_ok hentity, if_neg hjoins]
    exact resolveInTwo_ok hboth.backend hboth.readable hboth.relatedTable
      hboth.relatedKey (hrows key hkey) hrelateds hpivots

/-- A many-to-many relation is read the same with a join and with two queries. A
backend that answers the query with a join from the rows of two tables and a
local store that holds these rows both give the related records that have a
pivot row, each with it, in table order, and all of them clean. The rows may be
any of which no two that are shown have the same related key; keys may be null.
-/
theorem resolvePivot_agrees (hboth : BothRead joining memory p related)
    (hrelateds : store.database.tables.get? (columnOf related.table) = some t)
    (hpivots : store.database.tables.get? (columnOf p.table.table) = some u)
    (hrows : ∀ key, p.parentKey? = some key → p.Joinable key type t.rows u.rows)
    (hanswer : ∀ key, p.parentKey? = some key →
      joining.AnswersJoin (p.joinQuery key related) t.rows u.rows state) :
    (joining.resolvePivot p state).1 = .ok (.many
        (p.relatedRecords memory.config.pivotAccessor related t.rows u.rows)) ∧
      (memory.resolvePivot p store).1 = .ok (.many
          (p.relatedRecords memory.config.pivotAccessor related t.rows u.rows)) ∧
      ∀ record ∈ p.relatedRecords memory.config.pivotAccessor related t.rows u.rows,
        record.isDirty = false :=
  ⟨hboth.resolvePivot_joining hrows hanswer,
    hboth.resolvePivot_memory hrelateds hpivots hrows,
    clean_relatedRecords _ p related _ _⟩

end Both

/-! ### The roles of a user -/

def role : EntityType := { name := "Role", table := "roles" }

def roles : List Row :=
  [.ofList [("id", .int 11), ("title", .text "author")],
    .ofList [("id", .int 10), ("title", .text "editor")]]

/-- The rows of both tables in memory. -/
def rolesTables : LocalStore where
  database :=
    { tables := rolesStore.database.tables.insert "roles" ⟨["id"], roles⟩ }

/-- A backend with joins that has the answer to the query on the active roles of
the first user. The pivot row has no level. -/
def rolesAnswer : ScriptedStore where
  answers := [.ok (.ofRows [.ofList [("id", .int 10), ("title", .text "editor"),
    ("pivot_user_id", .int 1), ("pivot_role_id", .int 10),
    ("pivot_level", .null)]])]

/-- The one active role of the first user is read the same with a join and
without. -/
theorem resolvePivot_agrees_roles :
    (((Session.new { dialect := .sql } (ScriptedStore.backend true)).register
        role).resolvePivot userRoles rolesAnswer).1 =
        .ok (.many (userRoles.relatedRecords "pivot" role roles roleRows)) ∧
      ((rolesSession.register role).resolvePivot userRoles rolesTables).1 =
        .ok (.many (userRoles.relatedRecords "pivot" role roles roleRows)) ∧
      ∀ record ∈ userRoles.relatedRecords "pivot" role roles roleRows,
        record.isDirty = false := by
  have hnames : ∀ name ∈ ["user_id", "role_id", "level", "active", "id"],
      rolesSession.grammar.NamesColumn name := by
    have hreadable : ∀ name ∈ ["user_id", "role_id", "level", "active", "id"],
        rolesSession.grammar.ReadablePath name := by decide
    have hsingle : ∀ name ∈ ["user_id", "role_id", "level", "active", "id"],
        columnOf name = name := by decide
    exact fun name hname => ⟨(hreadable name hname).readsBack, hsingle name hname⟩
  have hcolumns : userRoles.columns = ["user_id", "role_id", "level"] := by decide
  have hreadable : userRoles.Readable rolesSession.grammar := by
    refine ⟨Grammar.ReadableTable.readsBack (by decide), ?_, by decide,
      List.forall_mem_singleton.mpr (hnames _ (by decide))⟩
    rw [hcolumns]
    exact fun name hname =>
      hnames name (List.mem_append_left ["active", "id"] hname)
  have hboth : BothRead
      ((Session.new { dialect := .sql } (ScriptedStore.backend true)).register role)
      (rolesSession.register role) userRoles role :=
    { joins := rfl
      dialect := rfl
      backend := rfl
      accessor := rfl
      joiningEntity := rfl
      memoryEntity := rfl
      paths := Pivot.readsJoin_of_simple
        (by decide) (by decide) (by decide) (by decide)
      readable := hreadable
      relatedTable := Grammar.ReadableTable.readsBack (by decide)
      relatedKey := hnames _ (by decide) }
  have hjoinable : userRoles.Joinable (.int 1) "int" roles roleRows :=
    { ordered := List.forall_mem_cons.mpr ⟨NameMap.wellFormed_ofList _,
        List.forall_mem_singleton.mpr (NameMap.wellFormed_ofList _)⟩
      unlabelled := by decide
      relatedKey := by decide
      relatedId := by decide
      distinct := by decide }
  have hrelateds : rolesTables.database.tables.get? (columnOf role.table) =
      some ⟨["id"], roles⟩ := rfl
  have hpivots : rolesTables.database.tables.get? (columnOf userRoles.table.table) =
      some ⟨["user_id", "role_id"], roleRows⟩ := rfl
  have hparent {key : Value} (hkey : userRoles.parentKey? = some key) :
      key = .int 1 :=
    (Option.some.inj hkey).symm
  refine resolvePivot_agrees hboth hrelateds hpivots
    (fun key hkey => hparent hkey ▸ hjoinable) ?_
  rintro key hkey c -
  rw [hparent hkey]
  rfl

end Session

end EntityMapper
