import EntityMapper.Proofs.Grammar.ColumnNames
import EntityMapper.Proofs.Session.Commands
import EntityMapper.Proofs.Store.Comparison
import EntityMapper.Proofs.Store.Keys
import EntityMapper.Session.PivotWrite
import Mathlib.Data.List.Induction
import Mathlib.Data.List.Nodup

/-!
# Pivot rows

The related keys that are attached to a parent are those in its pivot rows, of
which the relation shows the ones that satisfy its equalities. This module
follows the attached keys through what is done to the rows: an insertion, which
may write over a row that was not shown, adds its key; a deletion removes the
keys of its rows; an update of other columns keeps them all.

Keys are compared in three ways, by the store's filters, by the store's keys and
by the session. For values of one kind that can serve as a key the three agree
with identity.
-/

namespace EntityMapper

/-! ## Lists without repetitions -/

/-- A list of the values of which a property holds, each once. -/
def ListsEach (values : List Value) (property : Value → Prop) : Prop :=
  values.Nodup ∧ ∀ value, value ∈ values ↔ property value

section ListsEach

variable {values : List Value} {value : Value} {property other : Value → Prop}

theorem listsEach_nil (h : ∀ value, ¬ property value) : ListsEach [] property :=
  ⟨List.nodup_nil, fun value => iff_of_false List.not_mem_nil (h value)⟩

theorem ListsEach.congr (h : ListsEach values property)
    (hsame : ∀ value, property value ↔ other value) : ListsEach values other :=
  ⟨h.1, fun value => (h.2 value).trans (hsame value)⟩

theorem ListsEach.concat (h : ListsEach values property) (hnew : ¬ property value) :
    ListsEach (values ++ [value]) fun other => property other ∨ other = value := by
  refine ⟨List.concat_eq_append ▸
    List.Nodup.concat (fun hmem => hnew ((h.2 value).mp hmem)) h.1, fun other => ?_⟩
  rw [List.mem_append, List.mem_singleton, h.2]

/-- Among values of one kind the session finds those that are in a list. -/
theorem contains_iff_mem {kind : Store.KeyKind} (hvalue : kind.has value = true) :
    values.contains value = true ↔ value ∈ values := by
  rw [List.contains_eq_any_beq, List.any_eq_true]
  constructor
  · rintro ⟨other, hother, hequal⟩
    rwa [(Store.KeyKind.beq_iff hvalue).mp hequal]
  · exact fun hmem => ⟨value, hmem, (Store.KeyKind.beq_iff hvalue).mpr rfl⟩

/-- A value is put into a list unless it is there. -/
theorem ListsEach.add {kind : Store.KeyKind} (hvalue : kind.has value = true)
    (h : ListsEach values property) :
    ListsEach (if values.contains value then values else values ++ [value])
      fun other => property other ∨ other = value := by
  by_cases hmem : value ∈ values
  · rw [if_pos ((contains_iff_mem hvalue).mpr hmem)]
    exact h.congr fun other =>
      (or_iff_left_of_imp fun heq => heq ▸ (h.2 value).mp hmem).symm
  · rw [if_neg fun hcontains => hmem ((contains_iff_mem hvalue).mp hcontains)]
    exact h.concat fun hproperty => hmem ((h.2 value).mpr hproperty)

end ListsEach

/-! ## Pairs that are overwritten -/

namespace Session

theorem lookup_overwrite (pairs : Pairs) (column : String) (value : Value)
    (name : String) :
    NameMap.lookup name (overwrite pairs column value) =
      if column = name then some value else NameMap.lookup name pairs := by
  induction pairs with
  | nil => rfl
  | cons pair rest ih =>
    obtain ⟨existing, old⟩ := pair
    rw [overwrite]
    by_cases hsame : existing = column
    · subst hsame
      rw [if_pos rfl, NameMap.lookup, NameMap.lookup]
      split <;> rfl
    · rw [if_neg hsame, NameMap.lookup, NameMap.lookup, ih]
      by_cases hname : existing = name
      · rw [if_pos hname, if_pos hname, if_neg fun h => hsame (hname.trans h.symm)]
      · rw [if_neg hname, if_neg hname]

theorem map_fst_overwrite (pairs : Pairs) (column : String) (value : Value) :
    (overwrite pairs column value).map Prod.fst =
      if column ∈ pairs.map Prod.fst then pairs.map Prod.fst
      else pairs.map Prod.fst ++ [column] := by
  induction pairs with
  | nil => rfl
  | cons pair rest ih =>
    obtain ⟨existing, old⟩ := pair
    rw [overwrite]
    by_cases hsame : existing = column
    · subst hsame
      simp
    · rw [if_neg hsame, List.map_cons, ih]
      by_cases hmem : column ∈ rest.map Prod.fst
      · simp [hmem]
      · simp [hmem, Ne.symm hsame]

theorem nodup_overwrite {pairs : Pairs} (h : (pairs.map Prod.fst).Nodup)
    (column : String) (value : Value) :
    ((overwrite pairs column value).map Prod.fst).Nodup := by
  rw [map_fst_overwrite]
  split
  · exact h
  · next hmem => exact List.concat_eq_append ▸ List.Nodup.concat hmem h

/-- Pairs written over others one after another. -/
def overwriteAll (pairs more : Pairs) : Pairs :=
  more.foldl (fun pairs (column, value) => overwrite pairs column value) pairs

theorem nodup_overwriteAll {pairs : Pairs} (h : (pairs.map Prod.fst).Nodup)
    (more : Pairs) : ((overwriteAll pairs more).map Prod.fst).Nodup := by
  induction more generalizing pairs with
  | nil => exact h
  | cons pair rest ih => exact ih (nodup_overwrite h pair.1 pair.2)

theorem mem_overwrite {pairs : Pairs} {column : String} {value : Value}
    {pair : String × Value} (h : pair ∈ overwrite pairs column value) :
    pair ∈ pairs ∨ pair = (column, value) := by
  induction pairs with
  | nil => exact .inr (List.mem_singleton.mp h)
  | cons first rest ih =>
    rw [overwrite] at h
    split at h
    · next hsame =>
      rcases List.mem_cons.mp h with rfl | h
      · exact .inr (by rw [hsame])
      · exact .inl (List.mem_cons_of_mem _ h)
    · rcases List.mem_cons.mp h with rfl | h
      · exact .inl (List.mem_cons_self ..)
      · exact (ih h).imp_left (List.mem_cons_of_mem _)

theorem mem_overwriteAll {pairs more : Pairs} {pair : String × Value}
    (h : pair ∈ overwriteAll pairs more) : pair ∈ pairs ∨ pair ∈ more := by
  induction more generalizing pairs with
  | nil => exact .inl h
  | cons first rest ih =>
    rcases ih h with h | h
    · exact (mem_overwrite h).imp_right fun heq => List.mem_cons.mpr (.inl heq)
    · exact .inr (List.mem_cons_of_mem _ h)

theorem overwriteAll_ne_nil {pairs : Pairs} (h : pairs ≠ []) (more : Pairs) :
    overwriteAll pairs more ≠ [] := by
  induction more generalizing pairs with
  | nil => exact h
  | cons pair rest ih =>
    refine ih fun hnone => ?_
    have hnames := congrArg (List.map Prod.fst) hnone
    rw [map_fst_overwrite] at hnames
    split at hnames
    · exact h (List.map_eq_nil_iff.mp hnames)
    · simp at hnames

theorem pivotValues_ne_nil (p : Pivot) (key id : Value) (extra : Pairs) :
    pivotValues p key id extra ≠ [] := overwriteAll_ne_nil (List.cons_ne_nil _ _) _

theorem lookup_overwriteAll_of_not_mem {more : Pairs} {name : String}
    (h : name ∉ more.map Prod.fst) (pairs : Pairs) :
    NameMap.lookup name (overwriteAll pairs more) = NameMap.lookup name pairs := by
  induction more generalizing pairs with
  | nil => rfl
  | cons pair rest ih =>
    obtain ⟨hpair, hrest⟩ := not_or.mp (List.mem_cons.not.mp h)
    calc
      NameMap.lookup name (overwriteAll pairs (pair :: rest)) =
          NameMap.lookup name (overwrite pairs pair.1 pair.2) := ih hrest _
      _ = NameMap.lookup name pairs := by
        rw [lookup_overwrite, if_neg (Ne.symm hpair)]

theorem lookup_overwriteAll_of_mem {more : Pairs}
    (hnodup : (more.map Prod.fst).Nodup) {pair : String × Value}
    (h : pair ∈ more) (pairs : Pairs) :
    NameMap.lookup pair.1 (overwriteAll pairs more) = some pair.2 := by
  induction more generalizing pairs with
  | nil => cases h
  | cons first rest ih =>
    obtain ⟨hfirst, hrest⟩ := List.nodup_cons.mp hnodup
    rcases List.mem_cons.mp h with rfl | h
    · calc
        NameMap.lookup pair.1 (overwriteAll pairs (pair :: rest)) =
            NameMap.lookup pair.1 (overwrite pairs pair.1 pair.2) :=
          lookup_overwriteAll_of_not_mem hfirst _
        _ = some pair.2 := by rw [lookup_overwrite, if_pos rfl]
    · exact ih hrest h _

theorem overwriteAll_append (pairs first second : Pairs) :
    overwriteAll pairs (first ++ second) =
      overwriteAll (overwriteAll pairs first) second :=
  List.foldl_append ..

end Session

namespace Pivot

open Session Store

variable {g : Grammar} {p : Pivot} {key : Value} {owner related : KeyKind}
  {extra : Pairs} {rows : List Row} {row : Row} {id : Value}

/-! ## Relations on a store -/

/-- The two key columns of the pivot table. -/
def keyColumns (p : Pivot) : List String :=
  [p.table.foreignPivotKey, p.table.relatedPivotKey]

theorem foreignPivotKey_mem (p : Pivot) : p.table.foreignPivotKey ∈ p.keyColumns :=
  List.mem_cons_self ..

theorem relatedPivotKey_mem (p : Pivot) : p.table.relatedPivotKey ∈ p.keyColumns :=
  List.mem_cons_of_mem _ (List.mem_singleton_self _)

theorem mem_columns {name : String} (h : name ∈ p.keyColumns) :
    name ∈ p.columns := by
  refine List.foldlRecOn (motive := fun columns => name ∈ columns)
    p.table.pivotColumns _ h ?_
  intro columns hcolumns column _
  split
  · exact hcolumns
  · exact List.mem_append_left _ hcolumns

/-- A relation of which every name is read back as it is, whose parent has a key
of one kind, and whose equalities are on columns of their own, with values that
a row can satisfy. -/
structure Mapped (g : Grammar) (p : Pivot) (key : Value) (owner : KeyKind) :
    Prop where
  table : g.ReadsBackTable p.table.table
  names : ∀ name ∈ p.columns, g.NamesColumn name
  star : "*" ∉ p.columns
  distinct : p.table.foreignPivotKey ≠ p.table.relatedPivotKey
  parentKey : p.parentKey? = some key
  kind : owner.has key = true
  wheres : ∀ pair ∈ p.table.pivotWheres, g.NamesColumn pair.1 ∧
    pair.1 ∉ p.keyColumns ∧ pair.2.isNull = false ∧ (pair.2 == pair.2) = true
  nodup : (p.table.pivotWheres.map Prod.fst).Nodup

/-- A relation of which every name is read back as it is. -/
structure Readable (g : Grammar) (p : Pivot) : Prop where
  table : g.ReadsBackTable p.table.table
  names : ∀ name ∈ p.columns, g.NamesColumn name
  star : "*" ∉ p.columns
  wheres : ∀ pair ∈ p.table.pivotWheres, g.NamesColumn pair.1

theorem Mapped.readable (h : p.Mapped g key owner) : p.Readable g :=
  ⟨h.table, h.names, h.star, fun pair hpair => (h.wheres pair hpair).1⟩

/-- Extra columns that are neither keys nor columns of the relation's equalities. -/
def Fits (g : Grammar) (p : Pivot) (extra : Pairs) : Prop :=
  ∀ pair ∈ extra, g.NamesColumn pair.1 ∧ pair.1 ∉ p.keyColumns ∧
    pair.1 ∉ p.table.pivotWheres.map Prod.fst

/-- Rows with keys of one kind in each of the two columns. -/
def Typed (p : Pivot) (owner related : KeyKind) (rows : List Row) : Prop :=
  ∀ row ∈ rows, owner.has (cell row p.table.foreignPivotKey) = true ∧
    related.has (cell row p.table.relatedPivotKey) = true

/-- Whether a row is one of the parent's and satisfies the equalities of the
relation. -/
def shows (p : Pivot) (key : Value) (row : Row) : Bool :=
  holdsKey p.table.foreignPivotKey key row &&
    p.table.pivotWheres.all fun pair => holdsKey pair.1 pair.2 row

/-- A related key is attached if a row that is shown holds it. -/
def Attached (p : Pivot) (key : Value) (rows : List Row) (id : Value) : Prop :=
  ∃ row ∈ rows, p.shows key row = true ∧ cell row p.table.relatedPivotKey = id

/-! ## Inserted rows -/

/-- A row that is shown whatever else it holds, since it has the parent's key
and satisfies the equalities. -/
structure Links (p : Pivot) (key id : Value) (row : Row) : Prop where
  owner : row.get? p.table.foreignPivotKey = some key
  related : row.get? p.table.relatedPivotKey = some id
  wheres : ∀ pair ∈ p.table.pivotWheres, row.get? pair.1 = some pair.2

theorem nodup_pivotValues (h : p.Mapped g key owner) (id : Value) (extra : Pairs) :
    ((pivotValues p key id extra).map Prod.fst).Nodup :=
  nodup_overwriteAll (by simpa using h.distinct) _

theorem mem_pivotValues {pair : String × Value}
    (h : pair ∈ pivotValues p key id extra) :
    pair = (p.table.foreignPivotKey, key) ∨ pair = (p.table.relatedPivotKey, id) ∨
      pair ∈ p.table.pivotWheres ∨ pair ∈ extra := by
  rcases mem_overwriteAll h with hkeys | hmore
  · rcases List.mem_cons.mp hkeys with rfl | hkeys
    · exact .inl rfl
    · exact .inr (.inl (List.mem_singleton.mp hkeys))
  · exact .inr (.inr (List.mem_append.mp hmore))

theorem namesColumn_pivotValues (h : p.Mapped g key owner) (hextra : Fits g p extra)
    (id : Value) : ∀ pair ∈ pivotValues p key id extra, g.NamesColumn pair.1 := by
  intro pair hpair
  rcases mem_pivotValues hpair with rfl | rfl | hwhere | hmem
  · exact h.names _ (mem_columns p.foreignPivotKey_mem)
  · exact h.names _ (mem_columns p.relatedPivotKey_mem)
  · exact (h.wheres pair hwhere).1
  · exact (hextra pair hmem).1

theorem links_pivotValues (h : p.Mapped g key owner) (hextra : Fits g p extra)
    (id : Value) : p.Links key id (.ofList (pivotValues p key id extra)) := by
  have hnodup := nodup_pivotValues h id extra
  have hvalues : pivotValues p key id extra =
      overwriteAll (overwriteAll [(p.table.foreignPivotKey, key),
            (p.table.relatedPivotKey, id)] p.table.pivotWheres) extra :=
    overwriteAll_append _ _ _
  have hkey {name : String} (hname : name ∈ p.keyColumns) :
      NameMap.lookup name (pivotValues p key id extra) = NameMap.lookup name
        [(p.table.foreignPivotKey, key), (p.table.relatedPivotKey, id)] := by
    rw [hvalues, lookup_overwriteAll_of_not_mem, lookup_overwriteAll_of_not_mem]
    · intro hmem
      obtain ⟨pair, hpair, rfl⟩ := List.mem_map.mp hmem
      exact (h.wheres pair hpair).2.1 hname
    · intro hmem
      obtain ⟨pair, hpair, rfl⟩ := List.mem_map.mp hmem
      exact (hextra pair hpair).2.1 hname
  constructor
  · rw [NameMap.get?_ofList hnodup, hkey p.foreignPivotKey_mem,
      NameMap.lookup, if_pos rfl]
  · rw [NameMap.get?_ofList hnodup, hkey p.relatedPivotKey_mem,
      NameMap.lookup, if_neg h.distinct, NameMap.lookup, if_pos rfl]
  · intro pair hpair
    rw [NameMap.get?_ofList hnodup, hvalues, lookup_overwriteAll_of_not_mem]
    · exact lookup_overwriteAll_of_mem h.nodup hpair _
    · intro hmem
      obtain ⟨other, hother, heq⟩ := List.mem_map.mp hmem
      exact (hextra other hother).2.2 (heq ▸ List.mem_map_of_mem hpair)

theorem Links.extend (hrow : row.WellFormed) (h : p.Links key id row) (old : Row) :
    p.Links key id (old.extend row) := by
  have hget {name : String} {value : Value} (hvalue : row.get? name = some value) :
      (old.extend row).get? name = some value := by
    rw [NameMap.get?_extend old hrow, hvalue, Option.some_or]
  exact ⟨hget h.owner, hget h.related, fun pair hpair => hget (h.wheres pair hpair)⟩

theorem Links.shows (h : p.Mapped g key owner) (hlinks : p.Links key id row) :
    p.shows key row = true := by
  have hself : (key == key) = true := (KeyKind.beq_iff h.kind).mpr rfl
  rw [Pivot.shows, holdsKey_of_get hlinks.owner hself (KeyKind.isNull h.kind),
    Bool.true_and, List.all_eq_true]
  intro pair hpair
  obtain ⟨-, -, hnull, hself⟩ := h.wheres pair hpair
  exact holdsKey_of_get (hlinks.wheres pair hpair) hself hnull

theorem Links.keyOf (h : p.Links key id row) (hkey : key.isNull = false)
    (hid : id.isNull = false) (name : String) :
    Table.keyOf name row p.keyColumns = .ok [key, id] := by
  rw [keyColumns, Table.keyOf, h.owner, Value.bound?_of_not_null hkey]
  dsimp only
  rw [Table.keyOf, h.related, Value.bound?_of_not_null hid]
  rfl

theorem Links.cell (h : p.Links key id row) :
    cell row p.table.relatedPivotKey = id := by
  rw [Store.cell, h.related]
  rfl

/-- A row that has the key of an inserted one holds its related key. -/
theorem cell_of_hasKey (hid : related.has id = true)
    (h : Table.hasKey row p.keyColumns [key, id] = true) :
    cell row p.table.relatedPivotKey = id := by
  obtain ⟨-, -, -, hrest⟩ := hasKey_cons.mp h
  obtain ⟨stored, hstored, hequal, -⟩ := hasKey_cons.mp hrest
  rw [cell, hstored]
  exact ((KeyKind.beq_iff hid).mp (PartialEquivBEq.symm (α := Value) hequal)).symm

/-- Insertion of a row that links attaches its related key, and none else. -/
theorem attached_upsertRows (h : p.Mapped g key owner) (hid : related.has id = true)
    (hrow : row.WellFormed) (hlinks : p.Links key id row) (other : Value) :
    p.Attached key (Table.upsertRows p.keyColumns [key, id] row rows) other ↔
      other = id ∨ p.Attached key rows other := by
  have hcons (first : Row) (rest : List Row) :
      p.Attached key (first :: rest) other ↔
        (p.shows key first = true ∧ cell first p.table.relatedPivotKey = other) ∨
          p.Attached key rest other := by
    simp [Attached]
  have hlinked {row : Row} (hlinks : p.Links key id row) :
      (p.shows key row = true ∧ cell row p.table.relatedPivotKey = other) ↔
        other = id := by
    rw [hlinks.shows h, hlinks.cell]
    exact ⟨fun hsame => hsame.2.symm, fun hsame => ⟨rfl, hsame.symm⟩⟩
  induction rows with
  | nil =>
    rw [Table.upsertRows, hcons, hlinked hlinks]
  | cons old rest ih =>
    rw [Table.upsertRows]
    cases hkey : Table.hasKey old p.keyColumns [key, id] with
    | true =>
      -- A row with the key is attached by the key that it has anyway, if it was
      -- shown at all.
      have hold : p.shows key old = true ∧
            cell old p.table.relatedPivotKey = other → other = id :=
        fun hshown => hshown.2.symm.trans (cell_of_hasKey hid hkey)
      rw [if_pos rfl, hcons, hcons, hlinked (hlinks.extend hrow old)]
      tauto
    | false =>
      rw [if_neg Bool.false_ne_true, hcons, hcons]
      exact (or_congr_right ih).trans or_left_comm

theorem Typed.upsertRows (h : p.Mapped g key owner) (hid : related.has id = true)
    (htyped : p.Typed owner related rows) (hrow : row.WellFormed)
    (hlinks : p.Links key id row) :
    p.Typed owner related (Table.upsertRows p.keyColumns [key, id] row rows) := by
  have hlinked {row : Row} (hlinks : p.Links key id row) :
      owner.has (cell row p.table.foreignPivotKey) = true ∧
        related.has (cell row p.table.relatedPivotKey) = true := by
    rw [hlinks.cell, cell, hlinks.owner]
    exact ⟨h.kind, hid⟩
  intro written hwritten
  rcases Table.mem_upsertRows hwritten with hold | rfl | ⟨old, -, rfl⟩
  · exact htyped written hold
  · exact hlinked hlinks
  · exact hlinked (hlinks.extend hrow old)

/-! ## Deleted and updated rows -/

theorem Typed.filter (h : p.Typed owner related rows) (keep : Row → Bool) :
    p.Typed owner related (rows.filter keep) :=
  fun row hrow => h row (List.mem_of_mem_filter hrow)

/-- Whether one of some related keys is that of a row. -/
def namesOne (p : Pivot) (ids : List Value) (row : Row) : Bool :=
  !(cell row p.table.relatedPivotKey).isNull &&
    ids.any fun id => valuesEqual (cell row p.table.relatedPivotKey) id

theorem namesOne_iff {ids : List Value} (hids : ∀ id ∈ ids, related.has id = true)
    (hrow : related.has (cell row p.table.relatedPivotKey) = true) :
    p.namesOne ids row = true ↔ cell row p.table.relatedPivotKey ∈ ids := by
  rw [namesOne, KeyKind.isNull hrow, Bool.not_false, Bool.true_and,
    List.any_eq_true]
  constructor
  · rintro ⟨id, hid, hequal⟩
    rwa [(KeyKind.valuesEqual_iff hrow (hids id hid)).mp hequal]
  · intro hmem
    exact ⟨_, hmem, (KeyKind.valuesEqual_iff hrow (hids _ hmem)).mpr rfl⟩

/-- Deletion of the shown rows of some related keys detaches these, and none
else. -/
theorem attached_delete (htyped : p.Typed owner related rows) {ids : List Value}
    (hids : ∀ id ∈ ids, related.has id = true) (other : Value) :
    p.Attached key
        (rows.filter fun row => !(p.shows key row && p.namesOne ids row)) other ↔
      p.Attached key rows other ∧ other ∉ ids := by
  constructor
  · rintro ⟨row, hrow, hshown, rfl⟩
    obtain ⟨hmem, hkept⟩ := List.mem_filter.mp hrow
    rw [hshown, Bool.true_and, Bool.not_eq_true', ← Bool.not_eq_true,
      namesOne_iff hids (htyped row hmem).2] at hkept
    exact ⟨⟨row, hmem, hshown, rfl⟩, hkept⟩
  · rintro ⟨⟨row, hmem, hshown, rfl⟩, hother⟩
    refine ⟨row, List.mem_filter.mpr ⟨hmem, ?_⟩, hshown, rfl⟩
    rw [hshown, Bool.true_and, Bool.not_eq_true', ← Bool.not_eq_true,
      namesOne_iff hids (htyped row hmem).2]
    exact hother

/-- Without the shown rows nothing is attached. -/
theorem not_attached_hidden (other : Value) :
    ¬ p.Attached key (rows.filter fun row => !p.shows key row) other := by
  rintro ⟨row, hrow, hshown, -⟩
  have hhidden := (List.mem_filter.mp hrow).2
  rw [hshown] at hhidden
  cases hhidden

/-- Extra columns have no part in what a row shows. -/
theorem get?_extra (hextra : Fits g p extra) {name : String}
    (hname : name ∈ p.keyColumns ∨ name ∈ p.table.pivotWheres.map Prod.fst)
    (row : Row) : (overwritten row extra).get? name = row.get? name := by
  have hother : ∀ pair ∈ extra, columnOf pair.1 ≠ name := by
    intro pair hpair heq
    obtain ⟨hnames, hkeys, hwheres⟩ := hextra pair hpair
    rw [hnames.single] at heq
    rcases hname with hkey | hwhere
    · exact hkeys (heq ▸ hkey)
    · exact hwheres (heq ▸ hwhere)
  unfold overwritten NameMap.extend
  dsimp only
  clear hextra
  induction extra generalizing row with
  | nil => rfl
  | cons pair rest ih =>
    obtain ⟨hpair, hrest⟩ := List.forall_mem_cons.mp hother
    rw [List.map_cons, List.foldl_cons, ih _ hrest, NameMap.get?_insert_of_ne hpair]

theorem shows_extra (hextra : Fits g p extra) (row : Row) :
    p.shows key (overwritten row extra) = p.shows key row := by
  have hkey : holdsKey p.table.foreignPivotKey key (overwritten row extra) =
      holdsKey p.table.foreignPivotKey key row := by
    rw [holdsKey, cell, get?_extra hextra (.inl (List.mem_cons_self ..))]
    rfl
  rw [shows, shows, hkey]
  congr 1
  refine all_congr_mem fun pair hpair => ?_
  rw [holdsKey, cell, get?_extra hextra (.inr (List.mem_map_of_mem hpair))]
  rfl

theorem cell_extra (hextra : Fits g p extra) {name : String}
    (hname : name ∈ p.keyColumns) (row : Row) :
    cell (overwritten row extra) name = cell row name := by
  rw [cell, get?_extra hextra (.inl hname), cell]

/-- An update of extra columns attaches and detaches nothing. -/
theorem attached_update (hextra : Fits g p extra) (test : Row → Bool)
    (other : Value) :
    p.Attached key
        (rows.map fun row => if test row then overwritten row extra else row)
        other ↔ p.Attached key rows other := by
  have hsame (row : Row) :
      (p.shows key (if test row then overwritten row extra else row) = true ∧
        cell (if test row then overwritten row extra else row)
            p.table.relatedPivotKey = other) ↔
        (p.shows key row = true ∧ cell row p.table.relatedPivotKey = other) := by
    split
    · rw [shows_extra hextra, cell_extra hextra p.relatedPivotKey_mem]
    · rfl
  constructor
  · rintro ⟨_, hmem, hshown⟩
    obtain ⟨row, hrow, rfl⟩ := List.mem_map.mp hmem
    exact ⟨row, hrow, (hsame row).mp hshown⟩
  · rintro ⟨row, hrow, hshown⟩
    exact ⟨_, List.mem_map_of_mem hrow, (hsame row).mpr hshown⟩

theorem Typed.update (hextra : Fits g p extra) (h : p.Typed owner related rows)
    (test : Row → Bool) :
    p.Typed owner related
      (rows.map fun row => if test row then overwritten row extra else row) := by
  intro written hwritten
  obtain ⟨row, hrow, rfl⟩ := List.mem_map.mp hwritten
  split
  · rw [cell_extra hextra p.foreignPivotKey_mem,
      cell_extra hextra p.relatedPivotKey_mem]
    exact h row hrow
  · exact h row hrow

/-! ## Attached keys as they are read -/

/-- What the select list of a relation shows of a row. -/
theorem get?_project {name : String} (hname : name ∈ p.columns) (row : Row) :
    (project (p.columns.map fun column => ⟨column, none⟩) row).get? name =
      some (cell row name) := by
  have hlist : (p.columns.map fun column => (⟨column, none⟩ : ProjectedColumn)).map
      (fun c => (c.outputName, cell row c.name)) =
        p.columns.map fun column => (column, cell row column) := by
    rw [List.map_map]
    rfl
  rw [project, hlist]
  exact NameMap.get?_extend_map (fun (x y : String) (h : id x = id y) => h) ∅
    (cell row) hname

theorem get?_project_relatedPivotKey (p : Pivot) (row : Row) :
    (project (p.columns.map fun column => ⟨column, none⟩) row).get?
        p.table.relatedPivotKey = some (cell row p.table.relatedPivotKey) :=
  get?_project (mem_columns p.relatedPivotKey_mem) row

/-- What a relation is read as from rows: the shown ones, with its columns. -/
def shownRows (p : Pivot) (key : Value) (rows : List Row) : List Row :=
  (rows.filter (p.shows key)).map
    (project (p.columns.map fun column => ⟨column, none⟩))

/-- Values without those that are equal to an earlier one. -/
def eachOnce (values : List Value) : List Value :=
  values.foldl (fun before value => if before.contains value then before
      else before ++ [value]) []

theorem eachOnce_concat (values : List Value) (value : Value) :
    eachOnce (values ++ [value]) = if (eachOnce values).contains value then
        eachOnce values else eachOnce values ++ [value] :=
  List.foldl_concat ..

theorem mem_of_mem_eachOnce {values : List Value} {value : Value}
    (h : value ∈ eachOnce values) : value ∈ values := by
  induction values using List.reverseRec with
  | nil => cases h
  | append_singleton before last ih =>
    rw [eachOnce_concat] at h
    split at h
    · exact List.mem_append_left _ (ih h)
    · exact List.mem_append.mpr ((List.mem_append.mp h).imp_left ih)

/-- A value that is left out is equal to one that is kept, and so to every value
that is equal to that one. -/
theorem any_eachOnce (values : List Value) (value : Value) :
    (eachOnce values).any (value == ·) = values.any (value == ·) := by
  induction values using List.reverseRec with
  | nil => rfl
  | append_singleton before last ih =>
    rw [eachOnce_concat, List.any_append, List.any_cons, List.any_nil,
      Bool.or_false]
    split
    · next hcontains =>
      rw [List.contains_eq_any_beq, List.any_eq_true] at hcontains
      obtain ⟨kept, hkept, hequal⟩ := hcontains
      cases hlast : value == last with
      | false => rw [ih, Bool.or_false]
      | true =>
        rw [Bool.or_true]
        exact List.any_eq_true.mpr
          ⟨kept, hkept, PartialEquivBEq.trans (α := Value) hlast hequal⟩
    · calc
        (eachOnce before ++ [last]).any (value == ·) =
            ((eachOnce before).any (value == ·) || value == last) := by
          rw [List.any_append, List.any_cons, List.any_nil, Bool.or_false]
        _ = (before.any (value == ·) || value == last) := by rw [ih]

/-- The keys that are read from shown rows. -/
theorem relatedIds_shownRows (p : Pivot) (key : Value) (rows : List Row) :
    p.relatedIds (p.shownRows key rows) =
      eachOnce ((rows.filter (p.shows key)).filterMap fun row =>
        Value.bound? (some (cell row p.table.relatedPivotKey))) := by
  rw [eachOnce, List.foldl_filterMap, relatedIds, shownRows, List.foldl_map]
  congr 1
  funext ids row
  rw [get?_project_relatedPivotKey]
  cases Value.bound? (some (cell row p.table.relatedPivotKey)) <;> rfl

/-- The keys in some rows are read from them, each once. -/
theorem listsEach_relatedIds {read : List Row}
    (h : ∀ row ∈ read, ∃ id, row.get? p.table.relatedPivotKey = some id ∧
      related.has id = true) : ListsEach (p.relatedIds read) fun id =>
      ∃ row ∈ read, row.get? p.table.relatedPivotKey = some id := by
  induction read using List.reverseRec with
  | nil => exact listsEach_nil (by simp)
  | append_singleton before row ih =>
    obtain ⟨hbefore, hlast⟩ := List.forall_mem_append.mp h
    obtain ⟨id, hget, hid⟩ := List.forall_mem_singleton.mp hlast
    have hbound : Value.bound? (some id) = some id :=
      Value.bound?_of_not_null (KeyKind.isNull hid)
    rw [Pivot.relatedIds, List.foldl_concat, ← Pivot.relatedIds, hget, hbound]
    refine ((ih hbefore).add hid).congr fun other => ?_
    simp [or_and_right, exists_or, hget, eq_comm]

/-- The keys that are read are the attached ones. -/
theorem listsEach_attached (htyped : p.Typed owner related rows) :
    ListsEach (p.relatedIds (p.shownRows key rows)) (p.Attached key rows) := by
  have hread : ∀ shown ∈ p.shownRows key rows, ∃ id,
      shown.get? p.table.relatedPivotKey = some id ∧ related.has id = true := by
    intro shown hshown
    obtain ⟨row, hrow, rfl⟩ := List.mem_map.mp hshown
    exact ⟨_, p.get?_project_relatedPivotKey row,
      (htyped row (List.mem_of_mem_filter hrow)).2⟩
  refine (listsEach_relatedIds hread).congr fun id => ⟨?_, ?_⟩
  · rintro ⟨shown, hshown, hid⟩
    obtain ⟨row, hrow, rfl⟩ := List.mem_map.mp hshown
    obtain ⟨hrow, hpass⟩ := List.mem_filter.mp hrow
    exact ⟨row, hrow, hpass,
      Option.some.inj ((p.get?_project_relatedPivotKey row).symm.trans hid)⟩
  · rintro ⟨row, hrow, hpass, rfl⟩
    exact ⟨_, List.mem_map_of_mem (List.mem_filter.mpr ⟨hrow, hpass⟩),
      p.get?_project_relatedPivotKey row⟩

end Pivot

end EntityMapper
