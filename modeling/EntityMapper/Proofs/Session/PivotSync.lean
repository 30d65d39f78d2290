import EntityMapper.Proofs.Session.PivotChanges

/-!
# Which requested keys a synchronisation keeps

A synchronisation attaches the requested keys that are not attached and then
deletes the attached keys that were not requested. Which keys were not requested
is found in the session, by equality of values. Which rows are deleted is found
in the store, by the equality of filters, and that also holds between numbers of
different types. So a key is kept exactly if no attached key that was not
requested is equal to it in a filter.

The keys are followed as the session sees them: `hasId` says of some rows that
the session finds a key in the shown ones. It depends on the key only up to
equality of values.
-/

namespace EntityMapper

theorem Value.contains_congr {a b : Value} (h : (a == b) = true)
    (values : List Value) : values.contains a = values.contains b := by
  rw [List.contains_eq_any_beq, List.contains_eq_any_beq]
  exact any_congr_mem fun value _ => BEq.congr_left h

namespace Pivot

open Session Store

variable {g : Grammar} {p : Pivot} {key id other : Value}
  {rows : List Row} {row : Row}

/-- A relation without equalities whose names are read back, with two different
key columns, on a parent whose key is equal to itself. -/
structure Unfiltered (g : Grammar) (p : Pivot) (key : Value) : Prop where
  readable : p.Readable g
  distinct : p.table.foreignPivotKey ≠ p.table.relatedPivotKey
  parentKey : p.parentKey? = some key
  self : (key == key) = true
  wheres : p.table.pivotWheres = []

theorem isNull_of_bound? {value : Option Value}
    (h : Value.bound? value = some key) : key.isNull = false := by
  cases value with
  | none => cases h
  | some other =>
    rw [Value.bound?_some, Option.ite_none_left_eq_some] at h
    exact Option.some.inj h.2 ▸ Bool.eq_false_iff.mpr h.1

theorem Unfiltered.isNull (h : p.Unfiltered g key) : key.isNull = false :=
  isNull_of_bound? h.parentKey

/-- Whether some shown row holds a related key that is equal to the given one. -/
def hasId (p : Pivot) (key : Value) (rows : List Row) (id : Value) : Bool :=
  rows.any fun row => p.shows key row && id == cell row p.table.relatedPivotKey

/-- The session finds a key among those it reads iff some shown row holds it. -/
theorem contains_relatedIds (hid : id.isNull = false) (rows : List Row) :
    (p.relatedIds (p.shownRows key rows)).contains id = p.hasId key rows id := by
  have hheld (row : Row) :
      (Value.bound? (some (cell row p.table.relatedPivotKey))).any (id == ·) =
        (id == cell row p.table.relatedPivotKey) := by
    rw [Value.bound?_some]
    cases hnull : (cell row p.table.relatedPivotKey).isNull with
    | false => rfl
    | true =>
      refine (Bool.eq_false_iff.mpr fun hequal => ?_).symm
      rw [← Value.isNull_eq_of_beq hequal, hid] at hnull
      cases hnull
  calc
    (p.relatedIds (p.shownRows key rows)).contains id =
        ((rows.filter (p.shows key)).filterMap fun row =>
          Value.bound? (some (cell row p.table.relatedPivotKey))).any
            (id == ·) := by
      rw [relatedIds_shownRows, List.contains_eq_any_beq, any_eachOnce]
    _ = rows.any fun row => p.shows key row &&
        (Value.bound? (some (cell row p.table.relatedPivotKey))).any (id == ·) := by
      rw [List.any_filterMap, List.any_filter]
      refine any_congr_mem fun row _ => ?_
      cases Value.bound? (some (cell row p.table.relatedPivotKey)) <;> rfl
    _ = p.hasId key rows id := by simp only [hheld, hasId]

/-! ## Inserted keys -/

/-- The row of a related key. -/
def idRow (p : Pivot) (key id : Value) : Row :=
  .ofList [(p.table.foreignPivotKey, key), (p.table.relatedPivotKey, id)]

theorem Unfiltered.pivotValues (h : p.Unfiltered g key) (id : Value) :
    pivotValues p key id [] =
      [(p.table.foreignPivotKey, key), (p.table.relatedPivotKey, id)] := by
  rw [Session.pivotValues, h.wheres]
  rfl

theorem Unfiltered.links (h : p.Unfiltered g key) (id : Value) :
    p.Links key id (p.idRow key id) := by
  have hnodup : (([(p.table.foreignPivotKey, key), (p.table.relatedPivotKey, id)] :
          Pairs).map Prod.fst).Nodup := by simpa using h.distinct
  constructor
  · rw [idRow, NameMap.get?_ofList hnodup, NameMap.lookup, if_pos rfl]
  · rw [idRow, NameMap.get?_ofList hnodup, NameMap.lookup, if_neg h.distinct,
      NameMap.lookup, if_pos rfl]
  · rw [h.wheres]
    exact List.forall_mem_nil _

theorem Unfiltered.shows_of_get (h : p.Unfiltered g key) {owner : Value}
    (hget : row.get? p.table.foreignPivotKey = some owner)
    (hequal : (owner == key) = true) : p.shows key row = true := by
  have hnull : owner.isNull = false :=
    (Value.isNull_eq_of_beq hequal).trans h.isNull
  calc
    p.shows key row = holdsKey p.table.foreignPivotKey key row := by
      rw [shows, h.wheres, List.all_nil, Bool.and_true]
    _ = valuesEqual owner key := by rw [holdsKey, cell, hget]; rfl
    _ = true := valuesEqual_of_beq hequal hnull

/-- Insertion of the row of a key adds that key. -/
theorem hasId_upsertRows (h : p.Unfiltered g key) (rows : List Row)
    (id other : Value) :
    p.hasId key (Table.upsertRows p.keyColumns [key, id] (p.idRow key id) rows)
        other = (p.hasId key rows other || other == id) := by
  have hlinked {row : Row} (hlinks : p.Links key id row) :
      (p.shows key row && other == cell row p.table.relatedPivotKey) =
        (other == id) := by
    rw [h.shows_of_get hlinks.owner h.self, hlinks.cell, Bool.true_and]
  have hcons (first : Row) (rest : List Row) : p.hasId key (first :: rest) other =
      (p.shows key first && other == cell first p.table.relatedPivotKey ||
        p.hasId key rest other) := List.any_cons
  induction rows with
  | nil =>
    rw [Table.upsertRows, hcons, hlinked (h.links id)]
    exact Bool.or_comm ..
  | cons old rest ih =>
    rw [Table.upsertRows]
    cases hkey : Table.hasKey old p.keyColumns [key, id] with
    | true =>
      -- The row that is written over was shown before, with a key that is equal
      -- to the new one.
      obtain ⟨owner, howner, hequal, hrest⟩ := hasKey_cons.mp hkey
      obtain ⟨stored, hstored, hsame, -⟩ := hasKey_cons.mp hrest
      have hold : (p.shows key old && other == cell old p.table.relatedPivotKey) =
          (other == id) := by
        rw [h.shows_of_get howner hequal, cell, hstored, Bool.true_and,
          Option.getD_some, BEq.congr_right hsame]
      have hnew : p.Links key id (old.extend (p.idRow key id)) :=
        (h.links id).extend (NameMap.wellFormed_ofList _) old
      rw [if_pos rfl]
      calc
        p.hasId key (old.extend (p.idRow key id) :: rest) other =
            (other == id || p.hasId key rest other) := by rw [hcons, hlinked hnew]
        _ = ((other == id || p.hasId key rest other) || other == id) := by
          cases other == id <;> simp
        _ = (p.hasId key (old :: rest) other || other == id) := by rw [hcons, hold]
    | false =>
      rw [if_neg Bool.false_ne_true]
      calc
        p.hasId key (old :: Table.upsertRows p.keyColumns [key, id]
              (p.idRow key id) rest) other =
            (p.shows key old && other == cell old p.table.relatedPivotKey ||
              (p.hasId key rest other || other == id)) := by rw [hcons, ih]
        _ = (p.hasId key (old :: rest) other || other == id) := by
          rw [hcons, Bool.or_assoc]

/-! ## Deleted keys -/

/-- After a deletion of some keys the session finds a key iff it did before and
a filter finds it equal to none of them. -/
theorem hasId_delete (rows : List Row) {ids : List Value}
    (hid : id.isNull = false) :
    p.hasId key (rows.filter fun row => !(p.shows key row && p.namesOne ids row))
        id = (p.hasId key rows id && !ids.any fun old => valuesEqual id old) := by
  rw [hasId, List.any_filter, hasId, ← Bool.and_comm, List.and_any_distrib_left]
  refine any_congr_mem fun row _ => ?_
  cases hshown : p.shows key row with
  | false => simp
  | true =>
    cases hequal : id == cell row p.table.relatedPivotKey with
    | false => simp
    | true =>
      have hnull := Value.isNull_eq_of_beq hequal
      have hsame :
          (ids.any fun old => valuesEqual (cell row p.table.relatedPivotKey) old) =
            ids.any fun old => valuesEqual id old :=
        any_congr_mem fun old _ => (valuesEqual_congr_left hequal old).symm
      rw [namesOne, ← hnull, hid, hsame]
      simp

end Pivot

namespace Session

open Effect Pivot Store

variable {s : Session LocalStore} {p : Pivot} {key id : Value} {rows : List Row}
  {store : LocalStore} {requested current ids : List Value}

/-! ## Commands -/

theorem currentIds_rows (hlocal : s.backend = LocalStore.backend)
    (h : p.Unfiltered s.grammar key)
    (hrows : store.database.tables.get? (columnOf p.table.table) =
      some ⟨p.keyColumns, rows⟩) :
    ∃ after,
      s.currentIds p store = (.ok (p.relatedIds (p.shownRows key rows)), after) ∧
        after.database.tables = store.database.tables := by
  obtain ⟨c, hread⟩ := pivotRows_ok hlocal h.readable key hrows
  refine ⟨store.ran c store.database.tables, ?_, rfl⟩
  unfold currentIds
  rw [h.parentKey]
  exact bind_ok hread

/-- An insertion without extra columns writes the row of its key. -/
theorem insertPivot_row (hlocal : s.backend = LocalStore.backend)
    (h : p.Unfiltered s.grammar key) (hid : id.isNull = false)
    (hrows : store.database.tables.get? (columnOf p.table.table) =
      some ⟨p.keyColumns, rows⟩) :
    ∃ after, s.insertPivot p key id [] store = (.ok (), after) ∧
      after.database.tables.get? (columnOf p.table.table) = some ⟨p.keyColumns,
        Table.upsertRows p.keyColumns [key, id] (p.idRow key id) rows⟩ := by
  have hnames : ∀ pair ∈ ([(p.table.foreignPivotKey, key),
      (p.table.relatedPivotKey, id)] : Pairs), s.grammar.NamesColumn pair.1 := by
    simpa using And.intro (h.readable.names _ (mem_columns p.foreignPivotKey_mem))
      (h.readable.names _ (mem_columns p.relatedPivotKey_mem))
  rw [← h.pivotValues] at hnames
  have hupsert : Table.upsert ⟨p.keyColumns, rows⟩ (columnOf p.table.table)
        (p.idRow key id) =
      .ok ⟨p.keyColumns,
        Table.upsertRows p.keyColumns [key, id] (p.idRow key id) rows⟩ := by
    rw [Table.upsert, (h.links id).keyOf h.isNull hid]
  refine insertPivot_upsert hlocal h.readable.table
    (fun pair hpair => (hnames pair hpair).readsBack) hrows ?_
  rw [Grammar.map_columnOf hnames, h.pivotValues, ← idRow]
  exact hupsert

/-! ## Attaching what is missing -/

/-- How far a synchronisation to some keys has come: the keys that the session
finds attached are the ones of before and those that were requested so far. -/
def Caught (p : Pivot) (key : Value) (current requested : List Value)
    (store : LocalStore) : Prop :=
  ∃ rows, store.database.tables.get? (columnOf p.table.table) =
      some ⟨p.keyColumns, rows⟩ ∧
    ∀ other : Value, other.isNull = false →
      p.hasId key rows other = (current.contains other || requested.contains other)

theorem contains_concat (values : List Value) (id other : Value) :
    (values ++ [id]).contains other = (values.contains other || other == id) := by
  simp [List.contains_eq_any_beq]

/-- A key that the session finds attached needs no command. -/
theorem Caught.skip (h : Caught p key current requested store)
    (hid : current.contains id = true) :
    Caught p key current (requested ++ [id]) store := by
  obtain ⟨rows, hrows, hfound⟩ := h
  refine ⟨rows, hrows, fun other hother => ?_⟩
  rw [hfound other hother, contains_concat]
  cases hequal : other == id with
  | false => rw [Bool.or_false]
  | true => rw [Value.contains_congr hequal, hid, Bool.true_or, Bool.true_or]

theorem Caught.insert (hlocal : s.backend = LocalStore.backend)
    (h : p.Unfiltered s.grammar key) (hid : id.isNull = false)
    (hcaught : Caught p key current requested store) :
    ∃ after, s.insertPivot p key id [] store = (.ok (), after) ∧
      Caught p key current (requested ++ [id]) after := by
  obtain ⟨rows, hrows, hfound⟩ := hcaught
  obtain ⟨after, hinsert, hafter⟩ := insertPivot_row hlocal h hid hrows
  refine ⟨after, hinsert, _, hafter, fun other hother => ?_⟩
  calc
    p.hasId key (Table.upsertRows p.keyColumns [key, id] (p.idRow key id) rows)
        other = (p.hasId key rows other || other == id) :=
      hasId_upsertRows h rows id other
    _ = (current.contains other || requested.contains other || other == id) := by
      rw [hfound other hother]
    _ = (current.contains other || (requested ++ [id]).contains other) := by
      rw [contains_concat, Bool.or_assoc]

/-- The first part of a synchronisation requests each key of its list, up to
equality, and reports only keys of the list as attached. -/
theorem syncEntries_plain (hlocal : s.backend = LocalStore.backend)
    (h : p.Unfiltered s.grammar key) (hids : ∀ id ∈ ids, id.isNull = false)
    (hcaught : Caught p key current requested store) (changes : SyncChanges) :
    ∃ all noted after,
      s.syncEntries p key current requested changes (plainEntries ids) store =
          (.ok (all, noted), after) ∧ Caught p key current all after ∧
        (∀ other, all.contains other =
          (requested.contains other || ids.contains other)) ∧
        ∀ id ∈ noted.attached, id ∈ changes.attached ∨ id ∈ ids := by
  induction ids generalizing requested changes store with
  | nil =>
    exact ⟨requested, changes, store, rfl, hcaught, by simp, fun _ hid => .inl hid⟩
  | cons id rest ih =>
    obtain ⟨hid, hrest⟩ := List.forall_mem_cons.mp hids
    have hcons (other : Value) : (id :: rest).contains other =
        (other == id || rest.contains other) := List.contains_cons
    have hentries : plainEntries (id :: rest) = (id, []) :: plainEntries rest := rfl
    rw [hentries, syncEntries]
    by_cases hagain : requested.contains id = true
    · rw [if_pos hagain]
      obtain ⟨all, noted, after, hsync, hafter, hall, hnoted⟩ :=
        ih hrest hcaught changes
      refine ⟨all, noted, after, hsync, hafter, fun other => ?_, fun other hother =>
        (hnoted other hother).imp_right (List.mem_cons_of_mem id)⟩
      rw [hall, hcons, ← Bool.or_assoc]
      cases hequal : other == id with
      | false => rw [Bool.or_false]
      | true =>
        rw [Value.contains_congr hequal, hagain]
        rfl
    · rw [if_neg hagain]
      have hgrown (all : List Value)
          (hall : ∀ other, all.contains other =
            ((requested ++ [id]).contains other || rest.contains other))
          (other : Value) : all.contains other =
            (requested.contains other || (id :: rest).contains other) := by
        rw [hall, contains_concat, hcons, Bool.or_assoc]
      by_cases hknown : current.contains id = true
      · rw [hknown]
        obtain ⟨all, noted, after, hsync, hafter, hall, hnoted⟩ :=
          ih hrest (hcaught.skip hknown) changes
        exact ⟨all, noted, after, hsync, hafter, hgrown all hall,
            fun other hother =>
          (hnoted other hother).imp_right (List.mem_cons_of_mem id)⟩
      · rw [Bool.not_eq_true] at hknown
        obtain ⟨next, hinsert, hnext⟩ := hcaught.insert hlocal h hid
        obtain ⟨all, noted, after, hsync, hafter, hall, hnoted⟩ := ih hrest hnext _
        refine ⟨all, noted, after, ?_, hafter, hgrown all hall,
          fun other hother => ?_⟩
        · rw [hknown]
          exact (bind_ok hinsert).trans hsync
        · rcases hnoted other hother with hold | hmem
          · rcases List.mem_append.mp hold with hold | hnew
            · exact .inl hold
            · exact .inr (List.mem_singleton.mp hnew ▸ List.mem_cons_self ..)
          · exact .inr (List.mem_cons_of_mem id hmem)

/-! ## Synchronisation -/

/-- A synchronisation leaves the rows of the keys that it brought in line, but
for those of the attached keys that were not requested. -/
theorem sync_rows (hlocal : s.backend = LocalStore.backend)
    (h : p.Unfiltered s.grammar key) (hids : ∀ id ∈ ids, id.isNull = false)
    (hrows : store.database.tables.get? (columnOf p.table.table) =
      some ⟨p.keyColumns, rows⟩)
    (hcurrent : current = p.relatedIds (p.shownRows key rows)) :
    ∃ rows' changes after, s.sync p (plainEntries ids) true store =
        (.ok changes, after) ∧ (∀ id ∈ changes.attached, id ∈ ids) ∧
      (∀ other : Value, other.isNull = false →
        p.hasId key rows' other = (current.contains other || ids.contains other)) ∧
      after.database.tables.get? (columnOf p.table.table) =
        some ⟨p.keyColumns, rows'.filter fun row => !(p.shows key row &&
          p.namesOne (current.filter fun old => !ids.contains old) row)⟩ := by
  obtain ⟨read, hread, htables⟩ := currentIds_rows hlocal h hrows
  rw [← hcurrent] at hread
  have hstart : Caught p key current [] read := by
    refine ⟨rows, htables ▸ hrows, fun other hother => ?_⟩
    rw [hcurrent, contains_relatedIds hother]
    exact (Bool.or_false _).symm
  obtain ⟨all, noted, next, hsync, ⟨rows', hnext, hfound⟩, hall, hnoted⟩ :=
    syncEntries_plain hlocal h hids hstart {}
  have hrequested (other : Value) : all.contains other = ids.contains other :=
    hall other
  have hattached : ∀ id ∈ noted.attached, id ∈ ids := fun id hid =>
    (hnoted id hid).resolve_left List.not_mem_nil
  have hfinds (other : Value) (hother : other.isNull = false) :
      p.hasId key rows' other = (current.contains other || ids.contains other) := by
    rw [hfound other hother, hrequested]
  obtain ⟨count, after, hdelete, hafter⟩ := deletePivot_rows hlocal h.readable key
    (current.filter fun old => !ids.contains old) hnext
  have hrun : s.sync p (plainEntries ids) true store =
      (if (current.filter fun old => !ids.contains old).isEmpty then
        pure noted else do
        discard (s.deletePivot p key (current.filter fun old => !ids.contains old))
        return { noted with
          detached := current.filter fun old => !ids.contains old } :
          Effect LocalStore SyncChanges) next := by
    unfold sync
    rw [bind_requireKey h.parentKey, bind_ok hread, bind_ok hsync]
    simp only [Bool.not_true, Bool.false_eq_true, if_false, hrequested]
  cases hempty : (current.filter fun old => !ids.contains old).isEmpty with
  | true =>
    rw [hempty, if_pos rfl] at hrun
    rw [List.isEmpty_iff.mp hempty] at hdelete hafter
    obtain rfl : next = after := (pure_eq_ok.mp hdelete).2
    exact ⟨rows', noted, next, hrun, hattached, hfinds,
      List.isEmpty_iff.mp hempty ▸ hafter⟩
  | false =>
    rw [hempty, if_neg Bool.false_ne_true, bind_ok (discard_ok hdelete)] at hrun
    exact ⟨rows', _, after, hrun, hattached, hfinds, hafter⟩

/-- A synchronisation succeeds and reports only requested keys as attached.
Afterwards a requested key is attached iff no attached key that was not
requested was equal to it in a filter. -/
theorem sync_keeps_iff (s : Session LocalStore)
    (hlocal : s.backend = LocalStore.backend) (p : Pivot) (key : Value)
    (h : p.Unfiltered s.grammar key) (store : LocalStore) (rows : List Row)
    (hrows : store.database.tables.get? (columnOf p.table.table) =
      some ⟨p.keyColumns, rows⟩)
    (ids : List Value) (hids : ∀ id ∈ ids, id.isNull = false ∧ (id == id) = true) :
    ∃ current read changes after kept last, s.currentIds p store =
        (.ok current, read) ∧
      s.sync p (plainEntries ids) true store = (.ok changes, after) ∧
      s.currentIds p after = (.ok kept, last) ∧
      (∀ id ∈ changes.attached, id ∈ ids) ∧ ∀ id ∈ ids, kept.contains id = true ↔
        ∀ old ∈ current, ids.contains old = false → valuesEqual id old = false := by
  obtain ⟨read, hread, -⟩ := currentIds_rows hlocal h hrows
  obtain ⟨rows', changes, after, hsync, hattached, hfound, hafter⟩ :=
    sync_rows hlocal h (fun id hid => (hids id hid).1) hrows rfl
  obtain ⟨last, hkept, -⟩ := currentIds_rows hlocal h hafter
  refine ⟨_, read, changes, after, _, last, hread, hsync, hkept, hattached,
    fun id hid => ?_⟩
  obtain ⟨hnull, hself⟩ := hids id hid
  have hrequested : ids.contains id = true :=
    List.contains_eq_any_beq.trans (List.any_eq_true.mpr ⟨id, hid, hself⟩)
  rw [contains_relatedIds hnull]
  calc
    p.hasId key (rows'.filter fun row => !(p.shows key row && p.namesOne
        ((p.relatedIds (p.shownRows key rows)).filter fun old =>
          !ids.contains old) row)) id = true ↔
        ((p.relatedIds (p.shownRows key rows)).filter fun old =>
          !ids.contains old).any (fun old => valuesEqual id old) = false := by
      rw [hasId_delete rows' hnull, hfound id hnull, hrequested, Bool.or_true,
        Bool.true_and, Bool.not_eq_true']
    _ ↔ ∀ old ∈ p.relatedIds (p.shownRows key rows),
        ids.contains old = false → valuesEqual id old = false := by
      simp only [List.any_eq_false, List.mem_filter, Bool.not_eq_true',
        Bool.not_eq_true, and_imp]

/-! ### A role under two numbers -/

/-- All roles of the first user. -/
def allRoles : Pivot :=
  { userRoles with
    table := { userRoles.table with pivotColumns := [], pivotWheres := [] } }

/-- The first user has a role whose number is a floating point one. -/
def floatRows : List Row :=
  [.ofList [("user_id", .int 1), ("role_id", .float (.ofInt 1))]]

def floatStore : LocalStore where
  database :=
    { tables := (∅ : Tables).insert "role_user"
        ⟨["user_id", "role_id"], floatRows⟩ }

theorem unfiltered_allRoles :
    allRoles.Unfiltered rolesSession.grammar (.int 1) := by
  have hcolumns : allRoles.columns = ["user_id", "role_id"] := by decide
  have hreadable : ∀ name ∈ allRoles.columns,
      rolesSession.grammar.ReadablePath name := by
    rw [hcolumns]
    decide
  have hsingle : ∀ name ∈ allRoles.columns, columnOf name = name := by
    rw [hcolumns]
    decide
  have hread : allRoles.Readable rolesSession.grammar :=
    ⟨Grammar.ReadableTable.readsBack (by decide),
      fun name hname => ⟨(hreadable name hname).readsBack, hsingle name hname⟩,
      by rw [hcolumns]; decide, List.forall_mem_nil _⟩
  exact ⟨hread, by decide, rfl, by decide, rfl⟩

theorem sync_keeps_iff_allRoles :
    ∃ current read changes after kept last,
      rolesSession.currentIds allRoles floatStore = (.ok current, read) ∧
      rolesSession.sync allRoles (plainEntries [.int 1, .int 2]) true floatStore =
        (.ok changes, after) ∧
      rolesSession.currentIds allRoles after = (.ok kept, last) ∧
      (∀ id ∈ changes.attached, id ∈ [.int 1, .int 2]) ∧
      ∀ id ∈ ([.int 1, .int 2] : List Value), kept.contains id = true ↔
        ∀ old ∈ current, ([.int 1, .int 2] : List Value).contains old = false →
          valuesEqual id old = false :=
  sync_keeps_iff rolesSession rfl allRoles (.int 1) unfiltered_allRoles
    floatStore floatRows rfl [.int 1, .int 2] (by decide)

/-- A synchronisation to the role `1` of a user who has the role `1.0` attaches
the role and deletes its row with the other one: the user is left without roles.
-/
theorem sync_loses_role : ∃ changes after last,
    rolesSession.sync allRoles (plainEntries [.int 1]) true floatStore =
        (.ok changes, after) ∧ changes.attached = [.int 1] ∧
      rolesSession.currentIds allRoles after = (.ok [], last) := by
  have h := unfiltered_allRoles
  have hlocal : rolesSession.backend = LocalStore.backend := rfl
  have hstored : floatStore.database.tables.get? (columnOf allRoles.table.table) =
      some ⟨allRoles.keyColumns, floatRows⟩ := rfl
  have hid : (Value.int 1).isNull = false := rfl
  obtain ⟨read, hread, htables⟩ := currentIds_rows hlocal h hstored
  rw [← htables] at hstored
  obtain ⟨next, hinsert, hnext⟩ := insertPivot_row hlocal h hid hstored
  obtain ⟨count, after, hdelete, hafter⟩ :=
    deletePivot_rows hlocal h.readable (.int 1) [.float (.ofInt 1)] hnext
  obtain ⟨last, hkept, -⟩ := currentIds_rows hlocal h hafter
  have hcurrent : allRoles.relatedIds (allRoles.shownRows (.int 1) floatRows) =
      [.float (.ofInt 1)] := by rfl
  rw [hcurrent] at hread
  refine ⟨⟨[.int 1], [.float (.ofInt 1)], []⟩, after, last, ?_, rfl, ?_⟩
  · have hentries : rolesSession.syncEntries allRoles
          (.int 1) [.float (.ofInt 1)] [] {} (plainEntries [.int 1]) read =
        (.ok ([.int 1], ⟨[.int 1], [], []⟩), next) :=
      bind_ok hinsert
    unfold sync
    rw [bind_requireKey h.parentKey, bind_ok hread, bind_ok hentries]
    exact bind_ok (discard_ok hdelete)
  · rw [hkept]
    rfl

end Session

end EntityMapper
