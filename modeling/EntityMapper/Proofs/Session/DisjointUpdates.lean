import EntityMapper.Proofs.Session.StoredRow
import EntityMapper.Proofs.Store.Writes

/-!
# Two writers of one row

Two records of one row are edited, each in attributes that the other leaves
alone, and are saved one after the other. Neither save undoes the other one, in
whichever order they are done: the row ends with what the first record holds
where the first was edited, with what the second holds where that was edited,
and is otherwise as it was.

Each record keeps the snapshot that it was loaded with and does not know of the
other's save. What carries the argument is that a save sends the noted changes
and nothing else, that only edited attributes are ever noted, and that values
written under different names can be written in either order. An attribute that
is given back its old value drops out of the changes, and the row keeps the
value that it had, which is the same or an equal one.
-/

namespace EntityMapper

namespace Record

variable {r : Record} {row : Row} {names : List String} {writes : Pairs}

/-- A record after attempts to write attributes. One that fails leaves the
record as it is. -/
def edited (r : Record) (writes : Pairs) : Record :=
  writes.foldl (fun r pair => (r.apply (.set pair.1 pair.2)).2) r

/-- A record of a stored row that has been edited in no other attributes than
the given ones. -/
structure EditOf (e : EntityType) (row : Row) (names : List String)
    (r : Record) : Prop where
  entity : r.entity = e
  stored : r.stored = true
  tracks : r.Tracks
  snapshot : r.snapshot = row
  clean : ∀ name, name ∉ names → r.isAttributeDirty name = false

variable {e : EntityType}

theorem editOf_hydrate (e : EntityType) (row : Row) (names : List String) :
    EditOf e row names (hydrate e row) :=
  ⟨rfl, rfl, tracks_hydrate e row, rfl, fun _ _ => rfl⟩

theorem EditOf.set (h : EditOf e row names r) {name : String} (hname : name ∈ names)
    (value : Value) : EditOf e row names (r.apply (.set name value)).2 := by
  rw [Record.apply]
  cases hset : r.set name value with
  | error fault => exact h
  | ok written =>
    obtain ⟨stored, rfl⟩ := set_eq_ok hset
    refine ⟨h.entity, h.stored, h.tracks.put name stored, h.snapshot,
      fun other hother => ?_⟩
    have hne : name ≠ other := fun heq => hother (heq ▸ hname)
    calc
      (r.put name stored).isAttributeDirty other = r.isAttributeDirty other :=
        isAttributeDirty_put_of_ne hne r stored
      _ = false := h.clean other hother

theorem EditOf.edited (h : EditOf e row names r)
    (hwrites : ∀ pair ∈ writes, pair.1 ∈ names) :
    EditOf e row names (r.edited writes) := by
  induction writes generalizing r with
  | nil => exact h
  | cons pair rest ih =>
    obtain ⟨hpair, hrest⟩ := List.forall_mem_cons.mp hwrites
    exact ih (h.set hpair pair.2) hrest

theorem EditOf.ordered (h : EditOf e row names r) :
    NameMap.WellFormed (⟨r.changes⟩ : Row) :=
  List.pairwise_map.mp h.tracks.changes_ordered

theorem EditOf.mem_names (h : EditOf e row names r) :
    ∀ pair ∈ r.changes, pair.1 ∈ names := by
  intro pair hpair
  by_contra hname
  have hdirty := (h.tracks.mem_changes_iff.mp hpair).1
  rw [h.clean pair.1 hname] at hdirty
  cases hdirty

/-- No change is noted of an attribute that was not edited. -/
theorem EditOf.get?_changes_other (h : EditOf e row names r) {name : String}
    (hname : name ∉ names) : (⟨r.changes⟩ : Row).get? name = none := by
  rw [h.tracks.get?_changes, h.clean name hname]
  rfl

/-- A row holds what a record does under a name: the same value, or an equal one
if no change is noted. -/
def Reflects (row : Row) (r : Record) (name : String) : Prop :=
  row.get? name = r.raw? name ∨
    r.isAttributeDirty name = false ∧ (row.get? name == r.raw? name) = true

/-- The changes over the row give what the record holds. -/
theorem EditOf.reflects (h : EditOf e row names r) {written : Row} {name : String}
    (hwritten : written.get? name =
      ((⟨r.changes⟩ : Row).get? name).or (row.get? name)) :
    Reflects written r name := by
  unfold Reflects
  rw [hwritten, h.tracks.get?_changes]
  cases hdirty : r.isAttributeDirty name with
  | true =>
    obtain ⟨value, hraw, -⟩ := h.tracks.changed name hdirty
    rw [if_pos rfl, hraw, Option.some_or]
    exact .inl rfl
  | false =>
    have hbaseline : r.baseline? name = row.get? name := by
      rw [baseline?, h.snapshot]
    rw [if_neg Bool.false_ne_true, Option.none_or, ← hbaseline]
    exact (h.tracks.alike_of_clean hdirty).imp id fun hequal => ⟨rfl, hequal⟩

end Record

namespace Session

variable {s : Session LocalStore} {e : EntityType} {key : Value} {r : Record}
  {row now : Row} {names : List String} {store : LocalStore}
  {before behind : List Row}

open Effect

/-! ## One save -/

/-- Save records one after another, until one fails. -/
def saveEach {σ : Type} (s : Session σ) : List Record → Effect σ Unit
  | [] => pure ()
  | record :: rest => do
    let (outcome, _) ← holding record s.save
    orThrow outcome
    s.saveEach rest

/-- An entity type without times whose table and key are read back, on a local
store. -/
structure Timeless (s : Session LocalStore) (e : EntityType) : Prop where
  backend : s.backend = LocalStore.backend
  table : s.grammar.ReadsBackTable e.table
  key : s.grammar.NamesColumn e.primaryKey
  timestamps : e.timestamps = false

/-- A key that a filter finds in one row of some rows: not in those before it
and behind it. -/
structure Singles (column : String) (key : Value) (row : Row)
    (before behind : List Row) : Prop where
  row : row.get? column = some key
  self : Store.valuesEqual key key = true
  before : ∀ other ∈ before, Store.holdsKey column key other = false
  behind : ∀ other ∈ behind, Store.holdsKey column key other = false

/-- A table in a store has the given rows. -/
def HasRows (store : LocalStore) (e : EntityType) (rows : List Row) : Prop :=
  store.database.tables.get? (columnOf e.table) = some ⟨[e.primaryKey], rows⟩

theorem Singles.isNull {column : String}
    (h : Singles column key row before behind) : key.isNull = false := by
  have hself := h.self
  cases key <;> first | rfl | cases hself

/-- A change of the rows with the key is one of the row. -/
theorem Singles.map {column : String} (h : Singles column key row before behind)
    (change : Row → Row) :
    ((before ++ row :: behind).map fun row =>
      if Store.holdsKey column key row then change row else row) =
        before ++ change row :: behind := by
  have hrow : Store.holdsKey column key row = true := by
    rw [Store.holdsKey, Store.cell, h.row]
    exact h.self
  exact Store.map_if_of_one hrow h.before h.behind

/-- A record whose edits spare the key is saved by its key. -/
theorem persistedKey_edit (h : r.EditOf e row names)
    (hsingle : Singles e.primaryKey key row before behind) :
    persistedKey r = .ok key := by
  rw [persistedKey, Record.baseline?, h.snapshot, h.entity, hsingle.row,
    Value.bound?_of_not_null hsingle.isNull]

/-- A save takes the changes of a record to its row, whatever that holds by now,
and leaves the other rows and the other tables. -/
theorem save_edit (hs : Timeless s e) (h : Record.EditOf e row names r)
    (hnames : ∀ name ∈ names, s.grammar.NamesColumn name)
    (hkey : persistedKey r = .ok key)
    (hsingle : Singles e.primaryKey key now before behind)
    (hrows : HasRows store e (before ++ now :: behind)) :
    ∃ left after, s.save (r, store) = (.ok (), left, after) ∧
      HasRows after e (before ++ now.extend ⟨r.changes⟩ :: behind) ∧
      ∀ name, name ≠ columnOf e.table →
        after.database.tables.get? name = store.database.tables.get? name := by
  have hcolumns : ∀ pair ∈ r.changes, s.grammar.NamesColumn pair.1 :=
    fun pair hpair => hnames pair.1 (h.mem_names pair hpair)
  cases hdirty : r.isDirty with
  | false =>
    have hnone : r.changes = [] := by
      have hempty : r.dirty.entries.isEmpty = true := by
        simpa [Record.isDirty, NameMap.isEmpty] using hdirty
      simp [Record.changes, NameMap.keys, List.isEmpty_iff.mp hempty]
    rw [hnone]
    exact ⟨r, store, save_clean hdirty h.stored, hrows, fun _ _ => rfl⟩
  | true =>
    have hsome : r.changes ≠ [] := by
      simpa [Record.changes, NameMap.keys, Record.isDirty, NameMap.isEmpty]
        using hdirty
    obtain ⟨c, result, hc, hevaluate⟩ :=
      evaluate_rowWrite hs.table hs.key key (.update r.changes) ⟨hsome, rfl⟩
        (fun pair hpair => (hcolumns pair hpair).readsBack) hrows
    have hcommand : s.modification r = .ok c := by
      rw [modification, hkey, h.entity]
      exact congrArg compiled hc
    have hwritten : written ((Request.update r.changes).bindings (rowIntent e key))
        ⟨[e.primaryKey], before ++ now :: behind⟩ (.update r.changes)
          (Store.holdsKey e.primaryKey key) =
        before ++ now.extend ⟨r.changes⟩ :: behind := by
      simp only [written, Request.bindings, List.append_assoc, Store.assign_params,
        Store.overwritten, Grammar.map_columnOf hcolumns]
      exact hsingle.map _
    rw [hwritten] at hevaluate
    exact ⟨_, _, (save_dirty hdirty h.stored).trans
        ((bind_ok (stamp_off (h.entity ▸ hs.timestamps))).trans
          (send_ok hs.backend hcommand hevaluate)),
      NameMap.get?_insert_self ..,
      fun name hname => NameMap.get?_insert_of_ne hname.symm ..⟩

/-! ## Two saves -/

/-- Changes under other names leave the key of a row. -/
theorem Singles.extend {column : String} (h : Singles column key row before behind)
    (hedit : r.EditOf e row names) (hcolumn : column ∉ names) :
    Singles column key (row.extend ⟨r.changes⟩) before behind where
  row := by
    rw [NameMap.get?_extend row hedit.ordered, hedit.get?_changes_other hcolumn,
      h.row]
    rfl
  self := h.self
  before := h.before
  behind := h.behind

/-- Two saves write the changes of the second record over those of the first. -/
theorem saveEach_edits (hs : Timeless s e) {first second : Record}
    {others : List String} (hfirst : first.EditOf e row names)
    (hsecond : second.EditOf e row others)
    (hnames : ∀ name ∈ names, s.grammar.NamesColumn name)
    (hothers : ∀ name ∈ others, s.grammar.NamesColumn name)
    (hkey : e.primaryKey ∉ names)
    (hsingle : Singles e.primaryKey key row before behind)
    (hrows : HasRows store e (before ++ row :: behind)) :
    ∃ after, s.saveEach [first, second] store = (.ok (), after) ∧ HasRows after e
        (before ++ (row.extend ⟨first.changes⟩).extend ⟨second.changes⟩ :: behind) ∧
      ∀ name, name ≠ columnOf e.table →
        after.database.tables.get? name = store.database.tables.get? name := by
  obtain ⟨left, next, hsave, hnext, hkept⟩ :=
    save_edit hs hfirst hnames (persistedKey_edit hfirst hsingle) hsingle hrows
  obtain ⟨last, after, hagain, hafter, hkept'⟩ :=
    save_edit hs hsecond hothers (persistedKey_edit hsecond hsingle)
      (hsingle.extend hfirst hkey) hnext
  refine ⟨after, ?_, hafter,
    fun name hname => (hkept' name hname).trans (hkept name hname)⟩
  have hrest : s.saveEach [second] next = (.ok (), after) := by
    rw [saveEach, bind_ok (holding_apply second s.save next), hagain]
    rfl
  rw [saveEach, bind_ok (holding_apply first s.save store), hsave]
  exact hrest

/-- Two records of one row are edited under disjoint sets of names, neither of
them in the key, and are saved. Both saves succeed in either order and leave the
same tables, in which the row holds what the first record does where that was
edited, what the second does where that was edited, and what it held before
elsewhere. The other rows and the other tables are as they were. -/
theorem disjoint_saves (s : Session LocalStore) (e : EntityType) (hs : Timeless s e)
    (store : LocalStore) (key : Value) (before behind : List Row) (row : Row)
    (hsingle : Singles e.primaryKey key row before behind)
    (hrows : HasRows store e (before ++ row :: behind))
    (firstWrites secondWrites : Pairs)
    (hcolumns : ∀ name ∈ (firstWrites ++ secondWrites).map Prod.fst,
      s.grammar.NamesColumn name ∧ name ≠ e.primaryKey)
    (hdisjoint : ∀ name ∈ firstWrites.map Prod.fst,
      name ∉ secondWrites.map Prod.fst) (first second : Record)
    (hfirst : first = (Record.hydrate e row).edited firstWrites)
    (hsecond : second = (Record.hydrate e row).edited secondWrites) :
    ∃ after other written, s.saveEach [first, second] store = (.ok (), after) ∧
      s.saveEach [second, first] store = (.ok (), other) ∧
      (∀ name, after.database.tables.get? name = other.database.tables.get? name) ∧
      HasRows after e (before ++ written :: behind) ∧
      (∀ name ∈ firstWrites.map Prod.fst, Record.Reflects written first name) ∧
      (∀ name ∈ secondWrites.map Prod.fst, Record.Reflects written second name) ∧
      (∀ name, name ∉ firstWrites.map Prod.fst →
        name ∉ secondWrites.map Prod.fst → written.get? name = row.get? name) ∧
      ∀ name, name ≠ columnOf e.table →
        after.database.tables.get? name = store.database.tables.get? name := by
  rw [List.map_append] at hcolumns
  have hcolumns₁ := fun name hname => hcolumns name (List.mem_append_left _ hname)
  have hcolumns₂ := fun name hname => hcolumns name (List.mem_append_right _ hname)
  have hedit₁ : first.EditOf e row (firstWrites.map Prod.fst) := by
    rw [hfirst]
    exact (Record.editOf_hydrate e row _).edited
      fun _ hpair => List.mem_map_of_mem hpair
  have hedit₂ : second.EditOf e row (secondWrites.map Prod.fst) := by
    rw [hsecond]
    exact (Record.editOf_hydrate e row _).edited
      fun _ hpair => List.mem_map_of_mem hpair
  obtain ⟨after, hsaves, hafter, hkept⟩ :=
    saveEach_edits hs hedit₁ hedit₂ (fun name hname => (hcolumns₁ name hname).1)
      (fun name hname => (hcolumns₂ name hname).1)
      (fun hmem => (hcolumns₁ _ hmem).2 rfl) hsingle hrows
  obtain ⟨other, hsaves', hother, hkept'⟩ :=
    saveEach_edits hs hedit₂ hedit₁ (fun name hname => (hcolumns₂ name hname).1)
      (fun name hname => (hcolumns₁ name hname).1)
      (fun hmem => (hcolumns₂ _ hmem).2 rfl) hsingle hrows
  -- No name is in both lists of changes, so these can be written in either order.
  have hcomm : (row.extend ⟨second.changes⟩).extend ⟨first.changes⟩ =
      (row.extend ⟨first.changes⟩).extend ⟨second.changes⟩ := by
    refine NameMap.extend_comm (fun name hname hname' => ?_) row
    obtain ⟨pair, hpair, rfl⟩ := List.mem_map.mp hname
    obtain ⟨pair', hpair', heq⟩ := List.mem_map.mp hname'
    exact hdisjoint pair.1 (heq ▸ hedit₁.mem_names pair' hpair')
      (hedit₂.mem_names pair hpair)
  have hget (name : String) :
      ((row.extend ⟨first.changes⟩).extend ⟨second.changes⟩).get? name =
        ((⟨second.changes⟩ : Row).get? name).or
          (((⟨first.changes⟩ : Row).get? name).or (row.get? name)) := by
    rw [NameMap.get?_extend _ hedit₂.ordered, NameMap.get?_extend _ hedit₁.ordered]
  refine ⟨after, other, _, hsaves, hsaves', fun name => ?_, hafter,
    fun name hname => ?_, fun name hname => ?_, fun name hname hname' => ?_, hkept⟩
  · by_cases htable : name = columnOf e.table
    · rw [htable, show _ = _ from hafter, show _ = _ from hother, hcomm]
    · rw [hkept name htable, hkept' name htable]
  · refine hedit₁.reflects ?_
    rw [hget, hedit₂.get?_changes_other (hdisjoint name hname), Option.none_or]
  · refine hedit₂.reflects ?_
    have hname' : name ∉ firstWrites.map Prod.fst :=
      fun hmem => hdisjoint name hmem hname
    rw [hget, hedit₁.get?_changes_other hname', Option.none_or]
  · rw [hget, hedit₂.get?_changes_other hname', hedit₁.get?_changes_other hname,
      Option.none_or, Option.none_or]

/-! ### A date and an owner -/

/-- A bill, the day of which is stored as a timestamp. -/
def bill : EntityType where
  name := "Bill"
  table := "bills"
  casts := (∅ : NameMap Cast).insert "due" .date

def billSession : Session LocalStore := .new {} LocalStore.backend

/-- The bill of two writers. -/
def billRow : Row :=
  .ofList [("id", .int 1), ("due", .timestamp 0), ("owner", .text "a"),
    ("rate", .float (.zero false))]

/-- It stands between two others. -/
def billTable : Table :=
  ⟨["id"], [.ofList [("id", .int 7)], billRow, .ofList [("id", .text "1")]]⟩

def billStore : LocalStore := ⟨⟨(∅ : Tables).insert "bills" billTable, []⟩, 0⟩

/-- One writer sets the day, at the second attempt. The other sets the owner,
and the sign of the rate, which is no change. -/
theorem disjoint_saves_bill :
    ∃ after written, billSession.saveEach [(Record.hydrate bill billRow).edited
        [("due", .text "soon"), ("due", .int 12)],
        (Record.hydrate bill billRow).edited [("owner", .text "b"),
            ("rate", .float (.zero true))]] billStore = (.ok (), after) ∧
      HasRows after bill [.ofList [("id", .int 7)], written,
          .ofList [("id", .text "1")]] ∧
      written.get? "due" = some (.timestamp 12) ∧
      written.get? "owner" = some (.text "b") ∧
      written.get? "id" = some (.int 1) := by
  have hreads {name : String} (hreadable : billSession.grammar.ReadablePath name)
      (hsingle : columnOf name = name) : billSession.grammar.NamesColumn name :=
    ⟨hreadable.readsBack, hsingle⟩
  have hs : Timeless billSession bill :=
    ⟨rfl, Grammar.ReadableTable.readsBack (by decide),
      hreads (by decide) (by decide), rfl⟩
  have hsingle : Singles "id" (.int 1) billRow [.ofList [("id", .int 7)]]
      [.ofList [("id", .text "1")]] := ⟨rfl, by decide, by decide, by decide⟩
  have hcolumns : ∀ name ∈ ["due", "due", "owner", "rate"],
      billSession.grammar.NamesColumn name ∧ name ≠ bill.primaryKey := by
    simp only [List.forall_mem_cons]
    exact ⟨⟨hreads (by decide) (by decide), by decide⟩,
      ⟨hreads (by decide) (by decide), by decide⟩,
      ⟨hreads (by decide) (by decide), by decide⟩,
      ⟨hreads (by decide) (by decide), by decide⟩, List.forall_mem_nil _⟩
  obtain ⟨after, -, written, hsaves, -, -, hrows, hfirst, hsecond, hkept, -⟩ :=
    disjoint_saves billSession bill hs billStore
      (.int 1) [.ofList [("id", .int 7)]] [.ofList [("id", .text "1")]] billRow
      hsingle rfl [("due", .text "soon"), ("due", .int 12)]
      [("owner", .text "b"), ("rate", .float (.zero true))] hcolumns
      (by decide) _ _ rfl rfl
  refine ⟨after, written, hsaves, hrows, ?_, ?_,
    (hkept "id" (by decide) (by decide)).trans rfl⟩
  · rcases hfirst "due" (by decide) with hsame | ⟨hclean, -⟩
    · exact hsame.trans rfl
    · exact absurd hclean (by decide)
  · rcases hsecond "owner" (by decide) with hsame | ⟨hclean, -⟩
    · exact hsame.trans rfl
    · exact absurd hclean (by decide)

end Session

end EntityMapper
