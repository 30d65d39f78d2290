import EntityMapper.Proofs.Grammar.ColumnNames
import EntityMapper.Proofs.Model.Snapshot
import EntityMapper.Proofs.Session.Commands
import EntityMapper.Proofs.Session.Persistence
import EntityMapper.Proofs.Store.Comparison

/-!
# A record and its stored row

A record is written to, stored, deleted and read again, in any order and with
failures in between. This module proves that all along its table mirrors it:
while the record is stored exactly one row has its key, and that row holds what
the record was last loaded or stored with; while it is not, no row has its key;
and the other rows are as they were. After a successful save the row holds what
the record holds.

A row is written whole only when it is inserted. An update writes the changed
attributes over the old row, and that this gives the whole record is due to
change tracking: what is not noted as changed is as it was last stored. Zeros of
either sign count as unchanged, and a NaN is loaded as itself, so "holds what"
means at each name the same or an equal value.
-/

namespace EntityMapper

/-! ## Rows with a key -/

namespace Store

variable {row : Row} {rows : List Row}

/-- A row whose key no row has goes behind the others. -/
theorem upsertRows_append {keys : List String} {values : List Value}
    (h : ∀ old ∈ rows, Table.hasKey old keys values = false) (row : Row) :
    Table.upsertRows keys values row rows = rows ++ [row] := by
  induction rows with
  | nil => rfl
  | cons old rest ih =>
    obtain ⟨hold, hrest⟩ := List.forall_mem_cons.mp h
    calc
      Table.upsertRows keys values row (old :: rest) =
          old :: Table.upsertRows keys values row rest := by
        rw [Table.upsertRows, hold, if_neg Bool.false_ne_true]
      _ = old :: (rest ++ [row]) := by rw [ih hrest]

/-- Rows that are changed where a test passes, and pass it after that, are split
by the test as before. -/
theorem filter_map_if {test : Row → Bool} {change : Row → Row}
    (h : ∀ row ∈ rows, test row = true → test (change row) = true) :
    (rows.map fun row => if test row then change row else row).filter test =
        (rows.filter test).map change ∧
      (rows.map fun row => if test row then change row else row).filter
          (fun row => !test row) = rows.filter fun row => !test row := by
  induction rows with
  | nil => exact ⟨rfl, rfl⟩
  | cons row rest ih =>
    obtain ⟨hrow, hrest⟩ := List.forall_mem_cons.mp h
    obtain ⟨hpass, hfail⟩ := ih hrest
    cases htest : test row with
    | true => simp [htest, hrow htest, hpass, hfail]
    | false => simp [htest, hpass, hfail]

end Store

namespace Session

variable {s : Session LocalStore} {e : EntityType} {key : Value} {r : Record}
  {store : LocalStore} {others rows : List Row}

open Effect

/-! ## Histories of a record and its row -/

/-- What is done to a record: an attribute is written, or the record is stored,
deleted or read again. -/
inductive Step
  | write (name : String) (value : Value)
  | persist (op : Persist)

def step (s : Session LocalStore) : Step → EffectOn Record LocalStore Unit
  | .write name value => write name value
  | .persist op => s.persist op

/-- The record and the store after some steps, whether these succeeded or failed. -/
def follow (s : Session LocalStore) (steps : List Step)
    (start : Record × LocalStore) : Record × LocalStore :=
  steps.foldl (fun current step => (s.step step current).2) start

/-- A step writes only attributes whose names are read back, and no key but the
given one. -/
def Step.Spares (g : Grammar) (e : EntityType) (key : Value) : Step → Prop
  | .write name value => g.NamesColumn name ∧ (name = e.primaryKey → value = key)
  | .persist _ => True

/-- An entity type on a local store whose table and key are read back and whose
key is stored as it is written. A key that is the time of the last change would
be written by every save. -/
structure Mapped (s : Session LocalStore) (e : EntityType) : Prop where
  backend : s.backend = LocalStore.backend
  table : s.grammar.ReadsBackTable e.table
  key : s.grammar.NamesColumn e.primaryKey
  cast : e.cast? e.primaryKey = none
  transform : e.transform? e.primaryKey = none
  times : e.timestamps = true → e.primaryKey ≠ updatedAt

/-! ## The invariant -/

/-- A record of an entity type that has the given key, or none yet. -/
structure Bears (g : Grammar) (e : EntityType) (key : Value) (r : Record) :
    Prop where
  entity : r.entity = e
  tracks : r.Tracks
  owns : g.Owns r.attributes
  raw : r.raw? e.primaryKey = none ∨ r.raw? e.primaryKey = some key
  baseline : r.baseline? e.primaryKey = none ∨ r.baseline? e.primaryKey = some key
  stored : r.stored = true → r.raw? e.primaryKey = some key

/-- Rows that mirror a record: one row with its key, alike to its snapshot, if
it is stored, and none if it is not. -/
structure Mirrors (g : Grammar) (column : String) (key : Value)
    (others : List Row) (r : Record) (rows : List Row) : Prop where
  others : (rows.filter fun row => !Store.holdsKey column key row) = others
  stored : r.stored = true →
    ∃ row, rows.filter (Store.holdsKey column key) = [row] ∧ g.Owns row ∧
      row.get? column = some key ∧ Alike row r.snapshot
  unstored : r.stored = false → rows.filter (Store.holdsKey column key) = []

/-- A record whose table mirrors it, beside rows that are not its own. -/
structure InStep (g : Grammar) (e : EntityType) (key : Value) (others : List Row)
    (r : Record) (store : LocalStore) : Prop where
  bears : Bears g e key r
  mirrors : ∃ rows,
    store.database.tables.get? (columnOf e.table) = some ⟨[e.primaryKey], rows⟩ ∧
      Mirrors g e.primaryKey key others r rows

variable {g : Grammar}

/-- The rows mirror another record as well if it has the same snapshot and is as
much stored. -/
theorem Mirrors.congr {column : String} {other : Record}
    (h : Mirrors g column key others r rows) (hstored : other.stored = r.stored)
    (hsnapshot : other.snapshot = r.snapshot) :
    Mirrors g column key others other rows where
  others := h.others
  stored hother := by
    rw [hsnapshot]
    exact h.stored (hstored.symm.trans hother)
  unstored hother := h.unstored (hstored.symm.trans hother)

/-! ## Writing attributes -/

theorem Bears.put (h : Bears g e key r) {name : String} {value : Value}
    (hname : g.NamesColumn name) (hkey : name = e.primaryKey → value = key) :
    Bears g e key (r.put name value) where
  entity := h.entity
  tracks := h.tracks.put name value
  owns := h.owns.insert hname value
  raw := by
    rw [Record.raw?_put]
    split
    · next hsame => exact .inr (congrArg some (hkey hsame))
    · exact h.raw
  baseline := h.baseline
  stored hstored := by
    rw [Record.raw?_put]
    split
    · next hsame => exact congrArg some (hkey hsame)
    · exact h.stored hstored

theorem storedForm_plain {name : String} {value : Value}
    (hcast : e.cast? name = none) (htransform : e.transform? name = none) :
    Record.storedForm e name value = .ok value := by
  unfold Record.storedForm
  rw [hcast, htransform]

theorem Bears.set (h : Bears s.grammar e key r) (hmapped : Mapped s e)
    {name : String} {value : Value} {written : Record}
    (hname : s.grammar.NamesColumn name) (hkey : name = e.primaryKey → value = key)
    (hset : r.set name value = .ok written) : Bears s.grammar e key written := by
  by_cases hsame : name = e.primaryKey
  · rw [Record.set, h.entity, hsame,
      storedForm_plain hmapped.cast hmapped.transform] at hset
    obtain rfl := Except.ok.inj hset
    exact h.put hmapped.key fun _ => hkey hsame
  · obtain ⟨stored, rfl⟩ := Record.set_eq_ok hset
    exact h.put hname fun heq => absurd heq hsame

theorem Bears.forceFill (h : Bears s.grammar e key r) (hmapped : Mapped s e)
    {pairs : Pairs}
    (hpairs : ∀ pair ∈ pairs, s.grammar.NamesColumn pair.1 ∧
      pair.1 ≠ e.primaryKey) : Bears s.grammar e key (r.forceFill pairs).2 := by
  induction pairs generalizing r with
  | nil => exact h
  | cons pair rest ih =>
    obtain ⟨⟨hname, hother⟩, hrest⟩ := List.forall_mem_cons.mp hpairs
    rw [Record.forceFill]
    split
    · next hset =>
        exact ih (h.set hmapped hname (fun heq => absurd heq hother) hset) hrest
    · exact h

/-- The times that a save writes are not the key: the time of creation is
written only if none is given. -/
theorem timesOf_ne (hmapped : Mapped s e) (htimes : e.timestamps = true)
    (hnull : key.isNull = false) (hraw : r.raw? e.primaryKey = some key)
    (now : Value) :
    ∀ pair ∈ timesOf r now, s.grammar.NamesColumn pair.1 ∧
      pair.1 ≠ e.primaryKey := by
  intro pair hpair
  refine ⟨s.grammar.namesColumn_times _ (mem_timesOf hpair), fun heq => ?_⟩
  have hcreated : pair.1 = createdAt := by
    rcases List.mem_cons.mp (mem_timesOf hpair) with hcreated | hupdated
    · exact hcreated
    · exact absurd (heq.symm.trans (List.mem_singleton.mp hupdated))
        (hmapped.times htimes)
  have hgiven : (r.bound? createdAt).isSome = true := by
    rw [Record.bound?, ← hcreated, heq, hraw]
    cases key <;> first | rfl | cases hnull
  rw [timesOf, hgiven, Bool.or_true, if_pos rfl, List.mem_singleton] at hpair
  rw [hpair] at hcreated
  exact absurd hcreated (by decide : updatedAt ≠ createdAt)

theorem InStep.write (h : InStep s.grammar e key others r store)
    (hmapped : Mapped s e) {name : String} {value : Value}
    (hname : s.grammar.NamesColumn name)
    (hkey : name = e.primaryKey → value = key) :
    InStep s.grammar e key others (s.step (.write name value) (r, store)).2.1
      (s.step (.write name value) (r, store)).2.2 := by
  rw [step, write_apply]
  cases hset : r.set name value with
  | error fault => exact h
  | ok written =>
    have hbears := h.bears.set hmapped hname hkey hset
    obtain ⟨stored, rfl⟩ := Record.set_eq_ok hset
    obtain ⟨rows, hrows, hmirrors⟩ := h.mirrors
    exact ⟨hbears, rows, hrows, hmirrors.congr rfl rfl⟩

/-! ## Sending commands -/

theorem send_ok (hlocal : s.backend = LocalStore.backend) {operation : Operation}
    {command : Record → Except MappingError Command} {f : Record → Record}
    {c : Command} {result : ResultSet} {tables : Tables} (hc : command r = .ok c)
    (h : Database.evaluate store.database.tables c = .ok (result, tables)) :
    s.send operation command f (r, store) = (.ok (), f r, store.ran c tables) := by
  rw [send_apply, hc]
  dsimp only
  have hrun : s.backend.execute c store = (.ok result, store.ran c tables) := by
    rw [hlocal]
    simp only [LocalStore.backend, LocalStore.execute, Database.run, h]
    rfl
  rw [hrun]

theorem send_refused {operation : Operation}
    {command : Record → Except MappingError Command} {f : Record → Record}
    {fault : MappingError} (hc : command r = .error fault) :
    s.send operation command f (r, store) = (.error fault, r, store) := by
  rw [send_apply, hc]

/-- The row of a record is looked up by its key; without one it is not looked up. -/
theorem persistedKey_cases (h : Bears g e key r) (hnull : key.isNull = false) :
    persistedKey r = .ok key ∨
      persistedKey r = .error (.missingPrimaryKey e.name) ∧
        r.raw? e.primaryKey = none := by
  have hbound := Value.bound?_of_not_null hnull
  unfold persistedKey Record.key? Record.bound?
  rw [h.entity]
  rcases h.baseline with hbaseline | hbaseline <;> rcases h.raw with hraw | hraw <;>
    rw [hbaseline, hraw]
  · exact .inr ⟨rfl, rfl⟩
  · rw [hbound]
    exact .inl rfl
  · rw [hbound]
    exact .inl rfl
  · rw [hbound]
    exact .inl rfl

theorem persistedKey_eq (h : Bears g e key r) (hnull : key.isNull = false)
    (hraw : r.raw? e.primaryKey = some key) : persistedKey r = .ok key := by
  rcases persistedKey_cases h hnull with hkey | ⟨-, hnone⟩
  · exact hkey
  · rw [hnone] at hraw
    cases hraw

/-! ## Insertion -/

/-- The insertion of a record puts its attributes behind the rows of its table. -/
theorem evaluate_insertion (hmapped : Mapped s e) (h : Bears s.grammar e key r)
    (hnull : key.isNull = false) (hraw : r.raw? e.primaryKey = some key)
    {tables : Tables}
    (htable : tables.get? (columnOf e.table) = some ⟨[e.primaryKey], rows⟩)
    (hnone : ∀ row ∈ rows, Store.holdsKey e.primaryKey key row = false) :
    ∃ c, s.insertion r = .ok c ∧ Database.evaluate tables c =
        .ok (.affected 1, tables.insert (columnOf e.table)
          ⟨[e.primaryKey], rows ++ [r.attributes]⟩) := by
  have hsome : r.attributes.toList ≠ [] := by
    intro hempty
    have hget : NameMap.lookup e.primaryKey r.attributes.toList = some key := hraw
    rw [hempty] at hget
    cases hget
  obtain ⟨c, hc, hevaluate⟩ := Grammar.evaluate_insert hmapped.table hsome
    fun pair hpair => (h.owns.entries pair hpair).readsBack
  refine ⟨c, by rw [insertion, h.entity, hc]; rfl, ?_⟩
  have hrow : NameMap.ofList
        (r.attributes.toList.map fun pair => (columnOf pair.1, pair.2)) =
      r.attributes := by
    rw [NameMap.toList, Grammar.map_columnOf h.owns.entries]
    exact h.owns.ordered.ofList_entries
  have hkeyOf : Table.keyOf (columnOf e.table) r.attributes [e.primaryKey] =
      .ok [key] := by
    have hget : r.attributes.get? e.primaryKey = some key := hraw
    rw [Table.keyOf, hget, Value.bound?_of_not_null hnull]
    rfl
  have hupsert :
      Table.upsert ⟨[e.primaryKey], rows⟩ (columnOf e.table) r.attributes =
        .ok ⟨[e.primaryKey], rows ++ [r.attributes]⟩ := by
    have hrows := Store.upsertRows_append (fun old hold =>
        Store.hasKey_of_not_holdsKey hnull (hnone old hold)) r.attributes
    rw [Table.upsert, hkeyOf]
    dsimp only
    rw [hrows]
  rw [hevaluate, hrow]
  exact Store.write_ok htable (by rw [hupsert]; rfl)

/-- A record that takes its attributes for the baseline. -/
theorem Bears.synced (h : Bears g e key r) {other : Record}
    (hentity : other.entity = r.entity)
    (hattributes : other.attributes = r.attributes)
    (hsnapshot : other.snapshot = r.attributes) (hdirty : other.dirty = ∅)
    (hraw : r.raw? e.primaryKey = some key) : Bears g e key other where
  entity := hentity.trans h.entity
  tracks := Record.tracks_of_clean hdirty (hsnapshot.trans hattributes.symm)
  owns := hattributes ▸ h.owns
  raw := by
    rw [Record.raw?, hattributes]
    exact .inr hraw
  baseline := by
    rw [Record.baseline?, hsnapshot]
    exact .inr hraw
  stored _ := by
    rw [Record.raw?, hattributes]
    exact hraw

theorem InStep.insert (hmapped : Mapped s e)
    (h : InStep s.grammar e key others r store) (hself : (key == key) = true)
    (hnull : key.isNull = false) (hraw : r.raw? e.primaryKey = some key)
    (hstored : r.stored = false) :
    ∃ after, s.send .insert s.insertion inserted (r, store) =
        (.ok (), inserted r, after) ∧
      InStep s.grammar e key others (inserted r) after := by
  obtain ⟨rows, hrows, hmirrors⟩ := h.mirrors
  have hempty := hmirrors.unstored hstored
  have hnone : ∀ row ∈ rows, Store.holdsKey e.primaryKey key row = false :=
    fun row hrow => by
      simpa using List.filter_eq_nil_iff.mp hempty row hrow
  obtain ⟨c, hc, hevaluate⟩ :=
    evaluate_insertion hmapped h.bears hnull hraw hrows hnone
  refine ⟨_, send_ok hmapped.backend hc hevaluate,
    h.bears.synced rfl rfl rfl rfl hraw, _, NameMap.get?_insert_self .., ?_⟩
  have hkeyed : Store.holdsKey e.primaryKey key r.attributes = true :=
    Store.holdsKey_of_get hraw hself hnull
  constructor
  · rw [List.filter_append, hmirrors.others]
    simp [hkeyed]
  · intro _
    refine ⟨r.attributes, ?_, h.bears.owns, hraw, alike_refl _⟩
    rw [List.filter_append, hempty]
    simp [hkeyed]
  · exact nofun

/-! ## Updates and deletions -/

/-- The predicate of a record's row. -/
theorem selects_rowIntent (hcolumn : g.NamesColumn e.primaryKey) (key : Value) :
    selects (rowIntent e key).wheres = Store.holdsKey e.primaryKey key := by
  funext row
  calc
    selects (rowIntent e key).wheres row =
        (Condition.basic e.primaryKey .eq key).holds row :=
      selects_alone _ row
    _ = Store.holdsKey e.primaryKey key row := by
      rw [Condition.holds, hcolumn.single]
      rfl

theorem conveys_rowIntent (hcolumn : g.NamesColumn e.primaryKey) (key : Value) :
    ∀ p ∈ (rowIntent e key).wheres, g.Conveys p.condition := by
  intro p hp
  obtain rfl := List.mem_singleton.mp hp
  exact Grammar.conveys_column hcolumn.readsBack rfl trivial rfl

/-- A write to the row of a key is on the rows that hold it. -/
theorem evaluate_rowWrite (htable : g.ReadsBackTable e.table)
    (hcolumn : g.NamesColumn e.primaryKey) (key : Value) (request : Request)
    (hwhole : WholeWrite (rowIntent e key) request)
    (hassigned : ∀ pair ∈ request.assigned, g.ReadsBack pair.1) {tables : Tables}
    (hrows : tables.get? (columnOf e.table) = some ⟨[e.primaryKey], rows⟩) :
    ∃ c result, g.compile (rowIntent e key) request = .ok c ∧
      Database.evaluate tables c = .ok (result, tables.insert (columnOf e.table)
        ⟨[e.primaryKey], written (request.bindings (rowIntent e key))
          ⟨[e.primaryKey], rows⟩ request (Store.holdsKey e.primaryKey key)⟩) := by
  obtain ⟨c, hc, hevaluate⟩ := Grammar.evaluate_write hwhole
    ⟨htable, conveys_rowIntent hcolumn key, List.forall_mem_nil _, hassigned⟩ rfl
  rw [selects_rowIntent hcolumn] at hevaluate
  exact ⟨c, _, hc, (hevaluate tables).trans (Store.write_ok hrows rfl)⟩

theorem InStep.delete (hmapped : Mapped s e)
    (h : InStep s.grammar e key others r store) (hnull : key.isNull = false)
    (hstored : r.stored = true) :
    ∃ after,
      s.send .delete s.deletion deleted (r, store) = (.ok (), deleted r, after) ∧
        InStep s.grammar e key others (deleted r) after := by
  obtain ⟨rows, hrows, hmirrors⟩ := h.mirrors
  obtain ⟨c, result, hc, hevaluate⟩ := evaluate_rowWrite hmapped.table
    hmapped.key key .delete rfl (List.forall_mem_nil _) hrows
  have hcommand : s.deletion r = .ok c := by
    rw [deletion, persistedKey_eq h.bears hnull (h.bears.stored hstored),
      h.bears.entity]
    simp only [bind, Except.bind]
    rw [show s.grammar.delete (rowIntent e key) = .ok c from hc]
    rfl
  refine ⟨_, send_ok hmapped.backend hcommand hevaluate, ?_, _,
    NameMap.get?_insert_self .., ?_⟩
  · exact ⟨h.bears.entity, ⟨h.bears.tracks.ordered, h.bears.tracks.changed,
        h.bears.tracks.kept⟩, h.bears.owns, h.bears.raw, h.bears.baseline,
      fun hfalse => (Bool.false_ne_true hfalse).elim⟩
  · constructor
    · simpa [written] using hmirrors.others
    · exact fun hfalse => (Bool.false_ne_true hfalse).elim
    · intro _
      simp [written]

theorem Bears.changes (h : Bears g e key r) :
    ∀ pair ∈ r.changes, g.NamesColumn pair.1 := by
  rintro ⟨name, value⟩ hpair
  have hraw : r.attributes.get? name = some value :=
    (h.tracks.mem_changes_iff.mp hpair).2
  exact h.owns.names name (by rw [NameMap.contains, hraw]; rfl)

/-- The key of a row is that of its record, and stays so when the changes are
written over it. -/
theorem Bears.get?_extend (h : Bears g e key r)
    (hraw : r.raw? e.primaryKey = some key) {row : Row}
    (hrow : row.get? e.primaryKey = some key) :
    (row.extend ⟨r.changes⟩).get? e.primaryKey = some key := by
  have hordered : NameMap.WellFormed (⟨r.changes⟩ : Row) :=
    List.pairwise_map.mp h.tracks.changes_ordered
  rw [NameMap.get?_extend row hordered, h.tracks.get?_changes, hraw, hrow]
  split <;> rfl

/-- What the update of a record leaves of the rows that mirror it. -/
theorem Mirrors.update (hbears : Bears g e key r)
    (h : Mirrors g e.primaryKey key others r rows) (hself : (key == key) = true)
    (hnull : key.isNull = false) (hstored : r.stored = true) :
    Mirrors g e.primaryKey key others r.syncBaseline
      (rows.map fun row => if Store.holdsKey e.primaryKey key row then
        row.extend ⟨r.changes⟩ else row) := by
  obtain ⟨row, hone, howns, hrow, halike⟩ := h.stored hstored
  have hraw := hbears.stored hstored
  have hkey := hbears.get?_extend hraw hrow
  have hown : ∀ old ∈ rows, Store.holdsKey e.primaryKey key old = true →
      Store.holdsKey e.primaryKey key (old.extend ⟨r.changes⟩) = true := by
    intro old hold hholds
    have hmem : old ∈ rows.filter (Store.holdsKey e.primaryKey key) :=
      List.mem_filter.mpr ⟨hold, hholds⟩
    rw [hone, List.mem_singleton] at hmem
    rw [hmem]
    exact Store.holdsKey_of_get hkey hself hnull
  obtain ⟨hpass, hfail⟩ := Store.filter_map_if hown
  constructor
  · rw [hfail, h.others]
  · intro _
    refine ⟨row.extend ⟨r.changes⟩, ?_, howns.extend hbears.changes, hkey,
      hbears.tracks.alike_extend halike⟩
    rw [hpass, hone]
    rfl
  · intro hnone
    rw [show r.syncBaseline.stored = r.stored from rfl, hstored] at hnone
    cases hnone

/-- An update takes the changes of a record to its row. Without changes there is
no command. -/
theorem InStep.update (hmapped : Mapped s e)
    (h : InStep s.grammar e key others r store) (hself : (key == key) = true)
    (hnull : key.isNull = false) (hstored : r.stored = true) :
    (∃ fault, s.send .update s.modification Record.syncBaseline (r, store) =
      (.error fault, r, store)) ∨
      ∃ after, s.send .update s.modification Record.syncBaseline (r, store) =
          (.ok (), r.syncBaseline, after) ∧
        InStep s.grammar e key others r.syncBaseline after := by
  have hraw := h.bears.stored hstored
  have hmodification : s.modification r =
      compiled (s.grammar.update (rowIntent e key) r.changes) := by
    rw [modification, persistedKey_eq h.bears hnull hraw, h.bears.entity]
    rfl
  by_cases hsome : r.changes = []
  · refine .inl ⟨.compile (.emptyColumns .update), send_refused ?_⟩
    rw [hmodification, hsome]
    rfl
  · right
    obtain ⟨rows, hrows, hmirrors⟩ := h.mirrors
    obtain ⟨c, result, hc, hevaluate⟩ := evaluate_rowWrite hmapped.table
      hmapped.key key (.update r.changes) ⟨hsome, rfl⟩
      (fun pair hpair => (h.bears.changes pair hpair).readsBack) hrows
    have hcommand : s.modification r = .ok c := by
      rw [hmodification]
      rw [show s.grammar.update (rowIntent e key) r.changes = .ok c from hc]
      rfl
    have hoverwritten (row : Row) : Store.overwritten row r.changes =
        row.extend ⟨r.changes⟩ := by
      rw [Store.overwritten, Grammar.map_columnOf h.bears.changes]
    refine ⟨_, send_ok hmapped.backend hcommand hevaluate,
      h.bears.synced rfl rfl rfl rfl hraw, _, NameMap.get?_insert_self .., ?_⟩
    have hwritten := hmirrors.update h.bears hself hnull hstored
    simp only [written, Request.bindings, List.append_assoc,
      Store.assign_params, hoverwritten]
    exact hwritten

/-! ## Storing -/

/-- The rows are those of the tables, whatever else there is of the store. -/
theorem InStep.congr (h : InStep g e key others r store) {after : LocalStore}
    (htables : after.database.tables = store.database.tables) :
    InStep g e key others r after :=
  ⟨h.bears, by rw [htables]; exact h.mirrors⟩

/-- The times are written into the record alone, and its key is none of them. -/
theorem InStep.stamp (hmapped : Mapped s e)
    (h : InStep s.grammar e key others r store) (hnull : key.isNull = false)
    (hraw : r.raw? e.primaryKey = some key) :
    ∃ outcome left after, s.stamp (r, store) = (outcome, left, after) ∧
      InStep s.grammar e key others left after ∧ left.stored = r.stored ∧
      left.raw? e.primaryKey = some key := by
  cases htimes : e.timestamps with
  | false => exact ⟨_, _, _, stamp_off (h.bears.entity ▸ htimes), h, rfl, hraw⟩
  | true =>
    have hclock : s.backend.clock store =
        (store.time, { store with time := store.time + 1 }) := by
      rw [hmapped.backend]
      rfl
    have hpairs := timesOf_ne hmapped htimes hnull hraw (.timestamp store.time)
    have hkept : SameBut ((timesOf r (.timestamp store.time)).map Prod.fst) r
        (r.forceFill (timesOf r (.timestamp store.time))).2 :=
      sameBut_forceFill (fun _ hpair => List.mem_map_of_mem hpair) r
    obtain ⟨rows, hrows, hmirrors⟩ := h.mirrors
    refine ⟨_, _, _, stamp_on (h.bears.entity ▸ htimes) hclock,
      ⟨h.bears.forceFill hmapped hpairs, rows, hrows,
        hmirrors.congr hkept.stored hkept.snapshot⟩, hkept.stored, ?_⟩
    rw [hkept.raw, hraw]
    intro hmem
    obtain ⟨pair, hpair, heq⟩ := List.mem_map.mp hmem
    exact (hpairs pair hpair).2 heq

/-- A save keeps the record and its row in step; if it succeeds the record is
stored, and its snapshot is what it holds. -/
theorem InStep.save (hmapped : Mapped s e)
    (h : InStep s.grammar e key others r store) (hself : (key == key) = true)
    (hnull : key.isNull = false) :
    ∃ outcome left after, s.save (r, store) = (outcome, left, after) ∧
      InStep s.grammar e key others left after ∧ (outcome = .ok () →
        left.stored = true ∧ Alike left.snapshot left.attributes) := by
  cases hstored : r.stored with
  | true =>
    cases hdirty : r.isDirty with
    | true =>
      obtain ⟨outcome, stamped, next, hstamp, hstep, hkept, -⟩ :=
        h.stamp hmapped hnull (h.bears.stored hstored)
      rw [save_dirty hdirty hstored]
      cases outcome with
      | error fault =>
        exact ⟨_, _, _, bind_error hstamp, hstep, fun hok => by cases hok⟩
      | ok done =>
        rcases hstep.update hmapped hself hnull (hkept.trans hstored) with
          ⟨fault, hsend⟩ | ⟨after, hsend, hafter⟩
        · exact ⟨_, _, _, (bind_ok hstamp).trans hsend, hstep,
            fun hok => by cases hok⟩
        · exact ⟨_, _, _, (bind_ok hstamp).trans hsend, hafter,
            fun _ => ⟨hkept.trans hstored, alike_refl _⟩⟩
    | false =>
      refine ⟨_, _, _, save_clean hdirty hstored, h,
        fun _ => ⟨hstored, fun name => ?_⟩⟩
      have hnone : r.dirty = ⟨[]⟩ := by
        have hempty : r.dirty.entries.isEmpty = true := by
          simpa [Record.isDirty, NameMap.isEmpty] using hdirty
        rw [← List.isEmpty_iff.mp hempty]
      have hclean : r.isAttributeDirty name = false := by
        rw [Record.isAttributeDirty, hnone]; rfl
      exact h.bears.tracks.alike_of_clean hclean
  | false =>
    cases hkey : r.key?.isNone with
    | true => exact ⟨_, _, _, save_keyless hkey hstored, h, fun hok => by cases hok⟩
    | false =>
      have hraw : r.raw? e.primaryKey = some key := by
        rcases h.bears.raw with hnone | hraw
        · rw [Record.key?, Record.bound?, h.bears.entity, hnone] at hkey
          cases hkey
        · exact hraw
      obtain ⟨outcome, stamped, next, hstamp, hstep, hkept, hstamped⟩ :=
        h.stamp hmapped hnull hraw
      rw [save_new hkey hstored]
      cases outcome with
      | error fault =>
        exact ⟨_, _, _, bind_error hstamp, hstep, fun hok => by cases hok⟩
      | ok done =>
        obtain ⟨after, hsend, hafter⟩ := hstep.insert hmapped hself hnull hstamped
          (hkept.trans hstored)
        exact ⟨_, _, _, (bind_ok hstamp).trans hsend, hafter,
          fun _ => ⟨rfl, alike_refl _⟩⟩

/-! ## Reading again -/

/-- The rows of a key, of which there is to be one. -/
theorem selectRows_rowIntent (hmapped : Mapped s e) (key : Value)
    (htable : store.database.tables.get? (columnOf e.table) =
      some ⟨[e.primaryKey], rows⟩) :
    ∃ after, s.selectRows ((rowIntent e key).withLimit 1) store =
        (.ok ((rows.filter (Store.holdsKey e.primaryKey key)).take 1), after) ∧
      after.database.tables = store.database.tables := by
  have hreads : s.grammar.ReadsQuery ((rowIntent e key).withLimit 1) :=
    ⟨rfl, rfl, hmapped.table, conveys_rowIntent hmapped.key key,
      List.forall_mem_nil _, List.forall_mem_nil _, by simp [Intent.withLimit],
      nofun⟩
  obtain ⟨c, hselect⟩ := selectRows_ok hmapped.backend hreads rfl rfl rfl
    (Grammar.written_selection (List.forall_mem_nil _)) nofun htable
  refine ⟨store.ran c store.database.tables, ?_, rfl⟩
  rw [hselect, show ((rowIntent e key).withLimit 1).wheres =
    (rowIntent e key).wheres from rfl, selects_rowIntent hmapped.key]
  rfl

theorem InStep.refresh (hmapped : Mapped s e)
    (h : InStep s.grammar e key others r store) (hnull : key.isNull = false) :
    InStep s.grammar e key others (s.refresh (r, store)).2.1
      (s.refresh (r, store)).2.2 := by
  rw [refresh_apply]
  rcases persistedKey_cases h.bears hnull with hkey | ⟨hkey, -⟩
  · obtain ⟨rows, hrows, hmirrors⟩ := h.mirrors
    obtain ⟨after, hselect, htables⟩ := selectRows_rowIntent hmapped key hrows
    rw [hkey]
    dsimp only
    rw [h.bears.entity, hselect]
    cases hstored : r.stored with
    | false =>
      rw [hmirrors.unstored hstored]
      exact h.congr htables
    | true =>
      obtain ⟨row, hone, howns, hrow, -⟩ := hmirrors.stored hstored
      rw [hone]
      refine ⟨⟨h.bears.entity, Record.tracks_reload r row, howns, .inr hrow,
          .inr hrow, fun _ => hrow⟩, rows, htables ▸ hrows, hmirrors.others,
        fun _ => ?_, nofun⟩
      exact ⟨row, hone, howns, hrow, alike_refl row⟩
  · rw [hkey]
    exact h

/-! ## Whole histories -/

/-- Every step that spares the key keeps a record and its row in step. -/
theorem InStep.step (hmapped : Mapped s e)
    (h : InStep s.grammar e key others r store) (hself : (key == key) = true)
    (hnull : key.isNull = false) {step : Step}
    (hstep : step.Spares s.grammar e key) :
    InStep s.grammar e key others (s.step step (r, store)).2.1
      (s.step step (r, store)).2.2 := by
  cases step with
  | write name value => exact h.write hmapped hstep.1 hstep.2
  | persist op =>
    cases op with
    | save =>
      obtain ⟨outcome, left, after, hsave, hafter, -⟩ := h.save hmapped hself hnull
      rw [Session.step, persist, hsave]
      exact hafter
    | delete =>
      rw [Session.step, persist]
      cases hstored : r.stored with
      | true =>
        obtain ⟨after, hsend, hafter⟩ := h.delete hmapped hnull hstored
        rw [delete_stored hstored, hsend]
        exact hafter
      | false =>
        rw [delete_unstored hstored]
        exact h
    | refresh => exact h.refresh hmapped hnull

theorem InStep.follow (hmapped : Mapped s e) (hself : (key == key) = true)
    (hnull : key.isNull = false) {steps : List Step}
    (hsteps : ∀ step ∈ steps, step.Spares s.grammar e key)
    (h : InStep s.grammar e key others r store) :
    InStep s.grammar e key others (s.follow steps (r, store)).1
      (s.follow steps (r, store)).2 := by
  induction steps generalizing r store with
  | nil => exact h
  | cons step rest ih =>
    obtain ⟨hstep, hrest⟩ := List.forall_mem_cons.mp hsteps
    exact ih hrest (h.step hmapped hself hnull hstep)

end Session

end EntityMapper
