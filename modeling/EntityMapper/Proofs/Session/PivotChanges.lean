import EntityMapper.Proofs.Session.PivotRows
import EntityMapper.Proofs.Session.RelationRows

/-!
# Changing the attached keys

The operations on a many-to-many relation are set operations on the keys that
are attached to the parent: attaching adds the requested keys, detaching removes
them, a synchronisation leaves the requested ones alone, and a toggle changes
which of them are attached. This module proves so for a local store. Each
operation succeeds, and the keys that are read after it are the described ones,
whatever rows there are that the relation does not show, and however often a key
is requested.

The steps are stated on the set of attached keys alone: a store `Holds` a set,
and one command makes it hold another.
-/

namespace EntityMapper

namespace Pivot

open Session Store

variable {g : Grammar} {p : Pivot} {key : Value} {owner related : KeyKind}
  {extra : Pairs} {rows : List Row} {row : Row} {id : Value}

/-! ## The intent on the rows of a parent -/

theorem intent_eq (p : Pivot) (key : Value) : p.intent key =
    { table := p.table.table
      wheres := ⟨.and, .basic p.table.foreignPivotKey .eq key⟩ ::
        p.table.pivotWheres.map fun pair => ⟨.and, .basic pair.1 .eq pair.2⟩ } :=
  Intent.whereAll_eq _ _

/-- The predicates of the intent, with others behind them, ask for a row that is
shown. -/
theorem selects_intent (h : p.Readable g) (key : Value) {more : List Predicate}
    (hmore : ∀ w ∈ more, w.connector = .and) :
    selects ((p.intent key).wheres ++ more) =
      fun row => p.shows key row && more.all fun w => w.condition.holds row := by
  have hforeign := h.names _ (mem_columns p.foreignPivotKey_mem)
  funext row
  rw [selects_and, List.all_append, intent_eq]
  · simp only [List.all_cons, List.all_map, Function.comp_def,
      hforeign.holds_eq, shows]
    congr 2
    exact all_congr_mem fun pair hpair => (h.wheres pair hpair).holds_eq pair.2 row
  · rw [intent_eq]
    intro w hw
    rcases List.mem_append.mp hw with hown | hw
    · rcases List.mem_cons.mp hown with rfl | hown
      · rfl
      · obtain ⟨pair, -, rfl⟩ := List.mem_map.mp hown
        rfl
    · exact hmore w hw

theorem conveys_intent (h : p.Readable g) (key : Value) :
    ∀ w ∈ (p.intent key).wheres, g.Conveys w.condition := by
  intro w hw
  rw [intent_eq] at hw
  rcases List.mem_cons.mp hw with rfl | hw
  · exact (h.names _ (mem_columns p.foreignPivotKey_mem)).conveys_eq key
  · obtain ⟨pair, hpair, rfl⟩ := List.mem_map.mp hw
    exact (h.wheres pair hpair).conveys_eq pair.2

/-! ## Stores and the keys they hold -/

/-- A local store whose pivot table attaches the keys of a description to the
parent. -/
def Holds (p : Pivot) (key : Value) (owner related : KeyKind)
    (attached : Value → Prop) (store : LocalStore) : Prop :=
  ∃ rows, store.database.tables.get? (columnOf p.table.table) =
      some ⟨p.keyColumns, rows⟩ ∧
    p.Typed owner related rows ∧ ∀ id, p.Attached key rows id ↔ attached id

variable {attached other : Value → Prop} {store : LocalStore}

theorem Holds.congr (h : p.Holds key owner related attached store)
    (hsame : ∀ id, attached id ↔ other id) :
    p.Holds key owner related other store := by
  obtain ⟨rows, hrows, htyped, hattached⟩ := h
  exact ⟨rows, hrows, htyped, fun id => (hattached id).trans (hsame id)⟩

theorem Holds.has (h : p.Holds key owner related attached store)
    (hid : attached id) : related.has id = true := by
  obtain ⟨rows, -, htyped, hattached⟩ := h
  obtain ⟨row, hrow, -, rfl⟩ := (hattached id).mpr hid
  exact (htyped row hrow).2

end Pivot

namespace Session

open Effect Pivot Store

variable {s : Session LocalStore} {p : Pivot} {key id : Value}
  {owner related : KeyKind} {extra : Pairs} {ids current : List Value}
  {rows : List Row} {attached : Value → Prop} {store : LocalStore}

/-! ## Reading the attached keys -/

/-- The pivot rows of a parent are read as those that are shown. -/
theorem pivotRows_ok (hlocal : s.backend = LocalStore.backend)
    (h : p.Readable s.grammar) (key : Value) {t : Table}
    (htable : store.database.tables.get? (columnOf p.table.table) = some t) :
    ∃ c, s.pivotRows p key store =
      (.ok (p.shownRows key t.rows), store.ran c store.database.tables) := by
  have hsome : p.columns ≠ [] :=
    List.ne_nil_of_mem (mem_columns p.foreignPivotKey_mem)
  have hlist := Grammar.written_columns hsome h.names h.star
  have hshows : selects (p.intent key).wheres = p.shows key := by
    have hintent := selects_intent h key (List.forall_mem_nil _)
    simpa using hintent
  have hselected (q : Intent) (hq : q = { p.intent key with
      selection := .columns p.columns, allowFiltering := q.allowFiltering }) :
      ∃ c, s.selectRows q store = (.ok (p.shownRows key t.rows),
        store.ran c store.database.tables) := by
    have hname : q.table = p.table.table := by rw [hq, intent_eq]
    have hwheres : q.wheres = (p.intent key).wheres := by rw [hq]
    have hlimit : q.limit = none := by rw [hq, intent_eq]
    have hreads : s.grammar.ReadsQuery q := by
      refine ⟨by rw [hq, intent_eq], by rw [hq, intent_eq], hname ▸ h.table,
        hwheres ▸ conveys_intent h key, ?_, ?_, ?_, ?_⟩
      all_goals rw [hq, intent_eq]; simp
    have hselection : q.selection = .columns p.columns := by rw [hq]
    obtain ⟨c, hselect⟩ := selectRows_ok hlocal hreads (by rw [hq, intent_eq])
      (by rw [hq, intent_eq]) (by rw [hq, intent_eq]) (hselection ▸ hlist) (by simp)
      (hname ▸ htable)
    rw [hlimit, hwheres, hshows] at hselect
    exact ⟨c, hselect⟩
  unfold pivotRows
  cases s.config.allowFiltering with
  | true =>
    exact hselected _ (by simp [intent_eq, Intent.select, Intent.allowingFiltering])
  | false => exact hselected _ (by simp [intent_eq, Intent.select])

/-- A store is read with the attached keys, each once, and stays as it is but
for its log. -/
theorem currentIds_ok (hlocal : s.backend = LocalStore.backend)
    (h : p.Mapped s.grammar key owner)
    (hholds : p.Holds key owner related attached store) :
    ∃ ids after, s.currentIds p store = (.ok ids, after) ∧
      p.Holds key owner related attached after ∧ ListsEach ids attached := by
  obtain ⟨rows, hrows, htyped, hattached⟩ := hholds
  obtain ⟨c, hread⟩ := pivotRows_ok hlocal h.readable key hrows
  refine ⟨_, store.ran c store.database.tables, ?_,
    ⟨rows, hrows, htyped, hattached⟩, (listsEach_attached htyped).congr hattached⟩
  unfold currentIds
  rw [h.parentKey]
  exact bind_ok hread

/-! ## Single commands -/

/-- A parent that has a key gives it to every operation. -/
theorem bind_requireKey (hkey : p.parentKey? = some key) {α : Type}
    (action : RelationAction) (f : Value → Effect LocalStore α)
    (store : LocalStore) :
    (orThrow (requireKey p action) >>= f) store = f key store := by
  rw [requireKey, hkey]
  exact bind_ok rfl

/-- An insertion whose command replaces a table leaves the new one in its place. -/
theorem insertPivot_of_evaluate (hlocal : s.backend = LocalStore.backend)
    {c : Command}
    (hc : s.grammar.insert (.new p.table.table) (pivotValues p key id extra) =
      .ok c) {result : ResultSet} {name : String} {left : Table}
    (h : Database.evaluate store.database.tables c =
      .ok (result, store.database.tables.insert name left)) :
    ∃ after, s.insertPivot p key id extra store = (.ok (), after) ∧
      after.database.tables.get? name = some left := by
  obtain ⟨after, hrun, hafter⟩ := run_write hlocal .insert h
  refine ⟨after, ?_, hafter⟩
  unfold insertPivot
  rw [bind_compiled hc, discard_apply, hrun]
  rfl

/-- An insertion of names that are read back writes its row by the keys of the
table. -/
theorem insertPivot_upsert (hlocal : s.backend = LocalStore.backend)
    (htable : s.grammar.ReadsBackTable p.table.table)
    (hnames : ∀ pair ∈ pivotValues p key id extra, s.grammar.ReadsBack pair.1)
    {t left : Table}
    (hstored : store.database.tables.get? (columnOf p.table.table) = some t)
    (hupsert : t.upsert (columnOf p.table.table) (.ofList ((pivotValues p key id
          extra).map fun pair => (columnOf pair.1, pair.2))) = .ok left) :
    ∃ after, s.insertPivot p key id extra store = (.ok (), after) ∧
      after.database.tables.get? (columnOf p.table.table) = some left := by
  obtain ⟨c, hc, hevaluate⟩ :=
    Grammar.evaluate_insert htable (pivotValues_ne_nil p key id extra) hnames
  have hwritten := hevaluate store.database.tables
  rw [write_ok hstored (by rw [hupsert]; rfl)] at hwritten
  exact insertPivot_of_evaluate hlocal hc hwritten

/-- An insertion attaches its key. -/
theorem insertPivot_ok (hlocal : s.backend = LocalStore.backend)
    (h : p.Mapped s.grammar key owner) (hid : related.has id = true)
    (hextra : Fits s.grammar p extra)
    (hholds : p.Holds key owner related attached store) :
    ∃ after, s.insertPivot p key id extra store = (.ok (), after) ∧ p.Holds key
        owner related (fun other => attached other ∨ other = id) after := by
  obtain ⟨rows, hrows, htyped, hattached⟩ := hholds
  have hnames := namesColumn_pivotValues h hextra id
  have hlinks := links_pivotValues h hextra id
  have hordered := NameMap.wellFormed_ofList (pivotValues p key id extra)
  have hupsert : Table.upsert ⟨p.keyColumns, rows⟩ (columnOf p.table.table)
        (.ofList (pivotValues p key id extra)) =
      .ok ⟨p.keyColumns, Table.upsertRows p.keyColumns [key, id]
        (.ofList (pivotValues p key id extra)) rows⟩ := by
    rw [Table.upsert, hlinks.keyOf (KeyKind.isNull h.kind) (KeyKind.isNull hid)]
  rw [← Grammar.map_columnOf hnames] at hupsert
  obtain ⟨after, hinsert, hafter⟩ := insertPivot_upsert hlocal h.table
    (fun pair hpair => (hnames pair hpair).readsBack) hrows hupsert
  rw [Grammar.map_columnOf hnames] at hafter
  refine ⟨after, hinsert, _, hafter, htyped.upsertRows h hid hordered hlinks,
    fun other => ?_⟩
  rw [attached_upsertRows h hid hordered hlinks, hattached]
  exact or_comm

/-- A write to rows that the relation shows is on those of them that pass its
further predicates. -/
theorem run_pivotWrite (hlocal : s.backend = LocalStore.backend)
    (h : p.Readable s.grammar) {q : Intent} {more : List Predicate}
    (hq : q = { p.intent key with wheres := (p.intent key).wheres ++ more })
    (hmore : ∀ w ∈ more, w.connector = .and ∧ s.grammar.Conveys w.condition)
    (request : Request) (hwhole : WholeWrite q request)
    (hassigned : ∀ pair ∈ request.assigned, s.grammar.ReadsBack pair.1)
    (hrows : store.database.tables.get? (columnOf p.table.table) =
      some ⟨p.keyColumns, rows⟩) (operation : Operation) :
    ∃ c result after, s.grammar.compile q request = .ok c ∧
      s.run operation c store = (.ok result, after) ∧
      after.database.tables.get? (columnOf p.table.table) = some ⟨p.keyColumns,
        written (request.bindings q) ⟨p.keyColumns, rows⟩ request fun row =>
          p.shows key row && more.all fun w => w.condition.holds row⟩ := by
  have htable : q.table = p.table.table := by rw [hq, intent_eq]
  have hwheres : q.wheres = (p.intent key).wheres ++ more := by rw [hq]
  have hfree : q.ifConditions = [] := by rw [hq, intent_eq]
  have hreads : s.grammar.ReadsWrite q request := by
    refine ⟨htable ▸ h.table, fun w hw => ?_,
      by rw [hfree]; exact List.forall_mem_nil _, hassigned⟩
    rw [hwheres] at hw
    rcases List.mem_append.mp hw with hw | hw
    · exact conveys_intent h key w hw
    · exact (hmore w hw).2
  obtain ⟨c, hc, hevaluate⟩ := Grammar.evaluate_write hwhole hreads hfree
  rw [htable, hwheres, selects_intent h key fun w hw => (hmore w hw).1] at hevaluate
  obtain ⟨after, hrun, hafter⟩ :=
    run_write hlocal operation ((hevaluate _).trans (write_ok hrows rfl))
  exact ⟨c, _, after, hc, hrun, hafter⟩

theorem deletePivotRows_ok (hlocal : s.backend = LocalStore.backend)
    (h : p.Readable s.grammar) {q : Intent} {more : List Predicate}
    (hq : q = { p.intent key with wheres := (p.intent key).wheres ++ more })
    (hmore : ∀ w ∈ more, w.connector = .and ∧ s.grammar.Conveys w.condition)
    (hrows : store.database.tables.get? (columnOf p.table.table) =
      some ⟨p.keyColumns, rows⟩) :
    ∃ count after, s.deletePivotRows q store = (.ok count, after) ∧
      after.database.tables.get? (columnOf p.table.table) =
        some ⟨p.keyColumns, rows.filter fun row =>
          !(p.shows key row && more.all fun w => w.condition.holds row)⟩ := by
  have hselection : q.selection.names = [] := by
    rw [hq, intent_eq]
    rfl
  obtain ⟨c, result, after, hc, hrun, hafter⟩ := run_pivotWrite hlocal h hq
    hmore .delete hselection (List.forall_mem_nil _) hrows .delete
  refine ⟨result.rowCount, after, ?_, hafter⟩
  unfold deletePivotRows
  rw [bind_compiled (show s.grammar.delete q = .ok c from hc), bind_ok hrun]
  rfl

/-- A deletion of some related keys is on the shown rows that hold one of them. -/
theorem deletePivot_rows (hlocal : s.backend = LocalStore.backend)
    (h : p.Readable s.grammar) (key : Value) (ids : List Value)
    (hrows : store.database.tables.get? (columnOf p.table.table) =
      some ⟨p.keyColumns, rows⟩) :
    ∃ count after, s.deletePivot p key ids store = (.ok count, after) ∧
      after.database.tables.get? (columnOf p.table.table) = some ⟨p.keyColumns,
        rows.filter fun row => !(p.shows key row && p.namesOne ids row)⟩ := by
  unfold deletePivot
  cases hempty : ids.isEmpty with
  | true =>
    have hall : (rows.filter fun row => !(p.shows key row && p.namesOne ids row)) =
        rows := by
      rw [List.isEmpty_iff.mp hempty]
      simp [namesOne]
    exact ⟨0, store, rfl, hall.symm ▸ hrows⟩
  | false =>
    have hrelated := h.names _ (mem_columns p.relatedPivotKey_mem)
    have hnames (row : Row) :
        (Condition.isIn p.table.relatedPivotKey ids).holds row =
          p.namesOne ids row := by
      rw [Condition.holds, hrelated.single]
      rfl
    obtain ⟨count, after, hdelete, hafter⟩ := deletePivotRows_ok hlocal h
      (q := (p.intent key).whereIn p.table.relatedPivotKey ids) rfl
      (List.forall_mem_singleton.mpr
        ⟨rfl, Grammar.conveys_column hrelated.readsBack rfl trivial rfl⟩) hrows
    simp only [holds_alone, hnames] at hafter
    exact ⟨count, after, hdelete, hafter⟩

/-- A deletion detaches the keys of its list. -/
theorem deletePivot_ok (hlocal : s.backend = LocalStore.backend)
    (h : p.Mapped s.grammar key owner) (hids : ∀ id ∈ ids, related.has id = true)
    (hholds : p.Holds key owner related attached store) :
    ∃ count after, s.deletePivot p key ids store = (.ok count, after) ∧
      p.Holds key owner related (fun id => attached id ∧ id ∉ ids) after := by
  obtain ⟨rows, hrows, htyped, hattached⟩ := hholds
  obtain ⟨count, after, hdelete, hafter⟩ :=
    deletePivot_rows hlocal h.readable key ids hrows
  exact ⟨count, after, hdelete, _, hafter, htyped.filter _, fun id =>
    (attached_delete htyped hids id).trans (and_congr_left' (hattached id))⟩

/-- A deletion of every row that is shown detaches every key. -/
theorem deleteAll_ok (hlocal : s.backend = LocalStore.backend)
    (h : p.Mapped s.grammar key owner)
    (hholds : p.Holds key owner related attached store) :
    ∃ count after, s.deletePivotRows (p.intent key) store = (.ok count, after) ∧
      p.Holds key owner related (fun _ => False) after := by
  obtain ⟨rows, hrows, htyped, -⟩ := hholds
  obtain ⟨count, after, hdelete, hafter⟩ := deletePivotRows_ok hlocal h.readable
    (q := p.intent key) (by rw [List.append_nil]) (List.forall_mem_nil _) hrows
  simp only [List.all_nil, Bool.and_true] at hafter
  exact ⟨count, after, hdelete, _, hafter, htyped.filter _,
    fun id => iff_false_intro (not_attached_hidden id)⟩

/-- An update of a related key writes its columns over the shown rows that hold
the key. -/
theorem updatePivot_rows (hlocal : s.backend = LocalStore.backend)
    (h : p.Readable s.grammar) (hkey : p.parentKey? = some key) (id : Value)
    (hsome : extra ≠ []) (hextra : ∀ pair ∈ extra, s.grammar.ReadsBack pair.1)
    (hrows : store.database.tables.get? (columnOf p.table.table) =
      some ⟨p.keyColumns, rows⟩) :
    ∃ count after, s.updatePivot p id extra store = (.ok count, after) ∧
      after.database.tables.get? (columnOf p.table.table) =
        some ⟨p.keyColumns, rows.map fun row =>
        if p.shows key row && holdsKey p.table.relatedPivotKey id row then
          overwritten row extra
        else row⟩ := by
  have hrelated := h.names _ (mem_columns p.relatedPivotKey_mem)
  have hnames (row : Row) :
      (Condition.basic p.table.relatedPivotKey .eq id).holds row =
        holdsKey p.table.relatedPivotKey id row := by
    rw [Condition.holds, hrelated.single]
    rfl
  obtain ⟨c, result, after, hc, hrun, hafter⟩ := run_pivotWrite hlocal h
    (q := (p.intent key).whereEq p.table.relatedPivotKey id) rfl
    (List.forall_mem_singleton.mpr
      ⟨rfl, Grammar.conveys_column hrelated.readsBack rfl trivial rfl⟩)
    (.update extra) ⟨hsome, by rw [intent_eq]; rfl⟩ hextra hrows .update
  simp only [holds_alone, hnames, written, Request.bindings, List.append_assoc,
    assign_params] at hafter
  have hempty : extra.isEmpty = false := by simpa using hsome
  refine ⟨result.rowCount, after, ?_, hafter⟩
  unfold updatePivot
  rw [bind_requireKey hkey, hempty, if_neg Bool.false_ne_true]
  rw [bind_compiled (show s.grammar.update _ extra = .ok c from hc), bind_ok hrun]
  rfl

/-- An update of extra columns attaches and detaches nothing. -/
theorem updatePivot_ok (hlocal : s.backend = LocalStore.backend)
    (h : p.Mapped s.grammar key owner) (id : Value)
    (hextra : Fits s.grammar p extra)
    (hholds : p.Holds key owner related attached store) :
    ∃ count after, s.updatePivot p id extra store = (.ok count, after) ∧
      p.Holds key owner related attached after := by
  by_cases hsome : extra = []
  · refine ⟨0, store, ?_, hholds⟩
    rw [hsome, updatePivot, bind_requireKey h.parentKey]
    rfl
  · obtain ⟨rows, hrows, htyped, hattached⟩ := hholds
    obtain ⟨count, after, hupdate, hafter⟩ := updatePivot_rows hlocal h.readable
      h.parentKey id hsome (fun pair hpair => (hextra pair hpair).1.readsBack) hrows
    exact ⟨count, after, hupdate, _, hafter, htyped.update hextra _, fun other =>
      (attached_update hextra _ other).trans (hattached other)⟩

/-! ## Lists of keys -/

/-- Insertions attach the keys of their list. -/
theorem insertPivots_ok (hlocal : s.backend = LocalStore.backend)
    (h : p.Mapped s.grammar key owner)
    (hids : ∀ id ∈ ids, related.has id = true) (hextra : Fits s.grammar p extra)
    (hholds : p.Holds key owner related attached store) :
    ∃ after, s.insertPivots p key extra ids store = (.ok (), after) ∧
      p.Holds key owner related (fun id => attached id ∨ id ∈ ids) after := by
  induction ids generalizing attached store with
  | nil => exact ⟨store, rfl, hholds.congr fun id => by simp⟩
  | cons id rest ih =>
    obtain ⟨hid, hrest⟩ := List.forall_mem_cons.mp hids
    obtain ⟨next, hinsert, hnext⟩ := insertPivot_ok hlocal h hid hextra hholds
    obtain ⟨after, hinserts, hafter⟩ := ih hrest hnext
    refine ⟨after, (bind_ok hinsert).trans hinserts, hafter.congr fun other => ?_⟩
    rw [List.mem_cons, or_assoc]

/-- How far a synchronisation has come: the requested keys are attached beside
the current ones, and those of them that were not there are noted as attached.
-/
structure Synced (p : Pivot) (key : Value) (owner related : KeyKind)
    (current requested : List Value) (changes : SyncChanges)
    (store : LocalStore) : Prop where
  holds : p.Holds key owner related (fun id => id ∈ current ∨ id ∈ requested) store
  attached : ListsEach changes.attached fun id => id ∈ requested ∧ id ∉ current
  detached : changes.detached = []

variable {requested : List Value} {changes noted : SyncChanges} {next : LocalStore}

theorem Synced.congr
    (h : Synced p key owner related current requested changes store)
    {all : List Value} (hsame : ∀ id, id ∈ requested ↔ id ∈ all) :
    Synced p key owner related current all changes store where
  holds := h.holds.congr fun id => or_congr_right (hsame id)
  attached := h.attached.congr fun id => and_congr_left' (hsame id)
  detached := h.detached

/-- A requested key that is attached already is none to note. -/
theorem Synced.present
    (h : Synced p key owner related current requested changes store)
    (hcurrent : id ∈ current)
    (hholds : p.Holds key owner related
      (fun other => other ∈ current ∨ other ∈ requested) next)
    (hattached : noted.attached = changes.attached)
    (hdetached : noted.detached = changes.detached) :
    Synced p key owner related current (requested ++ [id]) noted next where
  holds := hholds.congr fun other => by
    have hknown : other = id → other ∈ current := fun heq => heq ▸ hcurrent
    rw [List.mem_append, List.mem_singleton]
    tauto
  attached := hattached ▸ h.attached.congr fun other => by
    have hknown : other = id → other ∈ current := fun heq => heq ▸ hcurrent
    rw [List.mem_append, List.mem_singleton]
    tauto
  detached := hdetached.trans h.detached

/-- A requested key that is not attached is inserted and noted. -/
theorem Synced.missing
    (h : Synced p key owner related current requested changes store)
    (hnew : id ∉ requested) (hmissing : id ∉ current)
    (hholds : p.Holds key owner related
      (fun other => (other ∈ current ∨ other ∈ requested) ∨ other = id) next) :
    Synced p key owner related current (requested ++ [id])
      { changes with attached := changes.attached ++ [id] } next where
  holds :=
    hholds.congr fun other => by rw [List.mem_append, List.mem_singleton, or_assoc]
  attached := (h.attached.concat fun hold => hnew hold.1).congr fun other => by
    have hother : other = id → other ∉ current := fun heq => heq ▸ hmissing
    rw [List.mem_append, List.mem_singleton]
    tauto
  detached := h.detached

/-- One entry is brought in line by at most one command; the rest are
synchronised behind it. -/
theorem syncEntries_step (hlocal : s.backend = LocalStore.backend)
    (h : p.Mapped s.grammar key owner) (hid : related.has id = true)
    (hextra : Fits s.grammar p extra)
    (hsynced : Synced p key owner related current requested changes store)
    (rest : List (Value × Pairs)) :
    ∃ seen noted next,
      s.syncEntries p key current requested changes ((id, extra) :: rest) store =
          s.syncEntries p key current seen noted rest next ∧
        (∀ other, other ∈ seen ↔ other ∈ requested ∨ other = id) ∧
        Synced p key owner related current seen noted next := by
  have hseen (other : Value) : other ∈ requested ++ [id] ↔
      other ∈ requested ∨ other = id := by
    rw [List.mem_append, List.mem_singleton]
  rw [syncEntries]
  by_cases hagain : id ∈ requested
  · rw [if_pos ((contains_iff_mem hid).mpr hagain)]
    exact ⟨requested, changes, store, rfl,
      fun other => (or_iff_left_of_imp fun heq => heq ▸ hagain).symm, hsynced⟩
  rw [if_neg fun hcontained => hagain ((contains_iff_mem hid).mp hcontained)]
  dsimp only
  by_cases hcurrent : id ∈ current
  · rw [(contains_iff_mem hid).mpr hcurrent, Bool.not_true,
      if_neg Bool.false_ne_true]
    cases extra.isEmpty with
    | true =>
      exact ⟨_, changes, store, rfl, hseen,
        hsynced.present hcurrent hsynced.holds rfl rfl⟩
    | false =>
      obtain ⟨count, next, hupdate, hnext⟩ :=
        updatePivot_ok hlocal h id hextra hsynced.holds
      exact ⟨_, { changes with updated := changes.updated ++ [id] }, next,
        bind_ok (discard_ok hupdate), hseen, hsynced.present hcurrent hnext rfl rfl⟩
  · have hmissing : current.contains id = false := by
      rw [← Bool.not_eq_true, contains_iff_mem hid]
      exact hcurrent
    obtain ⟨next, hinsert, hnext⟩ :=
      insertPivot_ok hlocal h hid hextra hsynced.holds
    rw [hmissing, Bool.not_false, if_pos rfl]
    exact ⟨_, _, next, bind_ok hinsert, hseen,
      hsynced.missing hagain hcurrent hnext⟩

/-- Entries are synchronised one after another. -/
theorem syncEntries_ok (hlocal : s.backend = LocalStore.backend)
    (h : p.Mapped s.grammar key owner) {entries : List (Value × Pairs)}
    (hentries : ∀ entry ∈ entries,
      related.has entry.1 = true ∧ Fits s.grammar p entry.2)
    (hsynced : Synced p key owner related current requested changes store) :
    ∃ all noted after, s.syncEntries p key current requested changes entries store =
        (.ok (all, noted), after) ∧
      (∀ id, id ∈ all ↔ id ∈ requested ∨ id ∈ entries.map Prod.fst) ∧
      Synced p key owner related current all noted after := by
  induction entries generalizing requested changes store with
  | nil => exact ⟨requested, changes, store, rfl, by simp, hsynced⟩
  | cons entry rest ih =>
    obtain ⟨⟨hid, hextra⟩, hrest⟩ := List.forall_mem_cons.mp hentries
    obtain ⟨seen, noted, next, hentry, hseen, hnext⟩ :=
      syncEntries_step hlocal h hid hextra hsynced rest
    obtain ⟨all, last, after, hsync, hall, hafter⟩ := ih hrest hnext
    refine ⟨all, last, after, hentry.trans hsync,
      fun other => (hall other).trans ?_, hafter⟩
    rw [hseen, List.map_cons, List.mem_cons, or_assoc]

/-- How far some requested keys are sorted by whether they are attached. -/
structure Toggled (current requested : List Value) (changes : SyncChanges) :
    Prop where
  attached : ListsEach changes.attached fun id => id ∈ requested ∧ id ∉ current
  detached : ListsEach changes.detached fun id => id ∈ requested ∧ id ∈ current

/-- Each requested key is sorted once. -/
theorem Toggled.step (h : Toggled current requested changes)
    (hid : related.has id = true) :
    Toggled current (requested ++ [id]) (if changes.attached.contains id ||
      changes.detached.contains id then changes else if current.contains id then
        { changes with detached := changes.detached ++ [id] }
        else { changes with attached := changes.attached ++ [id] }) := by
  have hseen : (changes.attached.contains id || changes.detached.contains id) =
        true ↔ id ∈ requested := by
    rw [Bool.or_eq_true, contains_iff_mem hid, contains_iff_mem hid,
      h.attached.2, h.detached.2]
    tauto
  have hsplit (other : Value) : other ∈ requested ++ [id] ↔
      other ∈ requested ∨ other = id := by
    rw [List.mem_append, List.mem_singleton]
  by_cases hagain : id ∈ requested
  · rw [if_pos (hseen.mpr hagain)]
    have hsame (other : Value) : other ∈ requested ↔ other ∈ requested ++ [id] := by
      have hknown : other = id → other ∈ requested := fun heq => heq ▸ hagain
      rw [hsplit]
      tauto
    exact ⟨h.attached.congr fun other => and_congr_left' (hsame other),
      h.detached.congr fun other => and_congr_left' (hsame other)⟩
  · rw [if_neg fun hcontained => hagain (hseen.mp hcontained)]
    by_cases hcurrent : id ∈ current
    · rw [if_pos ((contains_iff_mem hid).mpr hcurrent)]
      have hknown (other : Value) : other = id → other ∈ current :=
        fun heq => heq ▸ hcurrent
      constructor
      · refine h.attached.congr fun other => ?_
        have := hknown other
        rw [hsplit]
        tauto
      · refine (h.detached.concat fun hold => hagain hold.1).congr fun other => ?_
        have := hknown other
        rw [hsplit]
        tauto
    · rw [if_neg fun hcontained => hcurrent ((contains_iff_mem hid).mp hcontained)]
      have hmissing (other : Value) : other = id → other ∉ current :=
        fun heq => heq ▸ hcurrent
      constructor
      · refine (h.attached.concat fun hold => hagain hold.1).congr fun other => ?_
        have := hmissing other
        rw [hsplit]
        tauto
      · refine h.detached.congr fun other => ?_
        have := hmissing other
        rw [hsplit]
        tauto

theorem toggled_toggled (hids : ∀ id ∈ ids, related.has id = true) :
    Toggled current ids (toggled current ids) := by
  have hfold (requested : List Value) (changes : SyncChanges)
      (h : Toggled current requested changes) : Toggled current (requested ++ ids)
      (ids.foldl (fun changes id =>
        if changes.attached.contains id || changes.detached.contains id then changes
        else if current.contains id then
          { changes with detached := changes.detached ++ [id] }
        else { changes with attached := changes.attached ++ [id] }) changes) := by
    induction ids generalizing changes requested with
    | nil => simpa using h
    | cons id rest ih =>
      obtain ⟨hid, hrest⟩ := List.forall_mem_cons.mp hids
      have hnext := ih hrest _ _ (h.step hid)
      rwa [List.append_assoc, List.singleton_append] at hnext
  exact hfold [] {} ⟨listsEach_nil (by simp), listsEach_nil (by simp)⟩

/-! ## The operations -/

/-- The related keys that are read from a store are those of a description, each
once. -/
def Shows (s : Session LocalStore) (p : Pivot) (store : LocalStore)
    (attached : Value → Prop) : Prop :=
  ∃ ids last, s.currentIds p store = (.ok ids, last) ∧ ListsEach ids attached

theorem shows_of_holds (hlocal : s.backend = LocalStore.backend)
    (h : p.Mapped s.grammar key owner)
    (hholds : p.Holds key owner related attached store) :
    s.Shows p store attached := by
  obtain ⟨ids, last, hread, -, hids⟩ := currentIds_ok hlocal h hholds
  exact ⟨ids, last, hread, hids⟩

/-- The entries of a synchronisation are brought in line before others are
detached. -/
theorem syncAll_ok (hlocal : s.backend = LocalStore.backend)
    (h : p.Mapped s.grammar key owner)
    (hholds : p.Holds key owner related (· ∈ current) next)
    {entries : List (Value × Pairs)}
    (hentries : ∀ entry ∈ entries,
      related.has entry.1 = true ∧ Fits s.grammar p entry.2) :
    ∃ all noted after, s.syncEntries p key current [] {} entries next =
        (.ok (all, noted), after) ∧ (∀ id, id ∈ all ↔ id ∈ entries.map Prod.fst) ∧
      Synced p key owner related current (entries.map Prod.fst) noted after := by
  have hstart : Synced p key owner related current [] {} next :=
    ⟨hholds.congr fun id => by simp, listsEach_nil (by simp), rfl⟩
  obtain ⟨all, noted, after, hsync, hall, hafter⟩ :=
    syncEntries_ok hlocal h hentries hstart
  have hrequested (id : Value) : id ∈ all ↔ id ∈ entries.map Prod.fst := by
    simpa using hall id
  exact ⟨all, noted, after, hsync, hrequested, hafter.congr hrequested⟩

/-- A synchronisation that is not to detach adds the requested keys. -/
theorem sync_keeping_ok (hlocal : s.backend = LocalStore.backend)
    (h : p.Mapped s.grammar key owner)
    (hread : s.currentIds p store = (.ok current, next))
    (hholds : p.Holds key owner related (· ∈ current) next)
    {entries : List (Value × Pairs)}
    (hentries : ∀ entry ∈ entries,
      related.has entry.1 = true ∧ Fits s.grammar p entry.2) :
    ∃ changes after, s.sync p entries false store = (.ok changes, after) ∧
      p.Holds key owner related
        (fun id => id ∈ current ∨ id ∈ entries.map Prod.fst) after ∧
      ListsEach changes.attached
        (fun id => id ∈ entries.map Prod.fst ∧ id ∉ current) ∧
      changes.detached = [] := by
  obtain ⟨all, noted, after, hsync, -, hafter⟩ :=
    syncAll_ok hlocal h hholds hentries
  refine ⟨noted, after, ?_, hafter.holds, hafter.attached, hafter.detached⟩
  unfold sync
  rw [bind_requireKey h.parentKey, bind_ok hread, bind_ok hsync]
  rfl

/-- A synchronisation that is to detach leaves the requested keys. -/
theorem sync_detaching_ok (hlocal : s.backend = LocalStore.backend)
    (h : p.Mapped s.grammar key owner)
    (hread : s.currentIds p store = (.ok current, next)) (hnodup : current.Nodup)
    (hholds : p.Holds key owner related (· ∈ current) next)
    {entries : List (Value × Pairs)}
    (hentries : ∀ entry ∈ entries,
      related.has entry.1 = true ∧ Fits s.grammar p entry.2) :
    ∃ changes after, s.sync p entries true store = (.ok changes, after) ∧
      p.Holds key owner related (· ∈ entries.map Prod.fst) after ∧
      ListsEach changes.attached
        (fun id => id ∈ entries.map Prod.fst ∧ id ∉ current) ∧
      ListsEach changes.detached
        (fun id => id ∈ current ∧ id ∉ entries.map Prod.fst) := by
  obtain ⟨all, noted, after, hsync, hall, hafter⟩ :=
    syncAll_ok hlocal h hholds hentries
  have hremoved : ListsEach (current.filter fun id => !all.contains id)
      fun id => id ∈ current ∧ id ∉ entries.map Prod.fst := by
    refine ⟨hnodup.filter _,
      fun id => List.mem_filter.trans (and_congr_right fun hid => ?_)⟩
    rw [Bool.not_eq_true', ← Bool.not_eq_true, contains_iff_mem (hholds.has hid),
      hall]
  unfold sync
  rw [bind_requireKey h.parentKey, bind_ok hread, bind_ok hsync]
  dsimp only
  rw [Bool.not_true, if_neg Bool.false_ne_true]
  cases hempty : (current.filter fun id => !all.contains id).isEmpty with
  | true =>
    rw [List.isEmpty_iff.mp hempty] at hremoved
    refine ⟨noted, after, rfl,
      hafter.holds.congr fun id => or_iff_right_of_imp fun hid => ?_,
      hafter.attached, hafter.detached ▸ hremoved⟩
    exact Classical.byContradiction fun hother =>
      List.not_mem_nil ((hremoved.2 id).mpr ⟨hid, hother⟩)
  | false =>
    have hkinds : ∀ id ∈ current.filter fun id => !all.contains id,
        related.has id = true :=
      fun id hid => hholds.has (List.mem_of_mem_filter hid)
    obtain ⟨count, last, hdelete, hlast⟩ :=
      deletePivot_ok hlocal h hkinds hafter.holds
    rw [if_neg Bool.false_ne_true, bind_ok (discard_ok hdelete)]
    refine ⟨_, last, rfl, hlast.congr fun id => ?_, hafter.attached, hremoved⟩
    rw [hremoved.2]
    tauto

/-- A toggle detaches the requested keys that are attached and attaches the
others. -/
theorem toggle_ok (hlocal : s.backend = LocalStore.backend)
    (h : p.Mapped s.grammar key owner)
    (hread : s.currentIds p store = (.ok current, next))
    (hholds : p.Holds key owner related (· ∈ current) next)
    (hids : ∀ id ∈ ids, related.has id = true) :
    ∃ changes after, s.toggle p ids store = (.ok changes, after) ∧
      p.Holds key owner related
        (fun id => id ∈ current ∧ id ∉ ids ∨ id ∈ ids ∧ id ∉ current) after ∧
      ListsEach changes.attached (fun id => id ∈ ids ∧ id ∉ current) ∧
      ListsEach changes.detached (fun id => id ∈ ids ∧ id ∈ current) := by
  have htoggled : Toggled current ids (toggled current ids) := toggled_toggled hids
  have hdetached : ∀ id ∈ (toggled current ids).detached, related.has id = true :=
    fun id hid => hids id ((htoggled.detached.2 id).mp hid).1
  have hattached : ∀ id ∈ (toggled current ids).attached, related.has id = true :=
    fun id hid => hids id ((htoggled.attached.2 id).mp hid).1
  obtain ⟨count, left, hdelete, hleft⟩ := deletePivot_ok hlocal h hdetached hholds
  obtain ⟨after, hinsert, hafter⟩ :=
    insertPivots_ok hlocal h hattached (List.forall_mem_nil _) hleft
  unfold toggle
  rw [bind_requireKey h.parentKey, bind_ok hread, bind_ok (discard_ok hdelete),
    bind_ok hinsert]
  refine ⟨_, after, rfl, hafter.congr fun id => ?_, htoggled.attached,
    htoggled.detached⟩
  rw [htoggled.attached.2, htoggled.detached.2]
  tauto

/-- The operations on a many-to-many relation are set operations on the keys
that are attached to its parent. Each of them succeeds. To attach keys adds them
to the current ones; to detach keys takes them away; to detach all leaves none.
A synchronisation leaves the requested keys, or adds them if it is not to
detach, and a toggle leaves the keys that were either attached or requested;
both report which keys they attached and detached, each once. To set extra
columns changes nothing. Keys may be requested more than once, and the pivot
table may hold any other rows. -/
theorem pivot_changes_are_set_operations (s : Session LocalStore)
    (hlocal : s.backend = LocalStore.backend) (p : Pivot) (key : Value)
    (owner related : KeyKind) (hmapped : p.Mapped s.grammar key owner)
    (store : LocalStore) (rows : List Row)
    (htable : store.database.tables.get? (columnOf p.table.table) =
      some ⟨p.keyColumns, rows⟩) (htyped : p.Typed owner related rows) :
    ∃ current last, s.currentIds p store = (.ok current, last) ∧ current.Nodup ∧
      (∀ ids : List Value, (∀ id ∈ ids, related.has id = true) →
        (∀ extra, Fits s.grammar p extra → ∃ after, s.attach p ids extra store =
            (.ok (), after) ∧ s.Shows p after fun id => id ∈ current ∨ id ∈ ids) ∧
          (∃ count after, s.detach p ids store = (.ok count, after) ∧
            s.Shows p after fun id => id ∈ current ∧ id ∉ ids) ∧
          ∃ changes after, s.toggle p ids store = (.ok changes, after) ∧ s.Shows p
              after (fun id => id ∈ current ∧ id ∉ ids ∨ id ∈ ids ∧ id ∉ current) ∧
            ListsEach changes.attached (fun id => id ∈ ids ∧ id ∉ current) ∧
            ListsEach changes.detached fun id => id ∈ ids ∧ id ∈ current) ∧
      (∃ count after, s.detachAll p store = (.ok count, after) ∧
        s.Shows p after fun _ => False) ∧
      (∀ entries : List (Value × Pairs), (∀ entry ∈ entries,
          related.has entry.1 = true ∧ Fits s.grammar p entry.2) →
        (∃ changes after, s.sync p entries true store = (.ok changes, after) ∧
          s.Shows p after (· ∈ entries.map Prod.fst) ∧ ListsEach changes.attached
            (fun id => id ∈ entries.map Prod.fst ∧ id ∉ current) ∧
          ListsEach changes.detached
            fun id => id ∈ current ∧ id ∉ entries.map Prod.fst) ∧
          ∃ changes after, s.sync p entries false store = (.ok changes, after) ∧
            s.Shows p after (fun id => id ∈ current ∨ id ∈ entries.map Prod.fst) ∧
            ListsEach changes.attached (fun id => id ∈ entries.map Prod.fst ∧
                id ∉ current) ∧ changes.detached = []) ∧
      ∀ id extra, Fits s.grammar p extra →
        ∃ count after, s.updatePivot p id extra store = (.ok count, after) ∧
          s.Shows p after (· ∈ current) := by
  have hstart : p.Holds key owner related (p.Attached key rows) store :=
    ⟨rows, htable, htyped, fun _ => Iff.rfl⟩
  obtain ⟨current, next, hread, hnext, hcurrent⟩ :=
    currentIds_ok hlocal hmapped hstart
  have hstore : p.Holds key owner related (· ∈ current) store :=
    hstart.congr fun id => (hcurrent.2 id).symm
  have hleft : p.Holds key owner related (· ∈ current) next :=
    hnext.congr fun id => (hcurrent.2 id).symm
  have hshows {attached : Value → Prop} {store : LocalStore}
      (hholds : p.Holds key owner related attached store) :
      s.Shows p store attached :=
    shows_of_holds hlocal hmapped hholds
  refine ⟨current, next, hread, hcurrent.1,
    fun ids hids => ⟨fun extra hextra => ?_, ?_, ?_⟩, ?_,
    fun entries hentries => ⟨?_, ?_⟩, fun id extra hextra => ?_⟩
  · obtain ⟨after, hinsert, hafter⟩ :=
      insertPivots_ok hlocal hmapped hids hextra hstore
    exact ⟨after, (bind_requireKey hmapped.parentKey _ _ _).trans hinsert,
      hshows hafter⟩
  · obtain ⟨count, after, hdelete, hafter⟩ :=
      deletePivot_ok hlocal hmapped hids hstore
    exact ⟨count, after, (bind_requireKey hmapped.parentKey _ _ _).trans hdelete,
      hshows hafter⟩
  · obtain ⟨changes, after, htoggle, hafter, hchanges⟩ :=
      toggle_ok hlocal hmapped hread hleft hids
    exact ⟨changes, after, htoggle, hshows hafter, hchanges⟩
  · obtain ⟨count, after, hdelete, hafter⟩ := deleteAll_ok hlocal hmapped hstore
    exact ⟨count, after, (bind_requireKey hmapped.parentKey _ _ _).trans hdelete,
      hshows hafter⟩
  · obtain ⟨changes, after, hsync, hafter, hchanges⟩ :=
      sync_detaching_ok hlocal hmapped hread hcurrent.1 hleft hentries
    exact ⟨changes, after, hsync, hshows hafter, hchanges⟩
  · obtain ⟨changes, after, hsync, hafter, hchanges⟩ :=
      sync_keeping_ok hlocal hmapped hread hleft hentries
    exact ⟨changes, after, hsync, hshows hafter, hchanges⟩
  · obtain ⟨count, after, hupdate, hafter⟩ :=
      updatePivot_ok hlocal hmapped id hextra hstore
    exact ⟨count, after, hupdate, hshows hafter⟩

/-! ### The roles of a user -/

def rolesSession : Session LocalStore := .new {} LocalStore.backend

/-- The active roles of the first user. -/
def userRoles : Pivot where
  parent := (Record.new { name := "User", table := "users" }).put "id" (.int 1)
  name := "roles"
  table :=
    { related := "Role", table := "role_user", foreignPivotKey := "user_id"
      relatedPivotKey := "role_id", pivotColumns := ["level"]
      pivotWheres := [("active", .bool true)] }

/-- The first user has an active role and one that is not, and another user has
a role. -/
def roleRows : List Row :=
  [.ofList [("user_id", .int 1), ("role_id", .int 10), ("active", .bool true)],
    .ofList [("user_id", .int 1), ("role_id", .int 11), ("active", .bool false)],
    .ofList [("user_id", .int 2), ("role_id", .int 12), ("active", .bool true)]]

def rolesStore : LocalStore where
  database :=
    { tables := (∅ : Tables).insert "role_user" ⟨["user_id", "role_id"], roleRows⟩ }

/-- The role that is not active is attached by writing over its row, once. -/
theorem pivot_changes_are_set_operations_roles :
    ∃ changes after, rolesSession.sync userRoles
        (plainEntries [.int 11, .int 12, .int 11]) true rolesStore =
        (.ok changes, after) ∧
      rolesSession.Shows userRoles after (· ∈ [.int 11, .int 12, .int 11]) := by
  have hnames : ∀ name ∈ ["user_id", "role_id", "level", "active"],
      rolesSession.grammar.NamesColumn name := by
    have hreadable : ∀ name ∈ ["user_id", "role_id", "level", "active"],
        rolesSession.grammar.ReadablePath name := by decide
    have hsingle : ∀ name ∈ ["user_id", "role_id", "level", "active"],
        columnOf name = name := by
      decide
    exact fun name hname => ⟨(hreadable name hname).readsBack, hsingle name hname⟩
  have hcolumns : userRoles.columns = ["user_id", "role_id", "level"] := by decide
  have hmapped : userRoles.Mapped rolesSession.grammar (.int 1) .int := by
    refine ⟨Grammar.ReadableTable.readsBack (by decide), ?_, by decide,
      by decide, rfl, rfl, List.forall_mem_singleton.mpr ⟨hnames _ (by decide),
          by decide, rfl, by decide⟩, by decide⟩
    rw [hcolumns]
    exact fun name hname => hnames name (List.mem_append_left ["active"] hname)
  have htyped : userRoles.Typed .int .int roleRows := by
    unfold Pivot.Typed
    decide
  have hentries : ∀ entry ∈ plainEntries [.int 11, .int 12, .int 11],
      KeyKind.int.has entry.1 = true ∧
        Fits rolesSession.grammar userRoles entry.2 := by
    simp [plainEntries, KeyKind.has, Fits]
  obtain ⟨current, last, -, -, -, -, hsync, -⟩ :=
    pivot_changes_are_set_operations rolesSession rfl userRoles
      (.int 1) .int .int hmapped rolesStore roleRows rfl htyped
  obtain ⟨⟨changes, after, hrun, hshows, -⟩, -⟩ :=
    hsync (plainEntries [.int 11, .int 12, .int 11]) hentries
  exact ⟨changes, after, hrun, hshows⟩

end Session

end EntityMapper
