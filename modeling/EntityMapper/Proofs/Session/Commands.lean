import EntityMapper.Proofs.Session.Effects
import EntityMapper.Proofs.Store.ConditionalWrite
import EntityMapper.Proofs.Store.Selection

/-!
# Commands on a local store

What a compiled command does to the tables of a local store, for the commands
that a session sends on its own account: the insertion of a row, an update or a
deletion without write conditions, and a query without joins and groups. Each of
them compiles in both dialects, is read back, and is run on the rows that its
predicates select. A query leaves the tables as they are.
-/

namespace EntityMapper

/-! ## Conjunctions -/

/-- A list without an element that starts a part is one part. -/
theorem cutBefore_whole {α : Type} {starts : α → Bool} {x : α} {rest : List α}
    (h : ∀ y ∈ rest, starts y = false) :
    cutBefore starts (x :: rest) = [x :: rest] := by
  induction rest generalizing x with
  | nil => rfl
  | cons y rest ih =>
    obtain ⟨hy, hrest⟩ := List.forall_mem_cons.mp h
    calc
      cutBefore starts (x :: y :: rest) =
          consFirst x (cutBefore starts (y :: rest)) := by
        rw [cutBefore, hy, if_neg Bool.false_ne_true]
      _ = consFirst x [y :: rest] := by rw [ih hrest]

/-- Predicates joined by AND select the rows of which all their conditions hold. -/
theorem selects_and {predicates : List Predicate}
    (h : ∀ p ∈ predicates, p.connector = .and) (row : Row) :
    selects predicates row = predicates.all fun p => p.condition.holds row := by
  cases predicates with
  | nil => rfl
  | cons p rest =>
    have hwhole : andBlocks (p :: rest) = [p :: rest] :=
      cutBefore_whole fun q hq => by
        rw [Predicate.startsBlock, h q (List.mem_cons_of_mem p hq)]
        rfl
    rw [selects, listHolds, hwhole]
    simp

/-- A predicate on its own asks for its condition. -/
theorem holds_alone (c : Condition) (row : Row) :
    ([⟨.and, c⟩] : List Predicate).all (fun p => p.condition.holds row) =
      c.holds row := by
  rw [List.all_cons, List.all_nil, Bool.and_true]

theorem selects_alone (c : Condition) (row : Row) :
    selects [⟨.and, c⟩] row = c.holds row :=
  (selects_and (List.forall_mem_singleton.mpr rfl) row).trans (holds_alone c row)

/-! ## Statements on a table -/

namespace Store

/-- A row that takes over values, the columns under their own names. -/
def overwritten (row : Row) (values : Pairs) : Row :=
  row.extend ⟨values.map fun pair => (columnOf pair.1, pair.2)⟩

/-- The assignments of an update, with their values bound first, overwrite a row. -/
theorem assign_params (values : Pairs) (more : List Value) (row : Row) :
    assign (values.map Prod.snd ++ more)
      (values.zipIdx.map fun (pair, i) => (columnOf pair.1, .param i)) row =
        overwritten row values := by
  have hfold (before : List Value) (values : Pairs) (row : Row) :
      assign (before ++ values.map Prod.snd ++ more)
          ((values.zipIdx before.length).map fun (pair, i) =>
            (columnOf pair.1, .param i)) row = overwritten row values := by
    induction values generalizing before row with
    | nil => rfl
    | cons pair rest ih =>
      have hnext := ih (before ++ [pair.2]) (row.insert (columnOf pair.1) pair.2)
      rw [List.length_append, List.length_singleton] at hnext
      have hvalue : resolve (before ++ (pair :: rest).map Prod.snd ++ more)
            (.param before.length) = pair.2 := by
        simp [resolve]
      simp only [List.map_cons, List.zipIdx_cons, assign, List.foldl_cons,
        overwritten, NameMap.extend] at hnext hvalue ⊢
      rw [hvalue]
      simpa using hnext
  exact hfold [] values row

/-- The row of an insertion holds the values under the columns of their names. -/
theorem insertedRow_image (q : Intent) (values : Pairs) :
    insertedRow (Grammar.insertImage q values) (values.map Prod.snd) =
      .ofList (values.map fun pair => (columnOf pair.1, pair.2)) := by
  rw [insertedRow, Grammar.insertImage]
  apply congrArg
  apply List.ext_getElem
  · simp
  · intro i hi _
    have hlength : i < values.length := by simpa using hi
    simp [resolve, hlength]

/-- A write to a table that there is. -/
theorem write_ok {tables : Tables} {name : String} {table after : Table}
    {result : ResultSet} {run : Table → Except StoreError (ResultSet × Table)}
    (htable : tables.get? name = some table)
    (hrun : run table = .ok (result, after)) :
    write tables name run = .ok (result, NameMap.insert tables name after) := by
  rw [write, Tables.table, htable]
  simp only [bind, Except.bind, hrun]
  rfl

end Store

namespace Grammar

variable {g : Grammar} {q : Intent} {r : Request}

/-! ## Compiled commands on tables -/

theorem params_insert {values : Pairs} {c : Command}
    (hc : g.insert q values = .ok c) : c.params = values.map Prod.snd := by
  obtain ⟨-, ⟨-, rfl⟩ | ⟨-, -, rfl⟩⟩ := insert_eq_ok hc
  · simp [insertBody, Fragment.command]
  · simp [insertBody, Fragment.command]

/-- An insertion writes its row into the table by its key. -/
theorem evaluate_insert {table : String} {values : Pairs}
    (htable : g.ReadsBackTable table) (hsome : values ≠ [])
    (hcolumns : ∀ pair ∈ values, g.ReadsBack pair.1) :
    ∃ c, g.insert (.new table) values = .ok c ∧
      ∀ tables, Database.evaluate tables c = Store.write tables (columnOf table)
          fun t => (t.upsert (columnOf table) (.ofList
                (values.map fun pair => (columnOf pair.1, pair.2)))).map fun t =>
          (.affected 1, t) := by
  obtain ⟨c, hc⟩ : ∃ c, g.insert (.new table) values = .ok c := by
    have hvalues : values.isEmpty = false := by simpa using hsome
    unfold insert
    rw [hvalues]
    cases g.dialect <;> exact ⟨_, rfl⟩
  have hparams := params_insert hc
  have hparse := parse_insert_readsBack (q := .new table) htable hcolumns hc
  refine ⟨c, hc, fun tables => ?_⟩
  rw [Database.evaluate_of_parse tables hparse, hparams, Store.execute]
  have hinsert (t : Table) : Store.insert t (insertImage (.new table) values)
      (values.map Prod.snd) = (t.upsert (columnOf table)
        (.ofList (values.map fun pair => (columnOf pair.1, pair.2)))).map fun t =>
          (.affected 1, t) := by
    rw [Store.insert, Store.insertedRow_image]
    rfl
  simp only [hinsert]
  rfl

/-- A write of whole rows without write conditions is on the rows that its
predicates select. -/
theorem evaluate_write (hr : WholeWrite q r) (h : g.ReadsWrite q r)
    (hfree : q.ifConditions = []) :
    ∃ c, g.compile q r = .ok c ∧ ∀ tables, Database.evaluate tables c =
      Store.write tables (columnOf q.table) fun t =>
        .ok (.affected (t.rows.filter (selects q.wheres)).length,
          { t with rows := written (r.bindings q) t r (selects q.wheres) }) := by
  obtain ⟨c, hc, hparams, hparse⟩ := parse_write hr h
  obtain ⟨hfirst, -⟩ := Store.boundAt_append (boundAt_write hr)
  have hwhere : ∀ p ∈ q.wheres, p.condition.rawText? = none :=
    fun p hp => (h.wheres p hp).raw
  have hfilter (n : Nat) : g.filterImage n q = whereImage n q.wheres := by
    unfold filterImage foldedImage
    cases g.dialect with
    | cql => rfl
    | sql =>
      cases hwheres : q.wheres with
      | nil => simp [hfree, whereImage]
      | cons p rest => simp [hfree]
  have hconditions (n : Nat) : g.conditionsImage n q = none := by
    unfold conditionsImage
    cases g.dialect <;> simp [hfree, whereImage]
  have hpasses :
      Store.passes (r.bindings q) (whereImage r.assigned.length q.wheres) =
        selects q.wheres := funext fun row => Store.passes_whereImage hwhere hfirst
  refine ⟨c, hc, fun tables => ?_⟩
  calc
    Database.evaluate tables c =
        Store.write tables (columnOf q.table) fun t =>
          Store.guardedWrite t (whereImage r.assigned.length q.wheres) none
            (r.bindings q)
            (.ok (written (r.bindings q) t r (selects q.wheres))) := by
      rw [Database.evaluate_of_parse tables hparse, execute_write hr, hparams,
        hfilter, hconditions, hpasses]
    _ = Store.write tables (columnOf q.table) fun t =>
          .ok (.affected (t.rows.filter (selects q.wheres)).length,
            { t with rows := written (r.bindings q) t r (selects q.wheres) }) := by
      apply congrArg
      funext t
      rw [Store.guardedWrite, hpasses]
      rfl

/-- A query without groups, an order and an offset gives rows that its
predicates select. -/
theorem evaluate_select {projection : Projection} (h : g.ReadsQuery q)
    (hgroups : q.groups = []) (horders : q.orders = []) (hoffset : q.offset = none)
    (hlist : WrittenList (g.selection q.selection).toList projection)
    (hcount : projection ≠ .count) :
    ∃ c, g.select q = .ok c ∧ ∀ tables, Database.evaluate tables c =
      (tables.table (columnOf q.table)).map fun t =>
        (.ofRows (Store.shown projection (Store.limited (q.limit.map UInt64.toNat)
          (t.rows.filter (selects q.wheres)))), tables) := by
  obtain ⟨c, hc⟩ : ∃ c, g.select q = .ok c := by
    unfold select
    rw [h.joins, h.havings, hoffset]
    cases g.dialect <;> exact ⟨_, rfl⟩
  have hparams : c.params = Predicate.allBindings q.wheres := by
    rcases select_eq_ok hc with ⟨-, -, -, -, rfl⟩ | ⟨-, rfl⟩
    · simp [Fragment.command]
    · simp [Fragment.command, h.havings, Predicate.allBindings]
  have hwhere : ∀ p ∈ q.wheres, p.condition.rawText? = none :=
    fun p hp => (h.wheres p hp).raw
  have hbound : BoundAt (Predicate.allBindings q.wheres) 0
      (Predicate.allBindings q.wheres) :=
    ⟨[], [], by simp, rfl⟩
  have hpasses :
      Store.passes (Predicate.allBindings q.wheres) (whereImage 0 q.wheres) =
        selects q.wheres := funext fun row => Store.passes_whereImage hwhere hbound
  refine ⟨c, hc, fun tables => ?_⟩
  rw [Database.evaluate_of_parse tables (parse_select_readsBack h hlist hc),
    hparams, Store.execute, Store.select_plain (by simp [selectImage, hgroups])
      (by simp [selectImage, horders]) (by simp [selectImage, hoffset]) hcount]
  simp only [selectImage, hpasses]
  cases tables.table (columnOf q.table) <;> rfl

end Grammar

/-! ## Running commands -/

namespace LocalStore

/-- A store in which a command was run and has left the given tables. -/
def ran (store : LocalStore) (c : Command) (tables : Tables) : LocalStore :=
  { store with database := ⟨tables, store.database.log ++ [c]⟩ }

end LocalStore

namespace Session

variable {s : Session LocalStore} {store : LocalStore} {c : Command}
  {operation : Operation}

open Effect

/-- A command that succeeds on the tables of a local store gives its result and
leaves its tables. -/
theorem run_ok (hlocal : s.backend = LocalStore.backend) {result : ResultSet}
    {tables : Tables}
    (h : Database.evaluate store.database.tables c = .ok (result, tables)) :
    s.run operation c store = (.ok result, store.ran c tables) := by
  rw [run, hlocal]
  simp only [LocalStore.backend, LocalStore.execute, Database.run, h]
  rfl

/-- A command that is refused leaves the tables as they are. -/
theorem run_error (hlocal : s.backend = LocalStore.backend) {e : StoreError}
    (h : Database.evaluate store.database.tables c = .error e) :
    s.run operation c store = (.error (.execution operation e.toBackendError),
      store.ran c store.database.tables) := by
  rw [run, hlocal]
  simp only [LocalStore.backend, LocalStore.execute, Database.run, h]
  rfl

/-- A command succeeds only if it does so on the tables of the local store. -/
theorem run_eq_ok (hlocal : s.backend = LocalStore.backend) {result : ResultSet}
    {after : LocalStore} : s.run operation c store = (.ok result, after) ↔
      ∃ tables, Database.evaluate store.database.tables c = .ok (result, tables) ∧
        after = store.ran c tables := by
  constructor
  · intro h
    cases hevaluate : Database.evaluate store.database.tables c with
    | error e => cases (run_error hlocal hevaluate).symm.trans h
    | ok outcome =>
      obtain ⟨hresult, hafter⟩ :=
        Prod.mk.inj ((run_ok hlocal hevaluate).symm.trans h)
      exact ⟨outcome.2, by rw [← Except.ok.inj hresult], hafter.symm⟩
  · rintro ⟨tables, hevaluate, rfl⟩
    exact run_ok hlocal hevaluate

/-- A command that replaces a table leaves the new one in its place. -/
theorem run_write (hlocal : s.backend = LocalStore.backend) (operation : Operation)
    {result : ResultSet} {name : String} {t : Table}
    (h : Database.evaluate store.database.tables c =
      .ok (result, store.database.tables.insert name t)) :
    ∃ after, s.run operation c store = (.ok result, after) ∧
      after.database.tables.get? name = some t :=
  ⟨_, run_ok hlocal h, NameMap.get?_insert_self ..⟩

/-- A query on a table that there is gives its rows and leaves the tables as
they are. -/
theorem selectRows_ok (hlocal : s.backend = LocalStore.backend) {q : Intent}
    {projection : Projection} (h : s.grammar.ReadsQuery q)
    (hgroups : q.groups = []) (horders : q.orders = []) (hoffset : q.offset = none)
    (hlist : Grammar.WrittenList (s.grammar.selection q.selection).toList
      projection) (hcount : projection ≠ .count) {t : Table}
    (htable : store.database.tables.get? (columnOf q.table) = some t) :
    ∃ c, s.selectRows q store = (.ok (Store.shown projection (Store.limited
          (q.limit.map UInt64.toNat) (t.rows.filter (selects q.wheres)))),
      store.ran c store.database.tables) := by
  obtain ⟨c, hc, hevaluate⟩ :=
    Grammar.evaluate_select h hgroups horders hoffset hlist hcount
  have hresult := hevaluate store.database.tables
  rw [Tables.table, htable] at hresult
  refine ⟨c, ?_⟩
  rw [selectRows, bind_compiled hc, bind_ok (run_ok hlocal hresult)]
  rfl

end Session

end EntityMapper
