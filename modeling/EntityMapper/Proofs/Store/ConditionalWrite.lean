import EntityMapper.Proofs.NameMap
import EntityMapper.Proofs.Query.Folding
import EntityMapper.Store.Database

/-!
# Conditional writes in both dialects

The partitioned dialect keeps the conditions of a write apart from its filter:
the store looks at all targets of the filter and refuses the write as a whole if
one of them fails a condition, or if there is none. The relational dialect has
one filter, so a row that fails a condition is no target. With two targets these
differ, one of them being enough to refuse the write of the other. With at most
one they agree: either the conditions hold of the only target, and then the two
filters pass the same rows, or they do not, and then neither dialect writes
anything.
-/

namespace EntityMapper

/-- Whether a list of predicates selects a row. Without predicates every row is
selected. -/
def selects (predicates : List Predicate) (row : Row) : Bool :=
  predicates.isEmpty || listHolds row predicates

/-- Whether a write is on a row: its predicates and its conditions select it. -/
def Intent.hits (q : Intent) (row : Row) : Bool :=
  selects q.wheres row && selects q.ifConditions row

namespace Store

variable {row : Row} {bound params : List Value} {q : Intent} {n : Nat}

/-! ## What the filters of the two dialects pass -/

theorem passes_whereImage {predicates : List Predicate}
    (hraw : ∀ p ∈ predicates, p.condition.rawText? = none)
    (hbound : BoundAt bound n (Predicate.allBindings predicates)) :
    passes bound (Grammar.whereImage n predicates) row =
      selects predicates row := by
  cases predicates with
  | nil => rfl
  | cons p rest => exact evaluate_wheresFilter hraw hbound

theorem whereBlocks_ne_nil {predicates : List Predicate}
    (hsome : predicates ≠ []) (n : Nat) : whereBlocks n predicates ≠ [] := by
  obtain ⟨p, rest, rfl⟩ := List.exists_cons_of_ne_nil hsome
  rw [whereBlocks, Ne, List.map_eq_nil_iff]
  exact cutBefore_ne_nil _ _ _

/-- The folded filter passes the rows that the predicates and the conditions
select. -/
theorem passes_foldedImage (hwhere : ∀ p ∈ q.wheres, p.condition.rawText? = none)
    (hif : ∀ p ∈ q.ifConditions, p.condition.rawText? = none)
    (hand : ∀ p ∈ q.ifConditions, p.connector = .and)
    (hbound : BoundAt bound n
      (Predicate.allBindings q.wheres ++ Predicate.allBindings q.ifConditions)) :
    passes bound (Grammar.foldedImage n q) row = q.hits row := by
  obtain ⟨hfirst, hsecond⟩ := boundAt_append hbound
  rw [Grammar.length_allBindings] at hsecond
  unfold Grammar.foldedImage Intent.hits
  dsimp only
  by_cases hnone : q.wheres = []
  · rw [if_pos (List.isEmpty_iff.mpr hnone), passes_whereImage hif hsecond, hnone]
    rfl
  by_cases hfree : q.ifConditions = []
  · rw [if_neg (by simpa using hnone), if_pos (List.isEmpty_iff.mpr hfree),
      passes_whereImage hwhere hfirst, hfree]
    exact (Bool.and_true _).symm
  have hwheres : q.wheres.isEmpty = false := by simpa using hnone
  have hconditions : q.ifConditions.isEmpty = false := by simpa using hfree
  have hblock : blockValues row bound
      (whereBlocks (n + Grammar.placeholderSum q.wheres) q.ifConditions) =
        [q.ifConditions.all fun p => p.condition.holds row] :=
    blockValues_conjunctive hfree
      (fun p hp => hand p (List.mem_of_mem_tail hp)) hif hsecond
  have hselects : selects q.ifConditions row =
      q.ifConditions.all fun p => p.condition.holds row := by
    rw [← passes_whereImage hif hsecond, Grammar.whereImage, hconditions,
      if_neg Bool.false_ne_true, passes, wheresFilter,
      evaluate_filterOf_blockValues, hblock]
    simp
  have hlist : (blockValues row bound (whereBlocks n q.wheres)).any id =
      selects q.wheres row := by
    rw [← passes_whereImage hwhere hfirst, Grammar.whereImage, hwheres,
      if_neg Bool.false_ne_true, passes, wheresFilter,
      evaluate_filterOf_blockValues]
  rw [hwheres, hconditions, if_neg Bool.false_ne_true,
    if_neg Bool.false_ne_true, passes]
  refine (evaluate_glue (Grammar.isDisjunctive q.wheres)
      (whereBlocks_ne_nil hnone n) hblock).trans ?_
  rw [hlist, hselects]
  cases hloose : Grammar.isDisjunctive q.wheres with
  | true => simp
  | false =>
    -- Without an OR there is one block, and so none before the last.
    have htail : ∀ p ∈ q.wheres.tail, p.connector = .and := by
      intro p hp
      have hor := List.any_eq_false.mp hloose p hp
      cases hconnector : p.connector with
      | and => rfl
      | or => simp [hconnector] at hor
    rw [blockValues_conjunctive hnone htail hwhere hfirst]
    simp

/-! ## One write under a condition -/

/-- What a write makes of the rows of a table, given which rows it is on. It
looks at no other rows, and on none it changes nothing. -/
structure Acts (t : Table) (act : (Row → Bool) → List Row) : Prop where
  congr : ∀ {on other : Row → Bool}, (∀ row ∈ t.rows, on row = other row) →
    act on = act other
  none : act (fun _ => false) = t.rows

theorem acts_map (t : Table) (change : Row → Row) :
    Acts t fun on => t.rows.map fun row => if on row then change row else row where
  congr h := List.map_congr_left fun row hrow => by rw [h row hrow]
  none := List.map_id t.rows

theorem acts_remove (t : Table) :
    Acts t fun on => t.rows.filter fun row => !on row where
  congr h := List.filter_congr fun row hrow => by rw [h row hrow]
  none := List.filter_eq_self.mpr fun _ _ => rfl

/-- What both dialects report of a write: the number of rows, and what the write
leaves. -/
def outcome {α : Type} (made : ResultSet × α) : Nat × α := (made.1.rowCount, made.2)

variable {t : Table} {act : (Row → Bool) → List Row} {on : Row → Bool}
  {filter conditions : Option Filter}

/-- A write without conditions is on the rows that pass its filter. -/
theorem outcome_unguarded (hacts : Acts t act)
    (hon : ∀ row ∈ t.rows, passes params filter row = on row) :
    (guardedWrite t filter none params (.ok (act (passes params filter)))).map
        outcome = .ok ((t.rows.filter on).length, { t with rows := act on }) := by
  have hrows : t.rows.filter (passes params filter) = t.rows.filter on :=
    List.filter_congr hon
  have hact : act (passes params filter) = act on := hacts.congr hon
  rw [← hrows, ← hact]
  rfl

/-- Conditions that do not hold fail of every target if there is at most one. -/
theorem not_passes_of_not_hold {c : Filter} {targets : List Row}
    (hone : targets.length ≤ 1) (hfail : conditionsHold c targets params = false) :
    ∀ row ∈ targets, evaluate row params c = false := by
  match targets, hone with
  | [], _ => simp
  | [target], _ =>
    have htarget : evaluate target params c = false := by
      simpa [conditionsHold] using hfail
    simpa using htarget

/-- A write under conditions of which the filter passes at most one row is on
the rows that pass the filter and the conditions. -/
theorem outcome_guarded (hacts : Acts t act)
    (hone : (t.rows.filter (passes params filter)).length ≤ 1)
    (hon : ∀ row ∈ t.rows,
      (passes params filter row && passes params conditions row) = on row) :
    (guardedWrite t filter conditions params (.ok (act (passes params filter)))).map
        outcome = .ok ((t.rows.filter on).length, { t with rows := act on }) := by
  cases conditions with
  | none =>
    apply outcome_unguarded hacts
    intro row hrow
    rw [← hon row hrow]
    exact (Bool.and_true _).symm
  | some c =>
    rw [guardedWrite]
    by_cases hhold :
      conditionsHold c (t.rows.filter (passes params filter)) params = true
    · -- The conditions hold of the target, so the write is as if there were none.
      have hall := (Bool.and_eq_true _ _ ▸ hhold).2
      have hsame : ∀ row ∈ t.rows, passes params filter row = on row := by
        intro row hrow
        rw [← hon row hrow]
        apply Bool.eq_self_and.mpr
        intro hpasses
        exact List.all_eq_true.mp hall row (List.mem_filter.mpr ⟨hrow, hpasses⟩)
      rw [if_pos hhold, ← outcome_unguarded hacts hsame]
      rfl
    · -- They fail of the target, if there is one, so no row passes both.
      have hfail := not_passes_of_not_hold hone (Bool.not_eq_true _ ▸ hhold)
      have hnone : ∀ row ∈ t.rows, on row = false := by
        intro row hrow
        rw [← hon row hrow]
        apply Bool.and_eq_false_imp.mpr
        intro hpasses
        exact hfail row (List.mem_filter.mpr ⟨hrow, hpasses⟩)
      have hempty : t.rows.filter on = [] :=
        List.filter_eq_nil_iff.mpr
          fun row hrow => Bool.not_eq_true _ ▸ hnone row hrow
      rw [if_neg hhold, hempty, hacts.congr hnone, hacts.none]
      rfl

/-! ## Writes to the tables -/

variable {tables : Tables} {name : String}

/-- A write to the table of its name has the outcome that it has there. -/
theorem outcome_write {run : Table → Except StoreError (ResultSet × Table)}
    {count : Table → Nat} {after : Table → Table}
    (h : ∀ table, tables.get? name = some table →
      (run table).map outcome = .ok (count table, after table)) :
    (write tables name run).map outcome = (tables.table name).map fun table =>
      (count table, NameMap.insert tables name (after table)) := by
  unfold write Tables.table
  cases htable : tables.get? name with
  | none => rfl
  | some table =>
    have houtcome := h table htable
    cases hrun : run table with
    | error e =>
      rw [hrun] at houtcome
      cases houtcome
    | ok made =>
      rw [hrun] at houtcome
      obtain ⟨hcount, hafter⟩ := Prod.mk.inj (Except.ok.inj houtcome)
      simp [hrun, ← hcount, ← hafter, bind, Except.bind, pure, Except.pure,
        Except.map, outcome]

/-- A deletion of whole rows keeps the rows that do not pass its filter. -/
theorem delete_rows (t : Table) {s : DeleteStatement} (hcolumns : s.columns = [])
    (params : List Value) :
    delete t s params = guardedWrite t s.filter s.conditions params
      (.ok (t.rows.filter fun row => !passes params s.filter row)) := by
  rw [delete, hcolumns, List.isEmpty_nil, if_pos rfl]

end Store

namespace Database

theorem evaluate_of_parse (tables : Tables) {c : Command} {s : Statement}
    (h : ParsedCommand.parse c.text = .ok ⟨s, c.params.length⟩) :
    evaluate tables c = Store.execute tables s c.params := by
  rw [evaluate, h]
  exact if_neg fun hcount => hcount rfl

theorem rowCount_run (db : Database) (c : Command) :
    (db.run c).1.map ResultSet.rowCount =
      ((evaluate db.tables c).map Store.outcome).map Prod.fst := by
  unfold run
  cases evaluate db.tables c <;> rfl

theorem tables_run (db : Database) (c : Command) :
    (db.run c).2.tables = match (evaluate db.tables c).map Store.outcome with
      | .ok (_, tables) => tables
      | .error _ => db.tables := by
  unfold run
  cases evaluate db.tables c <;> rfl

end Database

/-! ## Compiled writes -/

/-- The values that a request assigns to columns of rows that exist. -/
def Request.assigned : Request → Pairs
  | .update values => values
  | .select | .count | .insert _ | .delete => []

/-- A request to write whole rows: to update some columns, without a lifetime,
or to delete rows and not columns in them. -/
def WholeWrite (q : Intent) : Request → Prop
  | .update values => values ≠ [] ∧ q.ttl = none
  | .delete => q.selection.names = []
  | .select | .count | .insert _ => False

/-- What a request makes of the rows of a table, given which rows it is on. -/
def written (params : List Value) (t : Table) : Request → (Row → Bool) → List Row
  | .update values, on =>
    t.rows.map fun row => if on row then
      Store.assign params
        (values.zipIdx.map fun (pair, i) => (columnOf pair.1, .param i)) row
    else row
  | _, on => t.rows.filter fun row => !on row

theorem acts_written (params : List Value) (t : Table) (r : Request) :
    Store.Acts t (written params t r) := by
  cases r with
  | update values => exact Store.acts_map t _
  | _ => exact Store.acts_remove t

namespace Grammar

variable {g : Grammar} {q : Intent} {r : Request}

/-- A write of which the grammar's text conveys the predicates and the
conditions, and of which the names are read back. -/
structure ReadsWrite (g : Grammar) (q : Intent) (r : Request) : Prop where
  table : g.ReadsBackTable q.table
  wheres : ∀ p ∈ q.wheres, g.Conveys p.condition
  ifConditions : ∀ p ∈ q.ifConditions, g.Conveys p.condition
  assigned : ∀ pair ∈ r.assigned, g.ReadsBack pair.1

/-- Either dialect compiles a write of whole rows, and it is read back with the
values it binds. -/
theorem parse_write (hr : WholeWrite q r) (h : g.ReadsWrite q r) :
    ∃ c, g.compile q r = .ok c ∧ c.params = r.bindings q ∧
      ParsedCommand.parse c.text = .ok ⟨g.image q r, c.params.length⟩ := by
  cases r with
  | update values =>
    obtain ⟨c, hc⟩ := exists_update (g := g) hr.1 hr.2
    refine ⟨c, hc, ?_, parse_update_readsBack h.table h.assigned
      (written_conveyed h.wheres h.ifConditions values.length) hc⟩
    obtain ⟨-, -, rfl⟩ := update_eq_ok hc
    simp [Fragment.command, Request.bindings]
  | delete =>
    obtain ⟨c, hc⟩ := exists_delete (g := g) hr
    have hnone : ∀ name ∈ q.selection.names, g.ReadablePath name := by
      rw [show q.selection.names = [] from hr]
      exact List.forall_mem_nil _
    refine ⟨c, hc, ?_, parse_delete_readsBack h.table hnone
      (written_conveyed h.wheres h.ifConditions 0) hc⟩
    obtain ⟨-, rfl⟩ := delete_eq_ok hc
    simp [Fragment.command, Request.bindings]
  | select => exact hr.elim
  | count => exact hr.elim
  | insert values => exact hr.elim

/-- A statement read from such a write is on the rows that its filter passes. -/
theorem execute_write (hr : WholeWrite q r) (tables : Tables)
    (params : List Value) :
    Store.execute tables (g.image q r) params =
      Store.write tables (columnOf q.table) fun t =>
        Store.guardedWrite t (g.filterImage r.assigned.length q)
            (g.conditionsImage r.assigned.length q) params (.ok (written params t
              r (Store.passes params (g.filterImage r.assigned.length q)))) := by
  cases r with
  | update values => rfl
  | delete =>
    have hcolumns :
        (deleteImage q (g.filterImage 0 q) (g.conditionsImage 0 q)).columns = [] :=
      List.map_eq_nil_iff.mpr hr
    exact congrArg (Store.write tables (columnOf q.table))
      (funext fun t => Store.delete_rows t hcolumns params)
  | select => exact hr.elim
  | count => exact hr.elim
  | insert values => exact hr.elim

theorem boundAt_write (hr : WholeWrite q r) :
    BoundAt (r.bindings q) r.assigned.length (Predicate.allBindings q.wheres ++
      Predicate.allBindings q.ifConditions) := by
  cases r with
  | update values =>
    exact ⟨values.map Prod.snd, [], by simp [Request.bindings],
      by simp [Request.assigned]⟩
  | delete => exact ⟨[], [], by simp [Request.bindings], rfl⟩
  | select => exact hr.elim
  | count => exact hr.elim
  | insert values => exact hr.elim

/-- Such a write is on the rows that the predicates and the conditions select.
The partitioned dialect needs for this that the predicates select at most one
row. -/
theorem outcome_compiled (hr : WholeWrite q r) (h : g.ReadsWrite q r)
    (hand : ∀ p ∈ q.ifConditions, p.connector = .and) (tables : Tables)
    (hone : g.dialect = .cql →
      ∀ table, tables.get? (columnOf q.table) = some table →
        (table.rows.filter (selects q.wheres)).length ≤ 1) :
    ∃ c, g.compile q r = .ok c ∧
      (Database.evaluate tables c).map Store.outcome =
        (tables.table (columnOf q.table)).map fun t =>
        ((t.rows.filter q.hits).length, NameMap.insert tables (columnOf q.table)
          { t with rows := written (r.bindings q) t r q.hits }) := by
  obtain ⟨c, hc, hparams, hparse⟩ := parse_write hr h
  have hbound := boundAt_write hr
  obtain ⟨hfirst, hsecond⟩ := Store.boundAt_append hbound
  rw [length_allBindings] at hsecond
  have hwhere : ∀ p ∈ q.wheres, p.condition.rawText? = none :=
    fun p hp => (h.wheres p hp).raw
  have hif : ∀ p ∈ q.ifConditions, p.condition.rawText? = none :=
    fun p hp => (h.ifConditions p hp).raw
  refine ⟨c, hc, ?_⟩
  rw [Database.evaluate_of_parse tables hparse, execute_write hr, hparams]
  apply Store.outcome_write
  intro t ht
  have hacts := acts_written (r.bindings q) t r
  unfold filterImage conditionsImage
  cases hdialect : g.dialect with
  | cql =>
    apply Store.outcome_guarded hacts
    · have hselects : ∀ row ∈ t.rows, Store.passes (r.bindings q)
            (whereImage r.assigned.length q.wheres) row = selects q.wheres row :=
        fun row _ => Store.passes_whereImage hwhere hfirst
      dsimp only
      rw [List.filter_congr hselects]
      exact hone hdialect t ht
    · intro row _
      dsimp only
      rw [Store.passes_whereImage hwhere hfirst,
        Store.passes_whereImage hif hsecond]
      rfl
  | sql =>
    apply Store.outcome_unguarded hacts
    intro row _
    exact Store.passes_foldedImage hwhere hif hand hbound

/-- A write with conditions joined by AND has one effect in both dialects on a
table of which its predicates select at most one row. The tables it leaves are
the same, and so is what it reports: the number of rows that the predicates and
the conditions select, or the error that there is no such table. -/
theorem conditional_write_dialects (keyspace schema : Option String)
    (db : Database) (q : Intent) (r : Request) (hr : WholeWrite q r)
    (hand : ∀ p ∈ q.ifConditions, p.connector = .and)
    (hcql : (⟨.cql, keyspace⟩ : Grammar).ReadsWrite q r)
    (hsql : (⟨.sql, schema⟩ : Grammar).ReadsWrite q r)
    (hone : ∀ table, db.tables.get? (columnOf q.table) = some table →
      (table.rows.filter (selects q.wheres)).length ≤ 1) :
    ∃ c d, (⟨.cql, keyspace⟩ : Grammar).compile q r = .ok c ∧
      (⟨.sql, schema⟩ : Grammar).compile q r = .ok d ∧
      (db.run c).2.tables = (db.run d).2.tables ∧
      (db.run c).1.map ResultSet.rowCount = (db.run d).1.map ResultSet.rowCount ∧
      ∀ table, db.tables.get? (columnOf q.table) = some table →
        (db.run c).1.map ResultSet.rowCount =
          .ok (table.rows.filter q.hits).length := by
  obtain ⟨c, hc, houtcome⟩ := outcome_compiled hr hcql hand db.tables fun _ => hone
  obtain ⟨d, hd, hother⟩ :=
    outcome_compiled hr hsql hand db.tables fun h => nomatch h
  refine ⟨c, d, hc, hd, ?_, ?_, fun table htable => ?_⟩
  · rw [Database.tables_run, Database.tables_run, houtcome, hother]
  · rw [Database.rowCount_run, Database.rowCount_run, houtcome, hother]
  · rw [Database.rowCount_run, houtcome, Tables.table, htable]
    rfl

/-- A deletion of what has run out or is old, on condition of its version. -/
def staleDelete : Intent where
  table := "stock"
  wheres := [⟨.and, .basic "count" .le (.int 0)⟩,
    ⟨.or, .basic "stock.Age \"days\"" .gt (.int 9)⟩]
  ifConditions := [⟨.and, .basic "version" .eq (.int 4)⟩, ⟨.and, .notNull "count"⟩]

def stockRow (id count age version : Int64) : Row :=
  .ofList [("id", .int id), ("count", .int count), ("Age \"days\"", .int age),
    ("version", .int version)]

/-- Three rows, one of which is to be deleted. -/
def stockTable : Table :=
  ⟨["id"], [stockRow 1 5 2 4, stockRow 2 7 12 4, stockRow 3 1 1 6]⟩

def stockDatabase : Database where
  tables := (∅ : Tables).insert "stock" stockTable

theorem conditional_write_dialects_staleDelete :
    ∃ c d, (⟨.cql, some "shop"⟩ : Grammar).compile staleDelete .delete = .ok c ∧
      (⟨.sql, none⟩ : Grammar).compile staleDelete .delete = .ok d ∧
      (stockDatabase.run c).2.tables = (stockDatabase.run d).2.tables ∧
      (stockDatabase.run c).1.map ResultSet.rowCount = .ok 1 ∧
      (stockDatabase.run d).1.map ResultSet.rowCount = .ok 1 := by
  have hcql : (⟨.cql, some "shop"⟩ : Grammar).ReadsWrite staleDelete .delete :=
    ⟨ReadableTable.readsBack (by decide), conveys_expressed (by decide),
      conveys_expressed (by decide), List.forall_mem_nil _⟩
  have hsql : (⟨.sql, none⟩ : Grammar).ReadsWrite staleDelete .delete :=
    ⟨ReadableTable.readsBack (by decide), conveys_expressed (by decide),
      conveys_expressed (by decide), List.forall_mem_nil _⟩
  have hone : ∀ table, stockDatabase.tables.get? "stock" = some table →
      (table.rows.filter (selects staleDelete.wheres)).length ≤ 1 := by
    intro table htable
    obtain rfl := Option.some.inj htable
    decide
  obtain ⟨c, d, hc, hd, htables, hsame, hcount⟩ :=
    conditional_write_dialects (some "shop") none stockDatabase staleDelete
      .delete rfl (by decide) hcql hsql hone
  have hhits : (stockTable.rows.filter staleDelete.hits).length = 1 := by decide
  have hdeleted := hcount stockTable rfl
  rw [hhits] at hdeleted
  exact ⟨c, d, hc, hd, htables, hdeleted, hsame.symm.trans hdeleted⟩

end Grammar

end EntityMapper
