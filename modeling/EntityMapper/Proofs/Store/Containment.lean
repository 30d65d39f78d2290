import EntityMapper.Proofs.Store.ConditionalWrite
import EntityMapper.Proofs.Store.InPlace

/-!
# What a command leaves alone

A command that fails changes no table, nor does a conditional write that is
refused; and a command that succeeds changes no table but the one it names, of
which it keeps the key columns. That a failure changes nothing is said of the
run in place, where a check that came after a change would show.

Conditional writes are decided by the rows of their table. An update or a
deletion is applied iff there is a target and each target satisfies the
conditions, an insertion under its guard iff no row has the key. There is one
exception: key columns cannot be cleared, so a deletion that is to clear one
fails where it would be applied.
-/

namespace EntityMapper

/-- Whether a result reports that a conditional write was applied, or that it
was not. -/
def ResultSet.Reports (result : ResultSet) (applied : Bool) : Prop :=
  ∃ row ∈ result.rows, row.get? Store.appliedColumn = some (.bool applied)

/-- Whether a command ended with the report of a write that is applied iff a
condition holds. -/
def Decided (ended : Except StoreError ResultSet) (condition : Prop) : Prop :=
  ∃ result, ended = .ok result ∧ (result.Reports true ↔ condition) ∧
    (result.Reports false ↔ ¬condition)

/-- Whether there are targets in a table, each of which satisfies the conditions
of a write. -/
def Table.Admits (t : Table) (filter : Option Filter) (conditions : Filter)
    (params : List Value) : Prop :=
  (∃ row ∈ t.rows, Store.passes params filter row = true) ∧
    ∀ row ∈ t.rows, Store.passes params filter row = true →
      Store.evaluate row params conditions = true

instance (t : Table) (filter : Option Filter) (conditions : Filter)
    (params : List Value) : Decidable (t.Admits filter conditions params) :=
  inferInstanceAs
    (Decidable ((∃ row ∈ t.rows, Store.passes params filter row = true) ∧
      ∀ row ∈ t.rows, Store.passes params filter row = true →
        Store.evaluate row params conditions = true))

/-- What a command that succeeded has left alone, given the table that it names. -/
structure Contained (name : String) (before after : Tables)
    (result : ResultSet) : Prop where
  /-- Other tables are as they were. -/
  others : ∀ other, other ≠ name → after.get? other = before.get? other
  /-- So are the key columns of the table. -/
  keys : (after.get? name).map Table.keys = (before.get? name).map Table.keys
  /-- Everything is as it was if the write was refused. -/
  refused : result.Reports false → ∀ other, after.get? other = before.get? other

namespace Store

variable {t after : Table} {tables : Tables} {name : String} {params : List Value}
  {filter conditions : Option Filter} {c : Filter} {result : ResultSet}

/-! ## Reports -/

theorem reports_appliedResult {applied reported : Bool} {current : Option Row}
    {count : Nat} :
    (appliedResult applied current count).Reports reported ↔
      applied = reported := by
  simp [ResultSet.Reports, appliedResult, NameMap.get?_insert]

theorem not_reports_affected {count : Nat} {reported : Bool} :
    ¬(ResultSet.affected count).Reports reported := by
  simp [ResultSet.Reports, ResultSet.affected]

theorem decided_appliedResult {applied : Bool} {current : Option Row}
    {count : Nat} {p : Prop} (h : applied = true ↔ p) :
    Decided (.ok (appliedResult applied current count)) p := by
  refine ⟨_, rfl, reports_appliedResult.trans h, reports_appliedResult.trans ?_⟩
  rw [← h, Bool.not_eq_true]

theorem conditionsHold_iff :
    conditionsHold c (t.rows.filter (passes params filter)) params = true ↔
      t.Admits filter c params := by
  unfold conditionsHold Table.Admits
  rw [Bool.and_eq_true, Bool.not_eq_true', List.isEmpty_eq_false_iff_exists_mem,
    List.all_eq_true]
  simp only [List.mem_filter, and_imp]

/-! ## What a write leaves of its table -/

/-- What a write that succeeded has left of its table: the key columns, and all
of it if the write was refused. -/
structure Spares (t : Table) (result : ResultSet) (after : Table) : Prop where
  keys : after.keys = t.keys
  refused : result.Reports false → after = t

theorem spares_insert {s : InsertStatement}
    (h : insert t s params = .ok (result, after)) : Spares t result after := by
  rcases insert_cases t s params with ⟨e, he⟩ |
    ⟨key, -, ⟨-, hover⟩ | ⟨-, current, -, hpresent⟩ | ⟨-, -, habsent⟩⟩
  · cases he.symm.trans h
  · cases hover.symm.trans h
    exact ⟨rfl, fun hreports => absurd hreports not_reports_affected⟩
  · cases hpresent.symm.trans h
    exact ⟨rfl, fun _ => rfl⟩
  · cases habsent.symm.trans h
    exact ⟨rfl, fun hreports => nomatch reports_appliedResult.mp hreports⟩

theorem spares_guardedWrite {write : Except StoreError (List Row)}
    (h : guardedWrite t filter conditions params write = .ok (result, after)) :
    Spares t result after := by
  cases conditions with
  | none =>
    cases write with
    | error e => cases h
    | ok rows =>
      cases h
      exact ⟨rfl, fun hreports => absurd hreports not_reports_affected⟩
  | some c =>
    by_cases hhold :
      conditionsHold c (t.rows.filter (passes params filter)) params = true
    · rw [guardedWrite_held hhold] at h
      cases write with
      | error e => cases h
      | ok rows =>
        cases h
        exact ⟨rfl, fun hreports => nomatch reports_appliedResult.mp hreports⟩
    · rw [guardedWrite_refused (Bool.not_eq_true _ ▸ hhold)] at h
      cases h
      exact ⟨rfl, fun _ => rfl⟩

/-! ## What a statement leaves of the tables -/

theorem contained_write {run : Table → Except StoreError (ResultSet × Table)}
    (hspares : ∀ t result after,
      run t = .ok (result, after) → Spares t result after)
    {after : Tables} (h : write tables name run = .ok (result, after)) :
    Contained name tables after result := by
  rcases write_cases tables name run
    with ⟨e, he⟩ | ⟨t, made, written, htable, hrun, hwrite⟩
  · cases he.symm.trans h
  · cases hwrite.symm.trans h
    have h := hspares _ _ _ hrun
    refine ⟨fun other hother => ?_, ?_, fun hreports other => ?_⟩
    · rw [NameMap.get?_insert_of_ne (Ne.symm hother)]
    · rw [NameMap.get?_insert_self, htable, Option.map_some,
        Option.map_some, h.keys]
    · rw [NameMap.get?_insert, h.refused hreports]
      split
      · next hother => rw [← hother, htable]
      · rfl

/-- A statement changes no table but its own, and none if it is refused. -/
theorem contained_execute {statement : Statement} {after : Tables}
    (h : execute tables statement params = .ok (result, after)) :
    Contained statement.table tables after result := by
  cases statement with
  | select s =>
    rw [execute] at h
    cases hselect : select tables s params with
    | error e =>
      rw [hselect] at h
      cases h
    | ok made =>
      rw [hselect] at h
      cases h
      exact ⟨fun _ _ => rfl, rfl, fun _ _ => rfl⟩
  | insert s => exact contained_write (fun _ _ _ => spares_insert) h
  | update s => exact contained_write (fun _ _ _ => spares_guardedWrite) h
  | delete s => exact contained_write (fun _ _ _ => spares_guardedWrite) h

/-! ## How conditional writes are decided -/

/-- A write that is refused if its conditions do not hold. -/
theorem decided_guardedWrite {write : Except StoreError (List Row)}
    (h : t.Admits filter c params → ∃ rows, write = .ok rows) :
    Decided ((guardedWrite t filter (some c) params write).map Prod.fst)
      (t.Admits filter c params) := by
  by_cases hhold :
    conditionsHold c (t.rows.filter (passes params filter)) params = true
  · obtain ⟨rows, rfl⟩ := h (conditionsHold_iff.mp hhold)
    rw [guardedWrite_held hhold]
    exact decided_appliedResult (iff_of_true rfl (conditionsHold_iff.mp hhold))
  · rw [guardedWrite_refused (Bool.not_eq_true _ ▸ hhold)]
    exact decided_appliedResult
      (iff_of_false Bool.false_ne_true (conditionsHold_iff.not.mp hhold))

theorem decided_update {s : UpdateStatement} (hc : s.conditions = some c) :
    Decided ((update t s params).map Prod.fst) (t.Admits s.filter c params) := by
  rw [update, hc]
  exact decided_guardedWrite fun _ => ⟨_, rfl⟩

theorem decided_delete {s : DeleteStatement} (hc : s.conditions = some c)
    (h : t.Admits s.filter c params → ∀ column ∈ s.columns, column ∉ t.keys) :
    Decided ((delete t s params).map Prod.fst) (t.Admits s.filter c params) := by
  rw [delete, hc]
  refine decided_guardedWrite fun hadmits => ?_
  have hnone : (s.columns.find? fun column => t.keys.contains column) = none := by
    simpa using h hadmits
  rw [hnone]
  split <;> exact ⟨_, rfl⟩

/-- A deletion that is to clear a key column fails where it would be applied. -/
theorem delete_key {s : DeleteStatement} (hc : s.conditions = some c)
    (hadmits : t.Admits s.filter c params) {column : String}
    (hcolumn : column ∈ s.columns) (hkey : column ∈ t.keys) :
    ∃ cleared ∈ s.columns, cleared ∈ t.keys ∧
      delete t s params = .error (.clearedKey cleared) := by
  have hsome : s.columns.isEmpty = false :=
    List.isEmpty_eq_false_iff_exists_mem.mpr ⟨column, hcolumn⟩
  rw [delete, hc, guardedWrite_held (conditionsHold_iff.mpr hadmits), hsome,
    if_neg Bool.false_ne_true]
  cases hfind : s.columns.find? fun column => t.keys.contains column with
  | none =>
    exact absurd hkey (by simpa using List.find?_eq_none.mp hfind column hcolumn)
  | some cleared =>
    exact ⟨cleared, List.mem_of_find?_eq_some hfind,
      by simpa using List.find?_some hfind, rfl⟩

theorem decided_insert {s : InsertStatement} (hguard : s.ifNotExists = true)
    {key : List Value}
    (hkey : Table.keyOf s.table (insertedRow s params) t.keys = .ok key) :
    Decided ((insert t s params).map Prod.fst)
      (∀ row ∈ t.rows, Table.hasKey row t.keys key = false) := by
  cases hfind : t.find? key with
  | none =>
    rw [insert_absent hguard hkey hfind]
    have hnone := List.find?_eq_none.mp hfind
    exact decided_appliedResult
      (iff_of_true rfl fun row hrow => Bool.not_eq_true _ ▸ hnone row hrow)
  | some current =>
    rw [insert_present hguard hkey hfind]
    have hcurrent := List.find?_some hfind
    refine decided_appliedResult (iff_of_false Bool.false_ne_true fun h => ?_)
    rw [h current (List.mem_of_find?_eq_some hfind)] at hcurrent
    exact Bool.false_ne_true hcurrent

/-- A statement on a table ends as it does there. -/
theorem map_fst_write (htable : tables.get? name = some t)
    (run : Table → Except StoreError (ResultSet × Table)) :
    (write tables name run).map Prod.fst = (run t).map Prod.fst := by
  rw [write, Tables.table, htable]
  cases hrun : run t <;>
    simp [bind, Except.bind, hrun, Except.map, pure, Except.pure]

end Store

namespace Database

variable {db : Database} {c : Command} {params : List Value}

/-- A command that is parsed and has a parameter for each placeholder ends as
its statement. -/
theorem run_of_parse {s : Statement}
    (h : ParsedCommand.parse c.text = .ok ⟨s, c.params.length⟩) :
    (db.run c).1 = (Store.execute db.tables s c.params).map Prod.fst := by
  unfold run
  rw [evaluate_of_parse db.tables h]
  cases Store.execute db.tables s c.params <;> rfl

/-- A command that succeeds has been parsed and has a parameter for each
placeholder. -/
theorem evaluate_eq_ok {tables : Tables} {made : ResultSet × Tables}
    (h : evaluate tables c = .ok made) :
    ∃ s, ParsedCommand.parse c.text = .ok ⟨s, c.params.length⟩ ∧
      Store.execute tables s c.params = .ok made := by
  unfold evaluate at h
  cases hparse : ParsedCommand.parse c.text with
  | error e => simp [hparse] at h
  | ok parsed =>
    rw [hparse] at h
    dsimp only at h
    split at h
    · cases h
    · next hcount =>
      rw [← not_not.mp hcount]
      exact ⟨parsed.statement, rfl, h⟩

/-- Whatever the command and the tables, a failure leaves the tables as they
were, in place too; a success leaves the other tables as they were and the key
columns of its own, and a refusal leaves everything. Updates and deletions under
conditions are applied iff there is a target and each satisfies the conditions,
but for deletions that clear a key column, which fail then; insertions under
their guard are applied iff no row has the key. -/
theorem run_contained (db : Database) (c : Command) :
    ((db.runInPlace c).1 = (db.run c).1 ∧ ∀ name,
        (db.runInPlace c).2.tables.get? name = (db.run c).2.tables.get? name) ∧
      (∀ e, (db.run c).1 = .error e → (db.run c).2.tables = db.tables) ∧
      (∀ result, (db.run c).1 = .ok result →
        ∃ s : Statement, ParsedCommand.parse c.text = .ok ⟨s, c.params.length⟩ ∧
          Contained s.table db.tables (db.run c).2.tables result) ∧
      (∀ s t conditions,
        ParsedCommand.parse c.text = .ok ⟨.update s, c.params.length⟩ →
          s.conditions = some conditions → db.tables.get? s.table = some t →
          Decided (db.run c).1 (t.Admits s.filter conditions c.params)) ∧
      (∀ s t conditions,
        ParsedCommand.parse c.text = .ok ⟨.delete s, c.params.length⟩ →
          s.conditions = some conditions → db.tables.get? s.table = some t →
          if t.Admits s.filter conditions c.params ∧
            ∃ column ∈ s.columns, column ∈ t.keys then
          ∃ column ∈ s.columns, column ∈ t.keys ∧
            (db.run c).1 = .error (.clearedKey column)
        else Decided (db.run c).1 (t.Admits s.filter conditions c.params)) ∧
    (∀ s t key, ParsedCommand.parse c.text = .ok ⟨.insert s, c.params.length⟩ →
        s.ifNotExists = true → db.tables.get? s.table = some t →
        Table.keyOf s.table (Store.insertedRow s c.params) t.keys = .ok key →
        Decided (db.run c).1
          (∀ row ∈ t.rows, Table.hasKey row t.keys key = false)) := by
  refine ⟨db.runInPlace_eq c, fun e he => ?_, fun result hresult => ?_, ?_, ?_, ?_⟩
  · unfold run at he ⊢
    cases hmade : evaluate db.tables c with
    | ok made =>
      rw [hmade] at he
      cases he
    | error e => rfl
  · unfold run at hresult ⊢
    cases hmade : evaluate db.tables c with
    | error e =>
      rw [hmade] at hresult
      cases hresult
    | ok made =>
      rw [hmade] at hresult
      cases hresult
      obtain ⟨s, hparse, hexecute⟩ := evaluate_eq_ok hmade
      exact ⟨s, hparse, Store.contained_execute hexecute⟩
  · intro s t conditions hparse hconditions htable
    rw [run_of_parse hparse, Store.execute, Store.map_fst_write htable]
    exact Store.decided_update hconditions
  · intro s t conditions hparse hconditions htable
    rw [run_of_parse hparse, Store.execute, Store.map_fst_write htable]
    split
    · next h =>
      obtain ⟨hadmits, column, hcolumn, hkey⟩ := h
      obtain ⟨cleared, hcleared, hmem, hdelete⟩ :=
        Store.delete_key hconditions hadmits hcolumn hkey
      exact ⟨cleared, hcleared, hmem, by rw [hdelete]; rfl⟩
    · next h =>
      exact Store.decided_delete hconditions fun hadmits column hcolumn hkey =>
        h ⟨hadmits, column, hcolumn, hkey⟩
  · intro s t key hparse hguard htable hkey
    rw [run_of_parse hparse, Store.execute, Store.map_fst_write htable]
    exact Store.decided_insert hguard hkey

/-! ### A deletion of a column under a condition -/

/-- A table with one row. -/
def countedDatabase : Database where
  tables :=
    (∅ : Tables).insert "t" ⟨["id"], [.ofList [("id", .int 1), ("n", .int 5)]]⟩

/-- What a command says that is to clear a column in a row on a condition. -/
def clearing (column : String) : DeleteStatement where
  table := "t"
  columns := [column]
  filter := some (.compare "id" .eq (.param 0))
  conditions := some (.compare "n" .eq (.param 1))

theorem parse_clearing {text column : String}
    (hcolumn : Parser.Path [.name column] column)
    (hlexes : Token.Lexes text.toList [.keyword .delete, .name column,
      .keyword .from, .name "t", .keyword .where, .name "id", .symbol .eq,
      .symbol .param, .keyword .if, .name "n", .symbol .eq, .symbol .param]) :
    ParsedCommand.parse text = .ok ⟨.delete (clearing column), 2⟩ := by
  have hid : Parser.Path [.name "id"] "id" := .last (by cbv)
  have hn : Parser.Path [.name "n"] "n" := .last (by cbv)
  have hfilter : Parser.Terms 0 [.name "id", .symbol .eq, .symbol .param] 0
      [.compare "id" .eq (.param 0)] 1 :=
    .one fun _ _ => Parser.reads_term_column hid.column
      (Parser.reads_compare hid.column .eq (Parser.operandAt_placeholder 0))
  have hconditions : Parser.Terms 0 [.name "n", .symbol .eq, .symbol .param] 1
      [.compare "n" .eq (.param 1)] 2 :=
    .one fun _ _ => Parser.reads_term_column hn.column
      (Parser.reads_compare hn.column .eq (Parser.operandAt_placeholder 1))
  have hcolumns : ∀ c ∈ [column], Parser.Path [.name c] c := by simpa using hcolumn
  exact ParsedCommand.parse_eq_ok hlexes
    (Parser.takes_statement_delete (Parser.takes_delete (.last (by cbv)) hcolumns
      (Parser.clause_filter (k := .where) (Parser.reads_filter hfilter.blocks
          (Nat.zero_le _))) (Parser.clause_filter (k := .if)
            (Parser.reads_filter hconditions.blocks (Nat.zero_le _)))))

/-- A command that clears the column that is no key. -/
def clearCount (expected : Int64) : Command :=
  ⟨"DELETE n FROM t WHERE id = ? IF n = ?", [.int 1, .int expected]⟩

theorem parse_clearCount (expected : Int64) :
    ParsedCommand.parse (clearCount expected).text =
      .ok ⟨.delete (clearing "n"), 2⟩ :=
  parse_clearing (.last (by cbv)) (Token.lexes_of_read
    (rfl : Token.read "DELETE n FROM t WHERE id = ? IF n = ?" = .ok _))

/-- A command that clears the key column. -/
def clearKey : Command :=
  ⟨"DELETE id FROM t WHERE id = ? IF n = ?", [.int 1, .int 5]⟩

theorem parse_clearKey :
    ParsedCommand.parse clearKey.text = .ok ⟨.delete (clearing "id"), 2⟩ :=
  parse_clearing (.last (by cbv)) (Token.lexes_of_read
    (rfl : Token.read "DELETE id FROM t WHERE id = ? IF n = ?" = .ok _))

/-- A count is cleared if it is the expected one. -/
theorem run_contained_clearCount :
    Decided (countedDatabase.run (clearCount 5)).1 True ∧
      Decided (countedDatabase.run (clearCount 6)).1 False := by
  have hdecided (expected : Int64) :=
    (run_contained countedDatabase (clearCount expected)).2.2.2.2.1
      (clearing "n") _ _ (parse_clearCount expected) rfl rfl
  refine ⟨?_, ?_⟩
  · have h := hdecided 5
    rw [if_neg (by decide), eq_true (by decide : Table.Admits _ _ _ _)] at h
    exact h
  · have h := hdecided 6
    rw [if_neg (by decide), eq_false (by decide : ¬Table.Admits _ _ _ _)] at h
    exact h

/-- There is a target and it satisfies the conditions, but the key column that
the deletion is to clear keeps it from being applied. -/
theorem clearKey_not_applied : ParsedCommand.parse clearKey.text =
      .ok ⟨.delete (clearing "id"), clearKey.params.length⟩ ∧
    (countedDatabase.run clearKey).1 = .error (.clearedKey "id") ∧
    ¬((∃ result, (countedDatabase.run clearKey).1 = .ok result ∧
        result.Reports true) ↔ ∃ t, countedDatabase.tables.get? "t" = some t ∧
          t.Admits (clearing "id").filter
            (.compare "n" .eq (.param 1)) clearKey.params) := by
  have hrun : (countedDatabase.run clearKey).1 = .error (.clearedKey "id") := by
    rw [run_of_parse (c := clearKey) parse_clearKey]
    rfl
  refine ⟨parse_clearKey, hrun, fun hiff => ?_⟩
  obtain ⟨result, hresult, -⟩ := hiff.mpr ⟨_, rfl, by decide⟩
  cases hrun.symm.trans hresult

end Database

end EntityMapper
