import EntityMapper.Grammar.Statement

/-!
# What a compiled command consists of

The compilers of the five commands under one name, the values each command
binds, and one inversion per compiler: if there is a command, then these are its
fragments, and the intent asks for nothing the dialect lacks. Everything that is
proved of compiled commands starts from these.
-/

namespace EntityMapper

/-- The columns a condition names. -/
def Condition.columns : Condition → List String
  | .basic column _ _ => [column]
  | .isIn column _ => [column]
  | .notIn column _ => [column]
  | .between column _ _ => [column]
  | .isNull column => [column]
  | .notNull column => [column]
  | .token columns _ _ => columns
  | .raw _ => []

/-- The text a condition consists of, if it is raw. -/
def Condition.rawText? : Condition → Option String
  | .raw text => some text
  | _ => none

/-- The names of a selection; none stand for every column. -/
def Selection.names : Selection → List String
  | .all => []
  | .columns names => names

/-- A command that can be asked of an intent, with the values to write. -/
inductive Request
  | select
  | count
  | insert (values : Pairs)
  | update (values : Pairs)
  | delete

/-- The values of a request in the order in which their placeholders stand in
the command. -/
def Request.bindings (q : Intent) : Request → List Value
  | .select => Predicate.allBindings q.wheres ++ Predicate.allBindings q.havings
  | .count => Predicate.allBindings q.wheres ++ Predicate.allBindings q.havings
  | .insert values => values.map Prod.snd
  | .update values =>
    values.map Prod.snd ++ Predicate.allBindings q.wheres ++
      Predicate.allBindings q.ifConditions
  | .delete =>
    Predicate.allBindings q.wheres ++ Predicate.allBindings q.ifConditions

namespace Grammar

/-- Compile the command that is asked for. -/
def compile (g : Grammar) (q : Intent) : Request → Except CompileError Command
  | .select => g.select q
  | .count => g.count q
  | .insert values => g.insert q values
  | .update values => g.update q values
  | .delete => g.delete q

/-! ## Parameters of clauses -/

@[simp]
theorem params_parameterize (values : List Value) :
    (parameterize values).params = values := by
  simp [parameterize, Fragment.params_join, List.flatMap_map]

@[simp]
theorem params_condition (g : Grammar) (c : Condition) :
    (g.condition c).params = c.bindings := by
  cases c <;> simp [condition, Condition.bindings]

@[simp]
theorem params_moreWheres (g : Grammar) (predicates : List Predicate) :
    (g.moreWheres predicates).params = Predicate.allBindings predicates := by
  induction predicates with
  | nil => rfl
  | cons p rest ih =>
    simp [moreWheres, Predicate.allBindings, Predicate.bindings, ih]

@[simp]
theorem params_wheres (g : Grammar) (predicates : List Predicate) :
    (g.wheres predicates).params = Predicate.allBindings predicates := by
  cases predicates with
  | nil => rfl
  | cons p rest => simp [wheres, Predicate.allBindings, Predicate.bindings]

@[simp]
theorem params_assignments (g : Grammar) (values : Pairs) :
    (g.assignments values).params = values.map Prod.snd := by
  rw [List.map_eq_flatMap]
  simp [assignments, Fragment.params_join, List.flatMap_map]

@[simp]
theorem params_writeFilter (g : Grammar) (q : Intent) :
    (g.writeFilter q).params =
      Predicate.allBindings q.wheres ++ Predicate.allBindings q.ifConditions := by
  unfold writeFilter
  cases g.dialect with
  | cql => simp
  | sql =>
    simp only [foldedWhere]
    split
    · simp
    · split
      · simp
      · split <;> simp

/-! ## Inversion of the compilers -/

theorem refuse_eq_ok {dialect : Dialect} {asked : Bool} {feature : Feature}
    {done : Unit} (h : refuse dialect asked feature = .ok done) :
    asked = false := by
  cases asked with
  | false => rfl
  | true => simp [refuse] at h

private theorem bind_eq_ok {α β ε : Type} {x : Except ε α} {f : α → Except ε β}
    {b : β} (h : x >>= f = .ok b) : ∃ a, x = .ok a ∧ f a = .ok b := by
  cases x with
  | error e => simp [bind, Except.bind] at h
  | ok a => exact ⟨a, rfl, h⟩

private theorem pure_eq_ok {α ε : Type} {a b : α}
    (h : (pure a : Except ε α) = .ok b) : b = a := by
  injection h with h
  exact h.symm

/-- The part of a query before its filter. -/
def selectHead (g : Grammar) (q : Intent) : String :=
  "SELECT " ++ g.selection q.selection ++ " FROM " ++ g.wrapTable q.table

theorem select_eq_ok {g : Grammar} {q : Intent} {c : Command}
    (h : g.select q = .ok c) :
    (g.dialect = .cql ∧ q.joins = [] ∧ q.havings = [] ∧ q.offset = none ∧
      c = (.lit (g.selectHead q) ++ (g.wheres q.wheres).headed " WHERE " ++
          .lit (g.groupClause q.groups ++ g.orderClause q.orders ++
              countClause " LIMIT " (q.limit.map UInt64.toNat) ++
              if q.allowFiltering then " ALLOW FILTERING" else "") :
          Fragment).command) ∨
      (g.dialect = .sql ∧
        c = (.lit (g.selectHead q ++ Text.concat (q.joins.map g.joinClause)) ++
            (g.wheres q.wheres).headed " WHERE " ++ .lit (g.groupClause q.groups) ++
            (g.wheres q.havings).headed " HAVING " ++ .lit (g.orderClause
                  q.orders ++ countClause " LIMIT " (q.limit.map UInt64.toNat) ++
                countClause " OFFSET " (q.offset.map UInt64.toNat)) :
            Fragment).command) := by
  unfold select at h
  cases hdialect : g.dialect with
  | cql =>
    simp only [hdialect] at h
    obtain ⟨_, hjoins, h⟩ := bind_eq_ok h
    obtain ⟨_, hhavings, h⟩ := bind_eq_ok h
    obtain ⟨_, hoffset, h⟩ := bind_eq_ok h
    refine .inl ⟨rfl, ?_, ?_, ?_, pure_eq_ok h⟩
    · simpa using refuse_eq_ok hjoins
    · simpa using refuse_eq_ok hhavings
    · simpa using refuse_eq_ok hoffset
  | sql =>
    simp only [hdialect] at h
    exact .inr ⟨rfl, pure_eq_ok h⟩

/-- The part of an insertion up to its closing bracket. -/
def insertBody (g : Grammar) (q : Intent) (values : Pairs) : Fragment :=
  .lit ("INSERT INTO " ++ g.wrapTable q.table ++ " (" ++
      g.columnize (values.map Prod.fst) ++ ") VALUES (") ++
    parameterize (values.map Prod.snd) ++ .lit ")"

theorem insert_eq_ok {g : Grammar} {q : Intent} {values : Pairs} {c : Command}
    (h : g.insert q values = .ok c) :
    values ≠ [] ∧ ((g.dialect = .cql ∧
        c = (g.insertBody q values ++ .lit ((if q.ifNotExists then
              " IF NOT EXISTS" else "") ++ ttlClause q)).command) ∨
      (g.dialect = .sql ∧ q.ttl = none ∧
        c = (g.insertBody q values ++ .lit (if q.ifNotExists then
              " ON CONFLICT DO NOTHING" else "")).command)) := by
  unfold insert at h
  cases hvalues : values.isEmpty with
  | true =>
    simp [hvalues, bind, Except.bind, throw, throwThe, MonadExceptOf.throw] at h
  | false =>
    refine ⟨by simpa using hvalues, ?_⟩
    simp only [hvalues, Bool.false_eq_true, if_false] at h
    cases hdialect : g.dialect with
    | cql =>
      simp only [hdialect] at h
      exact .inl ⟨rfl, pure_eq_ok h⟩
    | sql =>
      simp only [hdialect] at h
      obtain ⟨_, httl, h⟩ := bind_eq_ok h
      exact .inr ⟨rfl, by simpa using refuse_eq_ok httl, pure_eq_ok h⟩

theorem update_eq_ok {g : Grammar} {q : Intent} {values : Pairs} {c : Command}
    (h : g.update q values = .ok c) :
    values ≠ [] ∧ (g.dialect = .sql → q.ttl = none) ∧
      c = (.lit ("UPDATE " ++ g.wrapTable q.table ++ ttlClause q ++ " SET ") ++
        g.assignments values ++ g.writeFilter q : Fragment).command := by
  unfold update at h
  cases hvalues : values.isEmpty with
  | true =>
    simp [hvalues, bind, Except.bind, throw, throwThe, MonadExceptOf.throw] at h
  | false =>
    refine ⟨by simpa using hvalues, ?_⟩
    simp only [hvalues, Bool.false_eq_true, if_false] at h
    cases hdialect : g.dialect with
    | cql =>
      simp only [hdialect] at h
      exact ⟨by simp, pure_eq_ok h⟩
    | sql =>
      simp only [hdialect] at h
      obtain ⟨_, httl, h⟩ := bind_eq_ok h
      have hnone : q.ttl = none := by simpa using refuse_eq_ok httl
      have hclause : ttlClause q = "" := by simp [ttlClause, hnone, countClause]
      refine ⟨fun _ => hnone, ?_⟩
      rw [hclause]
      exact pure_eq_ok h

/-- The selected columns of a partial deletion, with a blank behind them. -/
def deletedColumns (g : Grammar) : Selection → String
  | .all => ""
  | .columns [] => ""
  | .columns names => g.columnize names ++ " "

theorem delete_eq_ok {g : Grammar} {q : Intent} {c : Command}
    (h : g.delete q = .ok c) :
    (g.dialect = .sql → q.selection.names = []) ∧
      c = (.lit ("DELETE " ++ g.deletedColumns q.selection ++ "FROM " ++
            g.wrapTable q.table) ++ g.writeFilter q : Fragment).command := by
  unfold delete at h
  cases hselection : q.selection with
  | all =>
    simp only [hselection] at h
    exact ⟨fun _ => rfl, pure_eq_ok h⟩
  | columns names =>
    cases names with
    | nil =>
      simp only [hselection] at h
      exact ⟨fun _ => rfl, pure_eq_ok h⟩
    | cons name names =>
      cases hdialect : g.dialect with
      | cql =>
        simp only [hselection, hdialect] at h
        exact ⟨by simp, pure_eq_ok h⟩
      | sql =>
        simp [hselection, hdialect, bind, Except.bind, throw, throwThe,
          MonadExceptOf.throw] at h

/-! ## Intents that compile -/

variable {g : Grammar} {q : Intent} {values : Pairs}

theorem exists_select_sql (hdialect : g.dialect = .sql) (q : Intent) :
    ∃ c, g.select q = .ok c := by
  unfold select
  rw [hdialect]
  exact ⟨_, rfl⟩

theorem exists_select (hjoins : q.joins = []) (hhavings : q.havings = [])
    (hoffset : q.offset = none) : ∃ c, g.select q = .ok c := by
  cases hdialect : g.dialect with
  | sql => exact exists_select_sql hdialect q
  | cql =>
    unfold select
    rw [hdialect, hjoins, hhavings, hoffset]
    exact ⟨_, rfl⟩

theorem select_joins (hdialect : g.dialect = .cql) (hjoins : q.joins ≠ []) :
    g.select q = .error (.unsupported .cql .joins) := by
  unfold select
  rw [hdialect, List.isEmpty_eq_false_iff.mpr hjoins]
  rfl

theorem exists_insert (hsome : values ≠ []) (httl : q.ttl = none) :
    ∃ c, g.insert q values = .ok c := by
  unfold insert
  rw [List.isEmpty_eq_false_iff.mpr hsome, httl]
  cases g.dialect <;> exact ⟨_, rfl⟩

theorem exists_update {values : Pairs} (hsome : values ≠ []) (httl : q.ttl = none) :
    ∃ c, g.update q values = .ok c := by
  unfold update
  rw [List.isEmpty_eq_false_iff.mpr hsome, httl]
  cases g.dialect <;> exact ⟨_, rfl⟩

theorem exists_delete (hwhole : q.selection.names = []) :
    ∃ c, g.delete q = .ok c := by
  unfold delete
  cases hselection : q.selection with
  | all => exact ⟨_, rfl⟩
  | columns names =>
    rw [hselection] at hwhole
    obtain rfl : names = [] := hwhole
    exact ⟨_, rfl⟩

end Grammar

end EntityMapper
