import EntityMapper.Proofs.Equality
import EntityMapper.Proofs.NameMap
import EntityMapper.Proofs.Statement.Statements
import EntityMapper.Store.Database

/-!
# Keys of rows

The rows of a table have keys if each holds a value in every key column and no
two hold the same ones. Insertions look for a row with the key, and deletions
refuse to clear a key column, so both keep the keys of a table whatever they are
given. An update has no such guard: it keeps the keys if it leaves in the key
columns of its targets what they hold, and can destroy them otherwise.

The keys of two rows are compared by the equality of values, which identifies
the two zeros and does not hold of a NaN and itself, so the arguments here are
by symmetry and transitivity alone.
-/

namespace EntityMapper

namespace Table

variable {name : String} {keys : List String} {key : List Value}
  {row other next : Row} {rows : List Row} {t : Table}

/-! ## Keys -/

/-- Whether a row has a value in a column, and not null. -/
def Filled (row : Row) (column : String) : Prop :=
  ∃ value, row.get? column = some value ∧ value.isNull = false

/-- Whether two rows agree in the given columns. -/
def agree (keys : List String) (row other : Row) : Bool :=
  keys.all fun column => row.get? column == other.get? column

/-- Every row of a table has a value in each key column, and no two rows have
the same ones. -/
structure Keyed (t : Table) : Prop where
  present : ∀ row ∈ t.rows, ∀ column ∈ t.keys, Filled row column
  distinct : t.rows.Pairwise fun row other => agree t.keys row other = false

theorem agree_iff : agree keys row other = true ↔
    ∀ column ∈ keys, (row.get? column == other.get? column) = true :=
  List.all_eq_true

theorem agree_trans (h : agree keys row other = true)
    (hnext : agree keys other next = true) : agree keys row next = true :=
  agree_iff.mpr fun column hcolumn =>
    PartialEquivBEq.trans (agree_iff.mp h column hcolumn)
      (agree_iff.mp hnext column hcolumn)

theorem keyed_empty (keys : List String) : Keyed { keys } where
  present _ hrow := absurd hrow List.not_mem_nil
  distinct := .nil

/-! ## The key a row is looked up by -/

theorem keyOf_cons_eq_ok {column : String}
    (h : keyOf name row (column :: keys) = .ok key) :
    ∃ value values, row.get? column = some value ∧ value.isNull = false ∧
      keyOf name row keys = .ok values ∧ key = value :: values := by
  rw [keyOf] at h
  cases hstored : row.get? column with
  | none => simp [hstored, Value.bound?] at h
  | some value =>
    cases hrest : keyOf name row keys with
    | error e => cases value <;> simp [hstored, hrest, Value.bound?] at h
    | ok values =>
      refine ⟨value, values, rfl, ?_⟩
      cases value <;> simp_all [Value.bound?, Value.isNull]

theorem filled_of_keyOf (h : keyOf name row keys = .ok key) :
    ∀ column ∈ keys, Filled row column := by
  induction keys generalizing key with
  | nil => simp
  | cons column rest ih =>
    obtain ⟨value, values, hvalue, hnull, hrest, -⟩ := keyOf_cons_eq_ok h
    exact List.forall_mem_cons.mpr ⟨⟨value, hvalue, hnull⟩, ih hrest⟩

/-- A row has the key of another iff the two agree. -/
theorem hasKey_eq_agree (h : keyOf name row keys = .ok key) :
    hasKey other keys key = agree keys other row := by
  induction keys generalizing key with
  | nil =>
    obtain rfl := Except.ok.inj h
    rfl
  | cons column rest ih =>
    obtain ⟨value, values, hvalue, -, hrest, rfl⟩ := keyOf_cons_eq_ok h
    calc
      hasKey other (column :: rest) (value :: values) =
          (other.get? column == some value && agree rest other row) := by
        rw [hasKey, ih hrest]
        cases other.get? column <;> rfl
      _ = agree (column :: rest) other row := by
        rw [agree, agree, List.all_cons, hvalue]

/-! ## Writing into rows -/

/-- A row that holds in the given columns what another holds there, or values
equal to it. -/
def Holds (keys : List String) (row other : Row) : Prop :=
  ∀ column ∈ keys, row.get? column = other.get? column ∨
    (row.get? column == other.get? column) = true

theorem Holds.filled (h : Holds keys row other) {column : String}
    (hcolumn : column ∈ keys) (hother : Filled other column) :
    Filled row column := by
  obtain ⟨value, hvalue, hnull⟩ := hother
  rcases h column hcolumn with hsame | hequal
  · exact ⟨value, hsame.trans hvalue, hnull⟩
  · rw [hvalue] at hequal
    cases hstored : row.get? column with
    | none => simp [hstored] at hequal
    | some stored =>
      rw [hstored] at hequal
      exact ⟨stored, hstored, (Value.isNull_eq_of_beq hequal).trans hnull⟩

/-- Rows agree only if rows whose values they hold agree. -/
theorem Holds.agree {before otherBefore : Row} (hrow : Holds keys row before)
    (hother : Holds keys other otherBefore) (h : agree keys row other = true) :
    Table.agree keys before otherBefore = true := by
  rw [agree_iff] at h ⊢
  intro column hcolumn
  have hmiddle := h column hcolumn
  rcases hrow column hcolumn with hsame | hequal <;>
    rcases hother column hcolumn with hsame' | hequal'
  · rwa [hsame, hsame'] at hmiddle
  · rw [hsame] at hmiddle
    exact PartialEquivBEq.trans hmiddle hequal'
  · rw [hsame'] at hmiddle
    exact PartialEquivBEq.trans (PartialEquivBEq.symm hequal) hmiddle
  · exact PartialEquivBEq.trans
      (PartialEquivBEq.trans (PartialEquivBEq.symm hequal) hmiddle) hequal'

theorem holds_self (keys : List String) (row : Row) : Holds keys row row :=
  fun _ _ => .inl rfl

/-- A table stays keyed if each of its rows goes on to hold its key. -/
theorem Keyed.map (h : t.Keyed) {write : Row → Row}
    (hwrite : ∀ row ∈ t.rows, Holds t.keys (write row) row) :
    Keyed { t with rows := t.rows.map write } where
  present := by
    intro row hrow column hcolumn
    obtain ⟨before, hbefore, rfl⟩ := List.mem_map.mp hrow
    exact (hwrite before hbefore).filled hcolumn
      (h.present before hbefore column hcolumn)
  distinct := by
    refine List.pairwise_map.mpr
      (h.distinct.imp_of_mem fun hfirst hsecond hdistinct => ?_)
    rw [← Bool.not_eq_true] at hdistinct ⊢
    exact fun hagree =>
      hdistinct ((hwrite _ hfirst).agree (hwrite _ hsecond) hagree)

theorem Keyed.filter (h : t.Keyed) (keep : Row → Bool) :
    Keyed { t with rows := t.rows.filter keep } where
  present row hrow := h.present row (List.mem_of_mem_filter hrow)
  distinct := h.distinct.filter keep

/-- A row whose key no row of a table has can go behind them. -/
theorem Keyed.append (h : t.Keyed) (hfilled : ∀ column ∈ t.keys, Filled row column)
    (hnew : ∀ old ∈ t.rows, Table.agree t.keys old row = false) :
    Keyed { t with rows := t.rows ++ [row] } where
  present := by
    intro written hwritten
    rcases List.mem_append.mp hwritten with hold | hnew
    · exact h.present written hold
    · rwa [List.mem_singleton.mp hnew]
  distinct := List.pairwise_append.mpr
    ⟨h.distinct, List.pairwise_singleton .., fun old hold written hwritten => by
      rw [List.mem_singleton.mp hwritten]
      exact hnew old hold⟩

/-! ## Insertions -/

/-- What an insertion leaves at each place: a row that was there, or one with
the key. -/
theorem mem_upsertRows {written : Row}
    (h : written ∈ upsertRows keys key row rows) :
    written ∈ rows ∨ written = row ∨ ∃ old ∈ rows, written = old.extend row := by
  induction rows with
  | nil => exact .inr (.inl (List.mem_singleton.mp h))
  | cons old rest ih =>
    rw [upsertRows] at h
    split at h
    · rcases List.mem_cons.mp h with rfl | h
      · exact .inr (.inr ⟨old, List.mem_cons_self .., rfl⟩)
      · exact .inl (List.mem_cons_of_mem _ h)
    · rcases List.mem_cons.mp h with rfl | h
      · exact .inl (List.mem_cons_self ..)
      · rcases ih h with h | h | ⟨other, hother, h⟩
        · exact .inl (List.mem_cons_of_mem _ h)
        · exact .inr (.inl h)
        · exact .inr (.inr ⟨other, List.mem_cons_of_mem _ hother, h⟩)

/-- An insertion spares the rows of a test, if neither the row nor those with
its key pass it. -/
theorem filter_upsertRows {test : Row → Bool} (hrow : test row = false)
    (hover : ∀ old ∈ rows, hasKey old keys key = true →
      test old = false ∧ test (old.extend row) = false) :
    (upsertRows keys key row rows).filter test = rows.filter test := by
  induction rows with
  | nil => simp [upsertRows, hrow]
  | cons old rest ih =>
    obtain ⟨hold, hrest⟩ := List.forall_mem_cons.mp hover
    rw [upsertRows]
    cases hkey : hasKey old keys key with
    | true =>
      obtain ⟨hbefore, hafter⟩ := hold hkey
      simp [hbefore, hafter]
    | false =>
      rw [if_neg Bool.false_ne_true, List.filter_cons, List.filter_cons, ih hrest]

/-- A row that is written over another gives it its own key. -/
theorem holds_extend (hrow : row.WellFormed) (hkey : keyOf name row keys = .ok key)
    (old : Row) : Holds keys (old.extend row) row := by
  intro column hcolumn
  obtain ⟨value, hvalue, -⟩ := filled_of_keyOf hkey column hcolumn
  rw [NameMap.get?_extend old hrow, hvalue, Option.some_or]
  exact .inl rfl

theorem distinct_upsertRows (hrow : row.WellFormed)
    (hkey : keyOf name row keys = .ok key)
    (h : rows.Pairwise fun first second => agree keys first second = false) :
    (upsertRows keys key row rows).Pairwise fun first second =>
      agree keys first second = false := by
  induction rows with
  | nil => exact List.pairwise_singleton _ _
  | cons old rest ih =>
    obtain ⟨hold, hrest⟩ := List.pairwise_cons.mp h
    rw [upsertRows, hasKey_eq_agree hkey]
    cases hagree : agree keys old row with
    | true =>
      refine List.pairwise_cons.mpr ⟨fun other hother => ?_, hrest⟩
      rw [← Bool.not_eq_true]
      intro hsame
      have hsame' :=
        (holds_extend hrow hkey old).agree (holds_self keys other) hsame
      exact absurd (agree_trans hagree hsame') (by simp [hold other hother])
    | false =>
      refine List.pairwise_cons.mpr ⟨fun written hwritten => ?_, ih hrest⟩
      rcases mem_upsertRows hwritten with hother | rfl | ⟨other, -, rfl⟩
      · exact hold written hother
      · exact hagree
      · rw [← Bool.not_eq_true] at hagree ⊢
        exact fun hsame =>
          hagree ((holds_self keys old).agree (holds_extend hrow hkey other) hsame)

theorem Keyed.upsert (h : t.Keyed) (hrow : row.WellFormed) {written : Table}
    (hwritten : t.upsert name row = .ok written) : written.Keyed := by
  unfold Table.upsert at hwritten
  cases hkey : keyOf name row t.keys with
  | error e => simp [hkey] at hwritten
  | ok key =>
    rw [hkey] at hwritten
    obtain rfl := Except.ok.inj hwritten
    have hfilled := filled_of_keyOf hkey
    refine ⟨fun other hother column hcolumn => ?_,
      distinct_upsertRows hrow hkey h.distinct⟩
    rcases mem_upsertRows hother with hold | rfl | ⟨old, -, rfl⟩
    · exact h.present other hold column hcolumn
    · exact hfilled column hcolumn
    · exact (holds_extend hrow hkey old).filled hcolumn (hfilled column hcolumn)

end Table

namespace Store

variable {t written : Table} {params : List Value} {result : ResultSet} {row : Row}

/-! ## Statements -/

theorem keyed_insert (h : t.Keyed) {s : InsertStatement}
    (hrun : insert t s params = .ok (result, written)) : written.Keyed := by
  have hrow : (insertedRow s params).WellFormed := NameMap.wellFormed_ofList _
  unfold insert at hrun
  by_cases habsent : s.ifNotExists = true
  · rw [if_pos habsent] at hrun
    cases hkey : Table.keyOf s.table (insertedRow s params) t.keys with
    | error e => simp [hkey, bind, Except.bind] at hrun
    | ok key =>
      simp only [hkey, bind, Except.bind] at hrun
      cases hfind : t.find? key with
      | some current =>
        rw [hfind] at hrun
        obtain ⟨-, rfl⟩ := Prod.mk.inj (Except.ok.inj hrun)
        exact h
      | none =>
        rw [hfind] at hrun
        obtain ⟨-, rfl⟩ := Prod.mk.inj (Except.ok.inj hrun)
        refine h.append (Table.filled_of_keyOf hkey) fun old hold => ?_
        rw [← Table.hasKey_eq_agree hkey, ← Bool.not_eq_true]
        exact List.find?_eq_none.mp hfind old hold
  · rw [if_neg habsent] at hrun
    cases hupsert : t.upsert s.table (insertedRow s params) with
    | error e => simp [hupsert, bind, Except.bind] at hrun
    | ok table =>
      simp only [hupsert, bind, Except.bind] at hrun
      obtain ⟨-, rfl⟩ := Prod.mk.inj (Except.ok.inj hrun)
      exact h.upsert hrow hupsert

/-- A guarded write leaves the table as it is or with the rows it writes. -/
theorem guardedWrite_eq_ok {filter conditions : Option Filter}
    {write : Except StoreError (List Row)}
    (hrun : guardedWrite t filter conditions params write = .ok (result, written)) :
    written = t ∨ ∃ rows, write = .ok rows ∧ written = { t with rows } := by
  unfold guardedWrite at hrun
  cases conditions with
  | none =>
    cases write with
    | error e => cases hrun
    | ok rows => exact .inr ⟨rows, rfl, (Prod.mk.inj (Except.ok.inj hrun)).2.symm⟩
  | some c =>
    dsimp only at hrun
    split at hrun
    · cases write with
      | error e => cases hrun
      | ok rows => exact .inr ⟨rows, rfl, (Prod.mk.inj (Except.ok.inj hrun)).2.symm⟩
    · exact .inl (Prod.mk.inj (Except.ok.inj hrun)).2.symm

theorem assign_eq_extend (params : List Value)
    (assignments : List (String × Operand)) (row : Row) :
    assign params assignments row = row.extend ⟨assignments.map
      fun (column, operand) => (column, resolve params operand)⟩ := by
  rw [NameMap.extend, List.foldl_map]
  rfl

/-- A column of a row after assignments holds what it did, or what one of them
gives it. -/
theorem get?_assign (params : List Value) (assignments : List (String × Operand))
    (row : Row) (column : String) :
    (assign params assignments row).get? column = row.get? column ∨
      ∃ operand, (column, operand) ∈ assignments ∧
        (assign params assignments row).get? column =
          some (resolve params operand) := by
  rw [assign_eq_extend]
  refine (NameMap.get?_extend_cases row _ column).imp_right ?_
  rintro ⟨_, hmem, hvalue⟩
  obtain ⟨⟨_, operand⟩, hassignment, heq⟩ := List.mem_map.mp hmem
  obtain ⟨rfl, rfl⟩ := Prod.mk.inj heq
  exact ⟨operand, hassignment, hvalue⟩

/-- Whether a statement leaves the keys of a table alone: an update assigns to
the key columns of its targets only values that they hold. -/
def SparesKeys (tables : Tables) (params : List Value) : Statement → Prop
  | .update s =>
    ∀ table, tables.get? s.table = some table →
      ∀ row ∈ table.rows, passes params s.filter row = true → ∀ column operand,
          (column, operand) ∈ s.assignments → column ∈ table.keys →
            (row.get? column == some (resolve params operand)) = true
  | _ => True

theorem keyed_update (h : t.Keyed) {s : UpdateStatement}
    (hspares : ∀ row ∈ t.rows, passes params s.filter row = true → ∀ column operand,
      (column, operand) ∈ s.assignments → column ∈ t.keys →
        (row.get? column == some (resolve params operand)) = true)
    (hrun : update t s params = .ok (result, written)) : written.Keyed := by
  rcases guardedWrite_eq_ok hrun with rfl | ⟨rows, hrows, rfl⟩
  · exact h
  · obtain rfl := Except.ok.inj hrows
    refine h.map fun row hrow => ?_
    by_cases hpasses : passes params s.filter row = true
    · rw [if_pos hpasses]
      intro column hcolumn
      rcases get?_assign params s.assignments row column
        with hkept | ⟨operand, hmem, hvalue⟩
      · exact .inl hkept
      · rw [hvalue]
        exact .inr (PartialEquivBEq.symm
          (hspares row hrow hpasses column operand hmem hcolumn))
    · rw [if_neg hpasses]
      exact Table.holds_self t.keys row

theorem get?_clear {columns : List String} {column : String} (h : column ∉ columns)
    (row : Row) : (clear columns row).get? column = row.get? column := by
  induction columns generalizing row with
  | nil => rfl
  | cons first rest ih =>
    obtain ⟨hfirst, hrest⟩ := not_or.mp (List.mem_cons.not.mp h)
    have hstep : clear (first :: rest) row = clear rest (row.erase first) := rfl
    rw [hstep, ih hrest, NameMap.get?_erase, if_neg (Ne.symm hfirst)]

theorem keyed_delete (h : t.Keyed) {s : DeleteStatement}
    (hrun : delete t s params = .ok (result, written)) : written.Keyed := by
  rcases guardedWrite_eq_ok hrun with rfl | ⟨rows, hrows, rfl⟩
  · exact h
  · split at hrows
    · obtain rfl := Except.ok.inj hrows
      exact h.filter _
    · split at hrows
      · cases hrows
      · next hnone =>
        obtain rfl := Except.ok.inj hrows
        refine h.map fun row _ column hcolumn => .inl ?_
        have hcleared : column ∉ s.columns := fun hmem => by
          have hkey := List.find?_eq_none.mp hnone column hmem
          exact hkey (List.contains_iff_mem.mpr hcolumn)
        split
        · exact get?_clear hcleared row
        · rfl

end Store

/-- Every table is keyed. -/
def Tables.Keyed (tables : Tables) : Prop :=
  ∀ name table, tables.get? name = some table → table.Keyed

variable {tables : Tables}

theorem Tables.Keyed.insert (h : tables.Keyed) (name : String) {table : Table}
    (htable : table.Keyed) : Tables.Keyed (NameMap.insert tables name table) := by
  intro other found hfound
  rw [NameMap.get?_insert] at hfound
  by_cases hname : name = other
  · rw [if_pos hname] at hfound
    rwa [← Option.some.inj hfound]
  · rw [if_neg hname] at hfound
    exact h other found hfound

theorem Tables.table_eq_ok {name : String} {table : Table} :
    tables.table name = .ok table ↔ tables.get? name = some table := by
  unfold Tables.table
  cases tables.get? name <;> simp

namespace Store

variable {params : List Value} {result : ResultSet}

theorem keyed_write (h : tables.Keyed) {name : String}
    {run : Table → Except StoreError (ResultSet × Table)} {after : Tables}
    (hkeyed : ∀ table, tables.get? name = some table → ∀ result written,
      run table = .ok (result, written) → written.Keyed)
    (hrun : write tables name run = .ok (result, after)) : after.Keyed := by
  unfold write at hrun
  cases htable : tables.table name with
  | error e => simp [htable, bind, Except.bind] at hrun
  | ok table =>
    simp only [htable, bind, Except.bind] at hrun
    cases hresult : run table with
    | error e => simp [hresult] at hrun
    | ok made =>
      rw [hresult] at hrun
      obtain ⟨-, rfl⟩ := Prod.mk.inj (Except.ok.inj hrun)
      exact h.insert name (hkeyed table (Tables.table_eq_ok.mp htable) _ _ hresult)

/-- A statement that spares the keys keeps every table keyed. -/
theorem keyed_execute (h : tables.Keyed) {statement : Statement}
    {after : Tables} (hspares : SparesKeys tables params statement)
    (hrun : execute tables statement params = .ok (result, after)) :
    after.Keyed := by
  cases statement with
  | select s =>
    simp only [execute] at hrun
    cases hselect : select tables s params with
    | error e => simp [hselect, Except.map] at hrun
    | ok rows =>
      rw [hselect] at hrun
      obtain ⟨-, rfl⟩ := Prod.mk.inj (Except.ok.inj hrun)
      exact h
  | insert s =>
    exact keyed_write h
      (fun table htable _ _ hinsert => keyed_insert (h _ table htable) hinsert) hrun
  | update s =>
    exact keyed_write h (fun table htable _ _ hupdate =>
      keyed_update (h _ table htable) (hspares table htable) hupdate) hrun
  | delete s =>
    exact keyed_write h
      (fun table htable _ _ hdelete => keyed_delete (h _ table htable) hdelete) hrun

end Store

namespace Database

/-! ## Histories -/

/-- What can be done to a database. A row given without a command has each
column once. -/
inductive Step
  | createTable (name : String) (keys : List String)
  | insertRow (name : String) (row : Row) (ordered : row.WellFormed)
  | run (command : Command)

/-- Do a step. One that fails leaves the tables as they are. -/
def apply (db : Database) : Step → Database
  | .createTable name keys => db.createTable name keys
  | .insertRow name row _ =>
    match db.insertRow name row with
    | .ok written => written
    | .error _ => db
  | .run command => (db.run command).2

/-- The database after steps, from an empty one. -/
def replay (steps : List Step) : Database := steps.foldl apply {}

/-- Whether a step leaves the keys alone: it is not a command with an update
that changes them. -/
def Step.SparesKeys (tables : Tables) : Step → Prop
  | .run command => ∀ parsed, ParsedCommand.parse command.text = .ok parsed →
      Store.SparesKeys tables command.params parsed.statement
  | _ => True

/-- Whether each of the steps leaves the keys alone in the database that it is
done to. -/
def SparesKeys (db : Database) : List Step → Prop
  | [] => True
  | step :: rest => step.SparesKeys db.tables ∧ (db.apply step).SparesKeys rest

variable {db : Database}

theorem keyed_insertRow (h : db.tables.Keyed) {name : String} {row : Row}
    (hrow : row.WellFormed) {after : Database}
    (hinsert : db.insertRow name row = .ok after) : after.tables.Keyed := by
  unfold insertRow at hinsert
  cases htable : db.tables.table name with
  | error e => simp [htable, bind, Except.bind] at hinsert
  | ok table =>
    simp only [htable, bind, Except.bind] at hinsert
    cases hupsert : table.upsert name row with
    | error e => simp [hupsert] at hinsert
    | ok written =>
      rw [hupsert] at hinsert
      obtain rfl := Except.ok.inj hinsert
      exact h.insert name
        ((h name table (Tables.table_eq_ok.mp htable)).upsert hrow hupsert)

theorem keyed_run (h : db.tables.Keyed) {command : Command}
    (hspares : (Step.run command).SparesKeys db.tables) :
    (db.run command).2.tables.Keyed := by
  unfold run
  cases hevaluate : evaluate db.tables command with
  | error e => exact h
  | ok made =>
    obtain ⟨result, after⟩ := made
    unfold evaluate at hevaluate
    cases hparse : ParsedCommand.parse command.text with
    | error e => simp [hparse] at hevaluate
    | ok parsed =>
      simp only [hparse] at hevaluate
      split at hevaluate
      · cases hevaluate
      · exact Store.keyed_execute h (hspares parsed hparse) hevaluate

theorem keyed_apply (h : db.tables.Keyed) {step : Step}
    (hspares : step.SparesKeys db.tables) : (db.apply step).tables.Keyed := by
  cases step with
  | createTable name keys => exact h.insert name (Table.keyed_empty keys)
  | insertRow name row ordered =>
    unfold apply
    dsimp only
    cases hinsert : db.insertRow name row with
    | ok written => exact keyed_insertRow h ordered hinsert
    | error e => exact h
  | run command => exact keyed_run h hspares

theorem keyed_foldl {steps : List Step} (h : db.tables.Keyed)
    (hspares : db.SparesKeys steps) : (steps.foldl apply db).tables.Keyed := by
  induction steps generalizing db with
  | nil => exact h
  | cons step rest ih => exact ih (keyed_apply h hspares.1) hspares.2

/-- After any steps from an empty database whose updates leave the keys alone,
every row of a table has a value in each key column and no two rows have the
same ones. -/
theorem replay_keyed (steps : List Step) (hspares : SparesKeys {} steps)
    (name : String) (table : Table)
    (htable : (replay steps).tables.get? name = some table) :
    (∀ row ∈ table.rows, ∀ column ∈ table.keys,
      ∃ value, row.get? column = some value ∧ value.isNull = false) ∧
      table.rows.Pairwise fun row other =>
      ∃ column ∈ table.keys, (row.get? column == other.get? column) = false := by
  have hempty : Tables.Keyed ({} : Database).tables :=
    fun _ _ hnone => by cases hnone
  have hkeyed := keyed_foldl hempty hspares name table htable
  refine ⟨hkeyed.present, hkeyed.distinct.imp fun hdistinct => ?_⟩
  simpa [Table.agree] using hdistinct

/-! ### An update of a key column -/

/-- A command that sets the key of one row. -/
def setKey (old new : Value) : Command :=
  ⟨"UPDATE t SET id = ? WHERE id = ?", [new, old]⟩

/-- What the command says. -/
def keyUpdate : UpdateStatement where
  table := "t"
  ttl := none
  assignments := [("id", .param 0)]
  filter := some (.compare "id" .eq (.param 1))
  conditions := none

theorem parse_setKey (old new : Value) :
    ParsedCommand.parse (setKey old new).text = .ok ⟨.update keyUpdate, 2⟩ := by
  have hlexes : Token.Lexes (setKey old new).text.toList [.keyword .update,
      .name "t", .keyword .set, .name "id", .symbol .eq, .symbol .param,
      .keyword .where, .name "id", .symbol .eq, .symbol .param] :=
    Token.lexes_of_read
      (rfl : Token.read "UPDATE t SET id = ? WHERE id = ?" = .ok _)
  have htable : Parser.Path [.name "t"] "t" := .last (by cbv)
  have hcolumn : Parser.Path [.name "id"] "id" := .last (by cbv)
  have hassignments :
      (Parser.commaSeparated Parser.assignment).Reads [.symbol .comma]
        [.name "id", .symbol .eq, .symbol .param] 0 [("id", .param 0)] 1 :=
    Parser.reads_separated (.one (Parser.reads_assignment hcolumn.column 0))
      (by simp)
  have hterm : Parser.Terms 0 [.name "id", .symbol .eq, .symbol .param] 1
      [.compare "id" .eq (.param 1)] 2 :=
    .one fun _ _ => Parser.reads_term_column hcolumn.column
      (Parser.reads_compare hcolumn.column .eq (Parser.operandAt_placeholder 1))
  have hfilter := Parser.clause_filter (k := .where)
    (Parser.reads_filter hterm.blocks (Nat.zero_le _))
  exact ParsedCommand.parse_eq_ok hlexes (Parser.takes_statement_update
    (Parser.takes_update htable (Parser.clause_noTtl 0) hassignments hfilter
      (Parser.clause_noFilter .if 2)))

/-- A row with a key only. -/
def keyRow (key : Value) : Row := (∅ : Row).insert "id" key

theorem wellFormed_keyRow (key : Value) : (keyRow key).WellFormed :=
  NameMap.wellFormed_empty.insert "id" key

/-- Two rows. -/
def twoRows (first second : Value) : List Step :=
  [.createTable "t" ["id"], .insertRow "t" (keyRow first) (wellFormed_keyRow first),
    .insertRow "t" (keyRow second) (wellFormed_keyRow second)]

/-- Two rows, the key of one being set from zero to the other zero, which is
equal to it. -/
def zeroSteps : List Step :=
  twoRows (.float (.zero false)) (.int 1) ++
    [.run (setKey (.float (.zero false)) (.float (.zero true)))]

theorem sparesKeys_zeroSteps : SparesKeys {} zeroSteps := by
  refine ⟨trivial, trivial, trivial, fun parsed hparse => ?_, trivial⟩
  obtain rfl := Except.ok.inj ((parse_setKey _ _).symm.trans hparse)
  intro table htable row hrow hpasses column operand hmem hcolumn
  obtain rfl : ⟨["id"], [keyRow (.float (.zero false)), keyRow (.int 1)]⟩ = table :=
    Option.some.inj htable
  obtain ⟨rfl, rfl⟩ := Prod.mk.inj (List.mem_singleton.mp hmem)
  rcases List.mem_cons.mp hrow with rfl | hrow
  · decide
  · obtain rfl := List.mem_singleton.mp hrow
    exact absurd hpasses (by decide)

theorem replay_keyed_zeroSteps : (replay zeroSteps).tables.get? "t" =
      some ⟨["id"], [keyRow (.float (.zero true)), keyRow (.int 1)]⟩ ∧
    (∀ row ∈ [keyRow (.float (.zero true)), keyRow (.int 1)], ∀ column ∈ ["id"],
      ∃ value, row.get? column = some value ∧ value.isNull = false) ∧
    [keyRow (.float (.zero true)), keyRow (.int 1)].Pairwise fun row other =>
      ∃ column ∈ ["id"], (row.get? column == other.get? column) = false := by
  have htable : (replay zeroSteps).tables.get? "t" =
      some ⟨["id"], [keyRow (.float (.zero true)), keyRow (.int 1)]⟩ := by
    simp only [zeroSteps, twoRows, List.cons_append, List.nil_append, replay,
      List.foldl, apply, run, evaluate, parse_setKey]
    rfl
  exact ⟨htable, replay_keyed zeroSteps sparesKeys_zeroSteps "t" _ htable⟩

/-- Two rows, the keys of both being cleared. -/
def clearingSteps : List Step :=
  twoRows (.int 1) (.int 2) ++
    [.run (setKey (.int 1) .null), .run (setKey (.int 2) .null)]

/-- Updates that clear the key column are carried out: no row has a key, and the
rows agree. -/
theorem updates_clear_keys :
    ∃ table, (replay clearingSteps).tables.get? "t" = some table ∧
      table.keys = ["id"] ∧ table.rows = [keyRow .null, keyRow .null] ∧
      (¬ ∃ value, (keyRow .null).get? "id" = some value ∧ value.isNull = false) ∧
      ((keyRow .null).get? "id" == (keyRow .null).get? "id") = true := by
  have htable : (replay clearingSteps).tables.get? "t" =
      some ⟨["id"], [keyRow .null, keyRow .null]⟩ := by
    simp only [clearingSteps, twoRows, List.cons_append, List.nil_append,
      replay, List.foldl, apply, run, evaluate, parse_setKey]
    rfl
  refine ⟨_, htable, rfl, rfl, ?_, rfl⟩
  rintro ⟨value, hvalue, hnull⟩
  obtain rfl : .null = value := Option.some.inj hvalue
  cases hnull

end Database

end EntityMapper
