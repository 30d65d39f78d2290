import EntityMapper.Proofs.Store.Keys

/-!
# What writes can do

Every way in which a write can end, with the result that it gives and the table
that it leaves. An insertion fails without a key; under a guard it is refused if
there is a row with its key. An update or a deletion is refused by its
conditions before it looks at what is to be written, and so before it can fail.
A write to the tables replaces the one of its name.
-/

namespace EntityMapper.Store

variable {t after : Table} {params : List Value} {result : ResultSet}

/-! ## Insertions -/

section Insertion

variable {s : InsertStatement} {key : List Value} {e : StoreError}

theorem insert_keyless
    (h : Table.keyOf s.table (insertedRow s params) t.keys = .error e) :
    insert t s params = .error e := by
  rw [insert, Table.upsert, h]
  cases s.ifNotExists <;> rfl

theorem insert_over (hplain : s.ifNotExists = false)
    (h : Table.keyOf s.table (insertedRow s params) t.keys = .ok key) :
    insert t s params = .ok (.affected 1,
      { t with
        rows := Table.upsertRows t.keys key (insertedRow s params) t.rows }) := by
  rw [insert, Table.upsert, h, hplain]
  rfl

theorem insert_present (hguard : s.ifNotExists = true)
    (h : Table.keyOf s.table (insertedRow s params) t.keys = .ok key)
    {current : Row} (hfind : t.find? key = some current) :
    insert t s params = .ok (appliedResult false (some current) 0, t) := by
  rw [insert, if_pos hguard, h]
  simp only [bind, Except.bind, hfind]
  rfl

theorem insert_absent (hguard : s.ifNotExists = true)
    (h : Table.keyOf s.table (insertedRow s params) t.keys = .ok key)
    (hfind : t.find? key = none) :
    insert t s params = .ok (appliedResult true none 1,
      { t with rows := t.rows ++ [insertedRow s params] }) := by
  rw [insert, if_pos hguard, h]
  simp only [bind, Except.bind, hfind]
  rfl

/-- The four ways in which an insertion can end. -/
theorem insert_cases (t : Table) (s : InsertStatement) (params : List Value) :
    (∃ e, insert t s params = .error e) ∨
      ∃ key, Table.keyOf s.table (insertedRow s params) t.keys = .ok key ∧
        ((s.ifNotExists = false ∧ insert t s params = .ok (.affected 1,
              { t with
                rows :=
                  Table.upsertRows t.keys key (insertedRow s params) t.rows })) ∨
          (s.ifNotExists = true ∧ (∃ current, t.find? key = some current ∧
              insert t s params = .ok (appliedResult false (some current) 0, t))) ∨
          (s.ifNotExists = true ∧ t.find? key = none ∧
            insert t s params = .ok (appliedResult true none 1,
              { t with rows := t.rows ++ [insertedRow s params] }))) := by
  cases hkey : Table.keyOf s.table (insertedRow s params) t.keys with
  | error e => exact .inl ⟨e, insert_keyless hkey⟩
  | ok key =>
    refine .inr ⟨key, rfl, ?_⟩
    cases hguard : s.ifNotExists with
    | false => exact .inl ⟨rfl, insert_over hguard hkey⟩
    | true =>
      cases hfind : t.find? key with
      | none => exact .inr (.inr ⟨rfl, rfl, insert_absent hguard hkey hfind⟩)
      | some current =>
        exact .inr (.inl ⟨rfl, current, rfl, insert_present hguard hkey hfind⟩)

end Insertion

/-! ## Changes of the rows that pass a test -/

section Changes

variable {test : Row → Bool} {change : Row → Row}

theorem map_if_of_not {rows : List Row} (h : ∀ row ∈ rows, test row = false) :
    (rows.map fun row => if test row then change row else row) = rows := by
  calc
    (rows.map fun row => if test row then change row else row) =
        rows.map fun row => row :=
      List.map_congr_left fun row hrow => if_neg (by simp [h row hrow])
    _ = rows := List.map_id' rows

/-- A change of the only row that passes. -/
theorem map_if_of_one {before behind : List Row} {row : Row}
    (hrow : test row = true) (hbefore : ∀ other ∈ before, test other = false)
    (hbehind : ∀ other ∈ behind, test other = false) :
    ((before ++ row :: behind).map fun other => if test other then change other
      else other) = before ++ change row :: behind := by
  calc
    ((before ++ row :: behind).map fun other =>
          if test other then change other else other) =
        (before.map fun other => if test other then change other else other) ++
          change row ::
            behind.map fun other => if test other then change other else other := by
      rw [List.map_append, List.map_cons, if_pos hrow]
    _ = before ++ change row :: behind := by
      rw [map_if_of_not hbefore, map_if_of_not hbehind]

end Changes

/-! ## Updates and deletions -/

section Guarded

variable {filter : Option Filter} {c : Filter}
  {write : Except StoreError (List Row)}

/-- Conditions that hold let the write through. -/
theorem guardedWrite_held
    (h : conditionsHold c (t.rows.filter (passes params filter)) params = true) :
    guardedWrite t filter (some c) params write = write.map fun rows =>
      (appliedResult true none (t.rows.filter (passes params filter)).length,
          { t with rows }) := by
  rw [guardedWrite]
  exact if_pos h

/-- Conditions that do not hold refuse the write, whatever it would do. -/
theorem guardedWrite_refused
    (h : conditionsHold c (t.rows.filter (passes params filter)) params = false) :
    guardedWrite t filter (some c) params write =
      .ok (appliedResult false (t.rows.filter (passes params filter)).head? 0,
        t) := by
  rw [guardedWrite]
  exact if_neg (Bool.not_eq_true _ ▸ h)

end Guarded

/-! ## Tables by name -/

/-- What a write leaves of the tables, in terms of the table that it is on. -/
theorem write_cases (tables : Tables) (name : String)
    (run : Table → Except StoreError (ResultSet × Table)) :
    (∃ e, write tables name run = .error e) ∨
    ∃ t result after, tables.get? name = some t ∧ run t = .ok (result, after) ∧
      write tables name run = .ok (result, NameMap.insert tables name after) := by
  unfold write Tables.table
  cases htable : tables.get? name with
  | none => exact .inl ⟨_, rfl⟩
  | some t =>
    cases hrun : run t with
    | error e => exact .inl ⟨e, by simp [hrun, bind, Except.bind]⟩
    | ok made =>
      refine .inr ⟨t, made.1, made.2, rfl, hrun, ?_⟩
      simp [hrun, bind, Except.bind]
      rfl

/-- A write to a table is what it does to that table. -/
theorem write_eq_ok {tables after : Tables} {name : String} {result : ResultSet}
    {run : Table → Except StoreError (ResultSet × Table)}
    (htable : tables.get? name = some t)
    (h : write tables name run = .ok (result, after)) :
    ∃ left, run t = .ok (result, left) ∧
      after = NameMap.insert tables name left := by
  rcases write_cases tables name run
    with ⟨e, he⟩ | ⟨found, made, left, hfound, hrun, hwrite⟩
  · cases he.symm.trans h
  · cases hwrite.symm.trans h
    obtain rfl := Option.some.inj (hfound.symm.trans htable)
    exact ⟨left, hrun, rfl⟩

end EntityMapper.Store
