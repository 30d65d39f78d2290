import EntityMapper.Proofs.Store.Writes

/-!
# Statements that are executed again

A writer that does not know whether its statement was carried out may execute it
again: right after its first execution a statement leaves every table as it is.
This holds although the second execution may find other targets, since an update
may write to a column that its filter reads, and although its conditions may
come out differently. Whatever rows pass the filter the second time were targets
the first time, and have been given the values that they would be given; rows
that were removed are gone; and a row that was inserted is found by its key.

The last needs a key that is equal to itself. A key with a NaN in it is never
found, so each insertion of such a row adds another.
-/

namespace EntityMapper

/-- The tables that a statement leaves. A statement that fails leaves them as
they are. -/
def Tables.after (tables : Tables) (statement : Statement)
    (params : List Value) : Tables :=
  match Store.execute tables statement params with
  | .ok (_, after) => after
  | .error _ => tables

namespace Table

variable {name : String} {keys : List String} {key : List Value} {row : Row}
  {rows : List Row}

/-! ## A row that is inserted twice -/

/-- A row with a key that is equal to itself gives that key to any row it is
written over. -/
theorem hasKey_extend (hrow : row.WellFormed)
    (hkey : keyOf name row keys = .ok key) (hself : agree keys row row = true)
    (old : Row) : hasKey (old.extend row) keys key = true := by
  rw [hasKey_eq_agree hkey, agree_iff]
  intro column hcolumn
  obtain ⟨value, hvalue, -⟩ := filled_of_keyOf hkey column hcolumn
  rw [NameMap.get?_extend old hrow, hvalue, Option.some_or, ← hvalue]
  exact agree_iff.mp hself column hcolumn

/-- The second insertion of a row writes it over itself. -/
theorem upsertRows_upsertRows (hrow : row.WellFormed)
    (hkey : keyOf name row keys = .ok key) (hself : agree keys row row = true)
    (rows : List Row) :
    upsertRows keys key row (upsertRows keys key row rows) =
      upsertRows keys key row rows := by
  induction rows with
  | nil =>
    have hown : hasKey row keys key = true := (hasKey_eq_agree hkey).trans hself
    rw [upsertRows, upsertRows, if_pos hown, hrow.extend_self]
  | cons old rest ih =>
    rw [upsertRows]
    by_cases hold : hasKey old keys key = true
    · rw [if_pos hold, upsertRows, if_pos (hasKey_extend hrow hkey hself old),
        NameMap.extend_extend]
    · rw [if_neg hold, upsertRows, if_neg hold, ih]

/-- A row that is put behind others that do not have its key is found by it. -/
theorem find?_append_self {t : Table} (hnone : t.find? key = none)
    (hown : hasKey row t.keys key = true) :
    find? ⟨t.keys, t.rows ++ [row]⟩ key = some row := by
  unfold find? at hnone ⊢
  rw [List.find?_append, hnone, Option.none_or]
  exact List.find?_cons_of_pos hown

end Table

namespace Store

variable {t : Table} {params : List Value} {filter conditions : Option Filter}

/-! ## Tables on which a write has settled -/

/-- A write of which the second execution, if it succeeds at all, leaves the
table as the first one did. -/
def Settles (run : Table → Except StoreError (ResultSet × Table)) (t : Table) :
    Prop :=
  ∀ result after, run t = .ok (result, after) →
    ∀ again last, run after = .ok (again, last) → last = after

theorem settles_insert {s : InsertStatement}
    (hself : Table.agree t.keys (insertedRow s params) (insertedRow s params) =
      true) : Settles (insert · s params) t := by
  have hrow : (insertedRow s params).WellFormed := NameMap.wellFormed_ofList _
  intro result after hrun again last hagain
  rcases insert_cases t s params with ⟨e, he⟩ | ⟨key, hkey, ⟨hplain, hover⟩ |
    ⟨hguard, current, -, hpresent⟩ | ⟨hguard, hfind, habsent⟩⟩
  · cases he.symm.trans hrun
  · obtain ⟨-, rfl⟩ := Prod.mk.inj (Except.ok.inj (hrun.symm.trans hover))
    have hsecond := hagain.symm.trans (insert_over (t := ⟨t.keys, _⟩) hplain hkey)
    rw [(Prod.mk.inj (Except.ok.inj hsecond)).2]
    exact congrArg (Table.mk t.keys)
      (Table.upsertRows_upsertRows hrow hkey hself t.rows)
  · obtain ⟨-, rfl⟩ := Prod.mk.inj (Except.ok.inj (hrun.symm.trans hpresent))
    exact (Prod.mk.inj (Except.ok.inj (hagain.symm.trans hpresent))).2
  · obtain ⟨-, rfl⟩ := Prod.mk.inj (Except.ok.inj (hrun.symm.trans habsent))
    -- The row that was put behind the others is the one that the second
    -- insertion finds.
    have hfound :=
      Table.find?_append_self hfind ((Table.hasKey_eq_agree hkey).trans hself)
    have hsecond := hagain.symm.trans (insert_present
      (t := ⟨t.keys, t.rows ++ [insertedRow s params]⟩) hguard hkey hfound)
    exact (Prod.mk.inj (Except.ok.inj hsecond)).2

/-- A guarded write settles if what it does to the rows does nothing to the rows
it leaves. -/
theorem settles_guardedWrite {write : Table → Except StoreError (List Row)}
    (hwrite : ∀ rows, write t = .ok rows →
      ∀ more, write { t with rows } = .ok more → more = rows) :
    Settles (fun t => guardedWrite t filter conditions params (write t)) t := by
  intro result after hrun again last hagain
  rcases guardedWrite_eq_ok hrun with rfl | ⟨rows, hrows, rfl⟩
  · cases hrun.symm.trans hagain
    rfl
  · rcases guardedWrite_eq_ok hagain with rfl | ⟨more, hmore, rfl⟩
    · rfl
    · rw [hwrite rows hrows more hmore]

/-- To change the rows that pass a test, in a way that does nothing to changed
rows, changes nothing the second time, whether or not a changed row still
passes. -/
theorem map_if_map_if {test : Row → Bool} {change : Row → Row}
    (h : ∀ row, change (change row) = change row) (rows : List Row) :
    (rows.map fun row => if test row then change row else row).map
        (fun row => if test row then change row else row) =
      rows.map fun row => if test row then change row else row := by
  rw [List.map_map]
  refine List.map_congr_left fun row _ => ?_
  rw [Function.comp_apply]
  by_cases hrow : test row = true
  · rw [if_pos hrow, h, ite_self]
  · rw [if_neg hrow, if_neg hrow]

theorem assign_assign (params : List Value)
    (assignments : List (String × Operand)) (row : Row) :
    assign params assignments (assign params assignments row) =
      assign params assignments row := by
  simp only [assign_eq_extend, NameMap.extend_extend]

theorem clear_eq_filter (columns : List String) (row : Row) :
    clear columns row =
      ⟨row.entries.filter fun entry => decide (entry.1 ∉ columns)⟩ := by
  induction columns generalizing row with
  | nil => simp [clear]
  | cons column rest ih =>
    have hstep : clear (column :: rest) row = clear rest (row.erase column) := rfl
    rw [hstep, ih, NameMap.erase, List.filter_filter]
    simp [Bool.and_comm]

theorem clear_clear (columns : List String) (row : Row) :
    clear columns (clear columns row) = clear columns row := by
  simp [clear_eq_filter, List.filter_filter]

theorem settles_update (s : UpdateStatement) : Settles (update · s params) t := by
  refine settles_guardedWrite fun rows hrows more hmore => ?_
  obtain rfl := Except.ok.inj hrows
  rw [← Except.ok.inj hmore]
  exact map_if_map_if (assign_assign params s.assignments) t.rows

theorem settles_delete (s : DeleteStatement) : Settles (delete · s params) t := by
  refine settles_guardedWrite fun rows hrows more hmore => ?_
  dsimp only at hrows hmore
  by_cases hwhole : s.columns.isEmpty = true
  · rw [if_pos hwhole] at hrows hmore
    obtain rfl := Except.ok.inj hrows
    rw [← Except.ok.inj hmore, List.filter_filter]
    simp
  · rw [if_neg hwhole] at hrows hmore
    split at hrows
    · cases hrows
    · next hnone =>
      rw [hnone] at hmore
      obtain rfl := Except.ok.inj hrows
      rw [← Except.ok.inj hmore]
      exact map_if_map_if (clear_clear s.columns) t.rows

end Store

namespace Tables

variable {tables : Tables} {name : String} {params : List Value}
  {run : Table → Except StoreError (ResultSet × Table)}

/-! ## Statements -/

/-- Whether the key that a statement inserts is equal to itself in the columns
of its table. -/
def InsertsSelfEqual (tables : Tables) (params : List Value) : Statement → Prop
  | .insert s =>
    ∀ table, tables.get? s.table = some table → Table.agree table.keys
        (Store.insertedRow s params) (Store.insertedRow s params) = true
  | _ => True

/-- Statements on a table on which they settle. -/
theorem after_after_of_settles {statement : Statement}
    (hexecute : ∀ tables,
      Store.execute tables statement params = Store.write tables name run)
    (hsettles : ∀ t, tables.get? name = some t → Store.Settles run t) :
    (tables.after statement params).after statement params =
      tables.after statement params := by
  rcases Store.write_cases tables name run
    with ⟨e, he⟩ | ⟨t, result, after, htable, hrun, hwrite⟩
  · have hfirst : tables.after statement params = tables := by
      rw [Tables.after, hexecute, he]
    rw [hfirst, hfirst]
  · have hfirst : tables.after statement params =
        NameMap.insert tables name after := by
      rw [Tables.after, hexecute, hwrite]
    rw [hfirst, Tables.after, hexecute]
    rcases Store.write_cases (NameMap.insert tables name after) name run with
      ⟨e, he⟩ | ⟨found, again, last, hfound, hagain, hwrite⟩
    · rw [he]
    · rw [NameMap.get?_insert_self] at hfound
      obtain rfl := Option.some.inj hfound
      rw [hwrite, hsettles t htable result after hrun again last hagain]
      exact NameMap.insert_insert tables name after after

/-- A statement can be executed again: right after its first execution it leaves
every table as it is, whether that execution succeeded, was refused by
conditions or by a guard, or failed. The key of an insertion has to be equal to
itself. -/
theorem after_after (tables : Tables) (statement : Statement)
    (params : List Value) (hself : tables.InsertsSelfEqual params statement) :
    (tables.after statement params).after statement params =
      tables.after statement params := by
  cases statement with
  | select s =>
    have hsame (tables : Tables) : tables.after (.select s) params = tables := by
      rw [Tables.after, Store.execute]
      cases Store.select tables s params <;> rfl
    rw [hsame, hsame]
  | insert s =>
    exact after_after_of_settles (fun _ => rfl)
      fun t ht => Store.settles_insert (hself t ht)
  | update s =>
    exact after_after_of_settles (fun _ => rfl) fun t _ => Store.settles_update s
  | delete s =>
    exact after_after_of_settles (fun _ => rfl) fun t _ => Store.settles_delete s

/-! ### Zeros and a NaN as keys -/

/-- An insertion into a table of counts. -/
def countInsertion : InsertStatement where
  table := "counts"
  columns := ["id", "n"]
  values := [.param 0, .param 1]
  ifNotExists := false
  ttl := none

/-- A table of counts with two rows, the key of one being zero. -/
def countTables : Tables := (∅ : Tables).insert "counts"
  ⟨["id"], [.ofList [("id", .float (.zero false)), ("n", .int 5)],
    .ofList [("id", .int 2), ("n", .int 7)]]⟩

/-- An insertion by the key of the other zero is written over the row both times. -/
theorem after_after_zero :
    countTables.after (.insert countInsertion) [.float (.zero true), .int 6] =
      (∅ : Tables).insert "counts"
        ⟨["id"], [.ofList [("id", .float (.zero true)), ("n", .int 6)],
          .ofList [("id", .int 2), ("n", .int 7)]]⟩ ∧
    (countTables.after (.insert countInsertion) [.float (.zero true), .int 6]).after
        (.insert countInsertion) [.float (.zero true), .int 6] =
      countTables.after (.insert countInsertion) [.float (.zero true), .int 6] := by
  refine ⟨rfl,
    after_after countTables (.insert countInsertion) _ fun table htable => ?_⟩
  obtain rfl := Option.some.inj htable
  decide

/-- A row that has a NaN for its key is added by each insertion. -/
example : ((countTables.after (.insert countInsertion) [.float .nan, .int 6]).after
      (.insert countInsertion) [.float .nan, .int 6]).values.map (·.rows.length) =
    [4] := by
  decide

end Tables

end EntityMapper
