import EntityMapper.Store.Execution

/-!
# What a query selects

A query goes through the stored rows in five steps: those that pass the filter,
sorted, the first ones skipped, as many as asked for taken, and their columns
shown. Each shown row comes from a stored row that passes the filter, and there
are no more of them than such rows.
-/

namespace EntityMapper.Store

/-! ## Sorted rows -/

/-- Rows in no asked order stay as they are. -/
theorem sortRows_nil (rows : List Row) : sortRows [] rows = rows := by
  have hfold (sorted rows : List Row) : rows.foldl (fun sorted x =>
        insertFromEnd (fun a b => rowOrder [] a b == .lt) x sorted) sorted =
      rows.reverse ++ sorted := by
    induction rows generalizing sorted with
    | nil => rfl
    | cons row rest ih =>
      have hhead : insertFromEnd (fun a b => rowOrder [] a b == .lt) row sorted =
          row :: sorted := by
        cases sorted <;> rfl
      rw [List.foldl_cons, hhead, ih, List.reverse_cons, List.append_assoc,
        List.singleton_append]
  calc
    sortRows [] rows = (rows.reverse ++ []).reverse := by
      rw [sortRows, stableSort, hfold]
    _ = rows := by rw [List.append_nil, List.reverse_reverse]

theorem perm_insertFromEnd {α : Type} (less : α → α → Bool) (x : α)
    (items : List α) : (insertFromEnd less x items).Perm (x :: items) := by
  induction items with
  | nil => rfl
  | cons y rest ih =>
    rw [insertFromEnd]
    split
    · exact (ih.cons y).trans (.swap x y rest)
    · rfl

theorem perm_stableSort {α : Type} (less : α → α → Bool) (items : List α) :
    (stableSort less items).Perm items := by
  have hfold (items sorted : List α) :
      (items.foldl (fun sorted x => insertFromEnd less x sorted) sorted).Perm
        (items ++ sorted) := by
    induction items generalizing sorted with
    | nil => rfl
    | cons x rest ih =>
      calc
        ((x :: rest).foldl (fun sorted x => insertFromEnd less x sorted)
          sorted).Perm (rest ++ insertFromEnd less x sorted) := ih _
        List.Perm _ (rest ++ x :: sorted) :=
          (perm_insertFromEnd less x sorted).append_left rest
        List.Perm _ (x :: (rest ++ sorted)) := List.perm_middle
  simpa [stableSort] using (List.reverse_perm _).trans (hfold items [])

theorem perm_sortRows (orders : List (String × Direction)) (rows : List Row) :
    (sortRows orders rows).Perm rows :=
  perm_stableSort ..

/-! ## Shown rows -/

/-- The first of some rows, if there is a limit. -/
def limited (limit : Option Nat) (rows : List Row) : List Row :=
  match limit with
  | some limit => rows.take limit
  | none => rows

/-- Rows as a select list shows them. -/
def shown (projection : Projection) (rows : List Row) : List Row :=
  match projection with
  | .columns columns => rows.map (project columns)
  | _ => rows

/-- A row as a query shows it. -/
def shownRow (projection : Projection) (row : Row) : Row :=
  match projection with
  | .columns columns => project columns row
  | _ => row

/-- The stored rows that a query shows, in their order. -/
def chosen (s : SelectStatement) (params : List Value) (rows : List Row) :
    List Row :=
  limited s.limit ((sortRows s.orderBy (rows.filter (passes params s.filter))).drop
    (s.offset.getD 0))

variable {tables : Tables} {s : SelectStatement} {params : List Value}
  {rows : List Row}

theorem sublist_limited (limit : Option Nat) (rows : List Row) :
    (limited limit rows).Sublist rows := by
  unfold limited
  split
  · exact List.take_sublist ..
  · exact .refl _

theorem sublist_chosen : (chosen s params rows).Sublist
    (sortRows s.orderBy (rows.filter (passes params s.filter))) :=
  (sublist_limited ..).trans (List.drop_sublist ..)

theorem mem_chosen {row : Row} (h : row ∈ chosen s params rows) :
    row ∈ rows ∧ passes params s.filter row = true :=
  List.mem_filter.mp ((perm_sortRows _ _).mem_iff.mp (sublist_chosen.mem h))

theorem length_chosen_le :
    (chosen s params rows).length ≤ (rows.filter (passes params s.filter)).length :=
  Nat.le_trans sublist_chosen.length_le (Nat.le_of_eq (perm_sortRows ..).length_eq)

/-- A query that is not a count gives the chosen rows of its table, as it shows
them. -/
theorem select_eq_ok {result : ResultSet} (hcount : s.projection ≠ .count)
    (h : select tables s params = .ok result) :
    ∃ t, tables.get? s.table = some t ∧
      result = .ofRows ((chosen s params t.rows).map (shownRow s.projection)) := by
  unfold select at h
  cases hgroup : s.groupBy.isEmpty with
  | false =>
    simp [hgroup, throw, throwThe, MonadExceptOf.throw, bind, Except.bind] at h
  | true =>
    cases htable : tables.get? s.table with
    | none => simp [hgroup, Tables.table, htable, bind, Except.bind] at h
    | some t =>
      refine ⟨t, rfl, ?_⟩
      simp only [hgroup, Tables.table, htable, bind, Except.bind, pure,
        Except.pure, Bool.not_true, Bool.false_eq_true, if_false] at h
      cases hprojection : s.projection with
      | count => exact absurd hprojection hcount
      | all =>
        rw [hprojection] at h
        exact (Except.ok.inj h).symm.trans (congrArg _ (List.map_id _).symm)
      | columns columns =>
        rw [hprojection] at h
        exact (Except.ok.inj h).symm

/-- A count gives one row. -/
theorem select_count_eq_ok {result : ResultSet} (hcount : s.projection = .count)
    (h : select tables s params = .ok result) : ∃ row, result = .ofRows [row] := by
  unfold select at h
  rw [hcount] at h
  cases hgroup : s.groupBy.isEmpty with
  | false =>
    simp [hgroup, throw, throwThe, MonadExceptOf.throw, bind, Except.bind] at h
  | true =>
    cases htable : tables.get? s.table with
    | none => simp [hgroup, Tables.table, htable, bind, Except.bind] at h
    | some t =>
      simp only [hgroup, Tables.table, htable, bind, Except.bind, pure,
        Except.pure, Bool.not_true, Bool.false_eq_true, if_false] at h
      exact ⟨_, (Except.ok.inj h).symm⟩

/-- A query without groups, an order and an offset gives the first of the rows
that pass its filter. -/
theorem select_plain {tables : Tables} {s : SelectStatement} {params : List Value}
    (hgroup : s.groupBy = []) (horder : s.orderBy = []) (hoffset : s.offset = none)
    (hcount : s.projection ≠ .count) :
    select tables s params = (tables.table s.table).map fun table =>
      .ofRows (shown s.projection
        (limited s.limit (table.rows.filter (passes params s.filter)))) := by
  unfold select
  rw [hgroup, horder, hoffset]
  cases htable : tables.table s.table with
  | error e => rfl
  | ok table =>
    simp only [List.isEmpty_nil, Bool.not_true, Bool.false_eq_true, if_false,
      bind, Except.bind, pure, Except.pure, sortRows_nil, Option.getD_none,
      List.drop_zero, Except.map]
    cases hprojection : s.projection with
    | all => rfl
    | columns columns => rfl
    | count => exact absurd hprojection hcount

end EntityMapper.Store
