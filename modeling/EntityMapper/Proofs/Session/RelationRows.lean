import EntityMapper.Proofs.Grammar.ColumnNames
import EntityMapper.Proofs.Session.Commands
import EntityMapper.Proofs.Store.Comparison
import EntityMapper.Session.Resolution

/-!
# The rows that a relation reads

A relation whose related entity is known is read with one query on its table,
whose predicates are equalities: a key of the parent in a column of the related
rows, and for a polymorphic owner its tag in another. On a local store, with
names that are read back, it gives the rows in which a filter finds these
values, all of them in their order or only the first. If the parent has no key,
it gives none, and no command is sent.
-/

namespace EntityMapper

/-! ## Tests that one element passes -/

/-- At most one element of a list passes a test that no two of them pass. -/
theorem filter_eq_toList_find? {α : Type} {test : α → Bool} {xs : List α}
    (h : xs.Pairwise fun x y => test x = true → test y = false) :
    xs.filter test = (xs.find? test).toList := by
  induction xs with
  | nil => rfl
  | cons x rest ih =>
    obtain ⟨hfirst, hrest⟩ := List.pairwise_cons.mp h
    cases hx : test x with
    | true =>
      have hnone : rest.filter test = [] := List.filter_eq_nil_iff.mpr fun y hy =>
        Bool.eq_false_iff.mp (hfirst y hy hx)
      rw [List.filter_cons_of_pos hx, List.find?_cons_of_pos hx, hnone]
      rfl
    | false =>
      have hskip : ¬ test x = true := Bool.eq_false_iff.mp hx
      rw [List.filter_cons_of_neg hskip, List.find?_cons_of_neg hskip, ih hrest]

theorem find?_eq_some_iff_of_pairwise {α : Type} {test : α → Bool} {xs : List α}
    (h : xs.Pairwise fun x y => test x = true → test y = false) {x : α} :
    xs.find? test = some x ↔ x ∈ xs ∧ test x = true := by
  rw [← List.mem_filter, filter_eq_toList_find? h, Option.mem_toList]

/-! ## Equalities -/

theorem Intent.whereAll_eq (q : Intent) (pairs : Pairs) :
    q.whereAll pairs = { q with
      wheres := q.wheres ++
        pairs.map fun pair => ⟨.and, .basic pair.1 .eq pair.2⟩ } := by
  induction pairs generalizing q with
  | nil => simp [whereAll]
  | cons pair rest ih =>
    calc
      q.whereAll (pair :: rest) = (q.whereEq pair.1 pair.2).whereAll rest := rfl
      _ = { q.whereEq pair.1 pair.2 with
            wheres := (q.whereEq pair.1 pair.2).wheres ++
              rest.map fun pair => ⟨.and, .basic pair.1 .eq pair.2⟩ } := ih _
      _ = { q with
            wheres := q.wheres ++
              (pair :: rest).map fun pair => ⟨.and, .basic pair.1 .eq pair.2⟩ } := by
        simp [whereEq, whereOp, addWhere]

theorem Grammar.NamesColumn.conveys_eq {g : Grammar} {column : String}
    (h : g.NamesColumn column) (value : Value) :
    g.Conveys (.basic column .eq value) :=
  conveys_column h.readsBack rfl trivial rfl

theorem Grammar.NamesColumn.holds_eq {g : Grammar} {column : String}
    (h : g.NamesColumn column) (value : Value) (row : Row) :
    (Condition.basic column .eq value).holds row =
      Store.holdsKey column value row := by
  rw [Condition.holds, h.single]
  rfl

namespace Store

/-- Whether a filter finds each value in its column of a row. -/
def meets (pairs : Pairs) (row : Row) : Bool :=
  pairs.all fun pair => holdsKey pair.1 pair.2 row

/-- Equalities select the rows in which a filter finds their values. -/
theorem selects_equalities {g : Grammar} {pairs : Pairs}
    (h : ∀ pair ∈ pairs, g.NamesColumn pair.1) :
    selects (pairs.map fun pair => ⟨.and, .basic pair.1 .eq pair.2⟩) =
      meets pairs := by
  funext row
  rw [selects_and (List.forall_mem_map.mpr fun _ _ => rfl), List.all_map, meets]
  exact all_congr_mem fun pair hpair => (h pair hpair).holds_eq pair.2 row

end Store

/-! ## The key of a stored row -/

namespace Record

theorem bound?_hydrate (e : EntityType) (row : Row) (column : String) :
    (hydrate e row).bound? column = if (Store.cell row column).isNull then none
        else some (Store.cell row column) := by
  rw [bound?, raw?, hydrate]
  unfold Store.cell
  cases row.get? column with
  | none => rfl
  | some value => exact Value.bound?_some value

/-- A filter finds the key of a row in another, if there is one. -/
theorem any_bound?_hydrate (e : EntityType) (row : Row) (column : String)
    (other : String) (candidate : Row) :
    ((hydrate e row).bound? column).any (Store.holdsKey other · candidate) =
      Store.valuesEqual (Store.cell candidate other) (Store.cell row column) := by
  rw [bound?_hydrate]
  cases hnull : (Store.cell row column).isNull with
  | true => simp [Store.valuesEqual, hnull]
  | false => rfl

theorem hydrate_injective (e : EntityType) : Function.Injective (hydrate e) :=
  fun _ _ h => congrArg attributes h

/-- If a test finds at most one row, the record that is read by it is that of a
row which passes. -/
theorem map_find?_hydrate_iff {e : EntityType} {test : Row → Bool} {rows : List Row}
    (hunique : rows.Pairwise fun x y => test x = true → test y = false) {row : Row}
    (hrow : row ∈ rows) :
    (rows.find? test).map (hydrate e) = some (hydrate e row) ↔ test row = true := by
  rw [← Option.map_some, (Option.map_injective (hydrate_injective e)).eq_iff,
    find?_eq_some_iff_of_pairwise hunique, and_iff_right hrow]

end Record

/-! ## Records of a query -/

namespace Session

open Effect Store

variable {s : Session LocalStore} {store : LocalStore} {related : EntityType}
  {t : Table}

/-- A query with conditions that are conveyed gives the records of the rows that
they select. -/
theorem selectRecords_ok (hlocal : s.backend = LocalStore.backend)
    (htable : s.grammar.ReadsBackTable related.table) {wheres : List Predicate}
    (hwheres : ∀ p ∈ wheres, s.grammar.Conveys p.condition) (limit : Option UInt64)
    (hlimit : ∀ count ∈ limit, count.toNat < Nat.pow 2 63) (allowFiltering : Bool)
    (hrows : store.database.tables.get? (columnOf related.table) = some t) :
    ∃ c, s.selectRecords related
        { table := related.table, wheres, limit, allowFiltering } store =
      (.ok ((limited (limit.map UInt64.toNat) (t.rows.filter (selects wheres))).map
          (Record.hydrate related)), store.ran c store.database.tables) := by
  obtain ⟨c, hselect⟩ := selectRows_ok hlocal
    (q := { table := related.table, wheres, limit, allowFiltering })
    ⟨rfl, rfl, htable, hwheres, List.forall_mem_nil _, List.forall_mem_nil _,
      hlimit, nofun⟩
    rfl rfl rfl (Grammar.written_selection (List.forall_mem_nil _)) nofun hrows
  refine ⟨c, ?_⟩
  rw [selectRecords, bind_ok hselect]
  rfl

/-- The records of the rows that pass a test: all of them, or the first. -/
def found (related : EntityType) (many : Bool) (test : Row → Bool)
    (rows : List Row) : Related Record :=
  if many then .many ((rows.filter test).map (Record.hydrate related))
  else .one ((rows.find? test).map (Record.hydrate related))

/-- A query of equalities gives the records of the rows in which their values
are found. -/
theorem fetch_ok (hlocal : s.backend = LocalStore.backend)
    (htable : s.grammar.ReadsBackTable related.table) {pairs : Pairs}
    (hnames : ∀ pair ∈ pairs, s.grammar.NamesColumn pair.1)
    (hrows : store.database.tables.get? (columnOf related.table) = some t)
    (many : Bool) :
    (s.fetch related ((Intent.new related.table).whereAll pairs) many store).1 =
      .ok (found related many (meets pairs) t.rows) := by
  have hconveys :
      ∀ p ∈ pairs.map fun pair => (⟨.and, .basic pair.1 .eq pair.2⟩ : Predicate),
        s.grammar.Conveys p.condition :=
    List.forall_mem_map.mpr fun pair hpair => (hnames pair hpair).conveys_eq pair.2
  have hquery : (if s.config.allowFiltering then
      ((Intent.new related.table).whereAll pairs).allowingFiltering
      else (Intent.new related.table).whereAll pairs) =
        { table := related.table
          wheres := pairs.map fun pair => ⟨.and, .basic pair.1 .eq pair.2⟩
          allowFiltering := s.config.allowFiltering } := by
    rw [Intent.whereAll_eq]
    cases s.config.allowFiltering <;> rfl
  unfold fetch
  rw [hquery, ← selects_equalities hnames, found]
  cases many with
  | true =>
    obtain ⟨c, hselect⟩ := selectRecords_ok hlocal htable hconveys none nofun
      s.config.allowFiltering hrows
    exact congrArg Prod.fst (bind_ok hselect)
  | false =>
    obtain ⟨c, hselect⟩ := selectRecords_ok hlocal htable hconveys (some 1)
      (fun count hcount => by rw [← Option.some.inj hcount]; decide)
      s.config.allowFiltering hrows
    refine (congrArg Prod.fst (bind_ok hselect)).trans ?_
    rw [← List.head?_filter]
    cases t.rows.filter (selects _) <;> rfl

/-- A relation that asks for a key of a stored row in a column, and perhaps for
more, gives the records of the rows in which these values are found. -/
theorem resolveDirect_ok (hlocal : s.backend = LocalStore.backend)
    {e : EntityType} {row : Row} {name target : String} {relation : Relation}
    (hentity : s.entity target = .ok related)
    (htable : s.grammar.ReadsBackTable related.table) (key column : String)
    (more : Pairs)
    (hconstrain : ∀ q, s.constrain (.hydrate e row) name relation q =
      ((Record.hydrate e row).bound? key).map
        fun value => q.whereAll ((column, value) :: more))
    (hcolumn : s.grammar.NamesColumn column)
    (hmore : ∀ pair ∈ more, s.grammar.NamesColumn pair.1)
    (hrows : store.database.tables.get? (columnOf related.table) = some t) :
    (s.resolveDirect (.hydrate e row) name target relation store).1 =
      .ok (found related relation.isMany
        (fun other => valuesEqual (cell other column) (cell row key) &&
          meets more other) t.rows) := by
  unfold resolveDirect
  simp only [← Record.any_bound?_hydrate e row key column]
  rw [hentity, bind_ok (orThrow_apply _ _), hconstrain]
  cases (Record.hydrate e row).bound? key with
  | none =>
    have hnone : t.rows.find? (fun _ => false) = none :=
      List.find?_eq_none.mpr nofun
    cases relation.isMany <;> simp [found, Related.empty, hnone]
  | some value =>
    have htest : (fun other => (some value).any (holdsKey column · other) &&
          meets more other) = meets ((column, value) :: more) := rfl
    rw [htest]
    exact fetch_ok hlocal htable (List.forall_mem_cons.mpr ⟨hcolumn, hmore⟩) hrows _

theorem resolve_of_declared {parent : Record} {name : String} {relation : Relation}
    (h : parent.entity.relations.get? name = some relation) :
    parent.declaredRelation name = .ok relation := by
  unfold Record.declaredRelation
  rw [h]

end Session

end EntityMapper
