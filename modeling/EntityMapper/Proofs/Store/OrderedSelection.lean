import EntityMapper.Proofs.NameMap
import EntityMapper.Proofs.Store.Comparison
import EntityMapper.Proofs.Store.Selection
import Mathlib.Data.List.Forall2

/-!
# Which rows a query shows, and in which order

A query sorts the rows that pass its filter, and shows a part of them. This
module says which list the sorted one is, without the algorithm: each row gets
the number of its place among the rows, and a row comes before another one if
the columns of the order say so, or if they do not tell the two apart and its
number is smaller. There is at most one list of all rows in that order
(`IsStableSort.unique`), and where every column of the order holds values of one
kind with an order, or null, the sorted rows are that list
(`isStableSort_sortRows`).

The comparison of values and that of rows are each related to an order that is
told without them, as one statement about what each outcome means (`Outcome`).
-/

namespace EntityMapper

namespace Store

/-! ## What the outcome of a comparison says -/

/-- The outcome of a comparison says which of three things is the case. -/
def Outcome (order : Ordering) (before alike behind : Prop) : Prop :=
  match order with
  | .lt => before
  | .eq => alike
  | .gt => behind

section Outcome

variable {order other : Ordering}
  {before alike behind before' alike' behind' : Prop}

theorem Outcome.imp (h : Outcome order before alike behind)
    (hbefore : before → before') (halike : alike → alike')
    (hbehind : behind → behind') : Outcome order before' alike' behind' := by
  cases order with
  | lt => exact hbefore h
  | eq => exact halike h
  | gt => exact hbehind h

theorem Outcome.swap (h : Outcome order before alike behind) :
    Outcome order.swap behind alike before := by
  cases order <;> exact h

/-- The second comparison counts where the first finds no difference. -/
theorem Outcome.then (h : Outcome order before alike behind)
    (hother : Outcome other before' alike' behind') :
    Outcome (order.then other) (before ∨ alike ∧ before') (alike ∧ alike')
      (behind ∨ alike ∧ behind') := by
  cases order with
  | lt => exact .inl h
  | eq =>
    rw [Ordering.eq_then]
    exact hother.imp (fun hbefore => .inr ⟨h, hbefore⟩) (fun halike => ⟨h, halike⟩)
      fun hbehind => .inr ⟨h, hbehind⟩
  | gt => exact .inl h

end Outcome

theorem outcome_compareOfLessAndEq {α : Type} [LinearOrder α] (a b : α) :
    Outcome (compareOfLessAndEq a b) (a < b) (a = b) (b < a) := by
  unfold compareOfLessAndEq
  split
  · assumption
  · split
    · assumption
    · exact lt_of_le_of_ne (not_lt.mp ‹_›) (Ne.symm ‹_›)

theorem outcome_compareBytes (first second : List UInt8) :
    Outcome (compareBytes first second) (first < second) (first = second)
      (second < first) := by
  induction first generalizing second with
  | nil =>
    cases second with
    | nil => rfl
    | cons b others => exact List.nil_lt_cons b others
  | cons a rest ih =>
    cases second with
    | nil => exact List.nil_lt_cons a rest
    | cons b others =>
      have hhead : Outcome (compare a.toNat b.toNat) (a < b) (a = b) (b < a) :=
        (outcome_compareOfLessAndEq a.toNat b.toNat).imp UInt8.lt_iff_toNat_lt.mpr
          UInt8.toNat_inj.mp UInt8.lt_iff_toNat_lt.mpr
      refine (hhead.then (ih others)).imp List.cons_lt_cons_iff.mpr
        (fun h => congrArg₂ _ h.1 h.2) fun h => List.cons_lt_cons_iff.mpr ?_
      exact h.imp_right fun h => ⟨h.1.symm, h.2⟩

/-! ## The order of values -/

/-- A value comes before another one when values ascend: null before every other
value, and values of one kind as what they hold. -/
inductive Before : Value → Value → Prop
  | null {b : Value} (h : b.isNull = false) : Before .null b
  | bool : Before (.bool false) (.bool true)
  | int {a b : Int64} (h : a.toInt < b.toInt) : Before (.int a) (.int b)
  | text {a b : String} (h : a < b) : Before (.text a) (.text b)
  | bytes {a b : List UInt8} (h : a < b) : Before (.bytes a) (.bytes b)
  | timestamp {a b : Int64} (h : a.toInt < b.toInt) :
      Before (.timestamp a) (.timestamp b)
  | uuid {a b : Vector UInt8 16} (h : a.toList < b.toList) :
      Before (.uuid a) (.uuid b)

theorem Before.trans {a b c : Value} (hab : Before a b) (hbc : Before b c) :
    Before a c := by
  cases hab with
  | null h =>
    cases hbc with
    | null _ => cases h
    | _ => exact .null rfl
  | bool => cases hbc
  | int h => cases hbc with | int h' => exact .int (lt_trans h h')
  | text h => cases hbc with | text h' => exact .text (lt_trans h h')
  | bytes h => cases hbc with | bytes h' => exact .bytes (List.lt_trans h h')
  | timestamp h => cases hbc with | timestamp h' => exact .timestamp (lt_trans h h')
  | uuid h => cases hbc with | uuid h' => exact .uuid (List.lt_trans h h')

theorem Before.irrefl {a : Value} : ¬Before a a := by
  rintro (h | _ | h | h | h | h | h)
  · cases h
  · exact lt_irrefl _ h
  · exact lt_irrefl _ h
  · exact List.lt_irrefl _ h
  · exact lt_irrefl _ h
  · exact List.lt_irrefl _ h

/-- The kinds of values that have an order of their own. -/
def sortableTypes : List String :=
  ["int", "text", "bool", "timestamp", "bytes", "uuid"]

theorem OfType.eq_null_or {type : String} {a : Value} (h : OfType type a) :
    a = .null ∨ a.isNull = false ∧ a.typeName = type := by
  rcases h with hnull | htype
  · cases a with
    | null => exact .inl rfl
    | _ => cases hnull
  · cases a with
    | null => exact .inl rfl
    | _ => exact .inr ⟨rfl, htype⟩

/-- Values of one kind with an order stand as the sort order tells. -/
theorem outcome_sortOrder_of_typeName {a b : Value}
    (htype : a.typeName ∈ sortableTypes) (h : b.typeName = a.typeName) :
    Outcome (sortOrder a b) (Before a b) (a = b) (Before b a) := by
  cases a <;> cases b <;> simp only [Value.typeName, String.reduceEq] at h
  case bool.bool x y =>
    cases x <;> cases y
    · rfl
    · exact .bool
    · exact .bool
    · rfl
  case int.int x y =>
    exact (outcome_compareOfLessAndEq x.toInt y.toInt).imp .int
      (fun h => congrArg _ (Int64.toInt_inj.mp h)) .int
  case text.text x y =>
    exact (outcome_compareOfLessAndEq x y).imp .text (congrArg _) .text
  case bytes.bytes x y =>
    exact (outcome_compareBytes x y).imp .bytes (congrArg _) .bytes
  case timestamp.timestamp x y =>
    exact (outcome_compareOfLessAndEq x.toInt y.toInt).imp .timestamp
      (fun h => congrArg _ (Int64.toInt_inj.mp h)) .timestamp
  case uuid.uuid x y =>
    exact (outcome_compareBytes x.toList y.toList).imp .uuid
      (fun h => congrArg _ (Vector.toList_inj.mp h)) .uuid
  all_goals simp [Value.typeName, sortableTypes] at htype

/-- Where values are null or of one kind with an order, the sort order tells how
they stand. -/
theorem outcome_sortOrder {type : String} (htype : type ∈ sortableTypes)
    {a b : Value} (ha : OfType type a) (hb : OfType type b) :
    Outcome (sortOrder a b) (Before a b) (a = b) (Before b a) := by
  rcases ha.eq_null_or with rfl | ⟨hanull, rfl⟩ <;>
    rcases hb.eq_null_or with rfl | ⟨hbnull, hb⟩
  · rfl
  · rw [sortOrder, hbnull]
    exact .null hbnull
  · rw [sortOrder, hanull]
    exact .null hanull
  · exact outcome_sortOrder_of_typeName htype hb

/-! ## The order of rows -/

/-- A value comes before another one in a direction. -/
def BeforeIn : Direction → Value → Value → Prop
  | .asc, a, b => Before a b
  | .desc, a, b => Before b a

/-- A row comes before another one in the order of a query: the first column
that tells them apart does it in its direction. -/
def RowBefore : List (String × Direction) → Row → Row → Prop
  | [], _, _ => False
  | (column, direction) :: rest, a, b =>
    BeforeIn direction (cell a column) (cell b column) ∨
      cell a column = cell b column ∧ RowBefore rest a b

/-- The columns of an order do not tell two rows apart. -/
def Ties (orders : List (String × Direction)) (a b : Row) : Prop :=
  ∀ order ∈ orders, cell a order.1 = cell b order.1

/-- Each column of an order holds null or values of one kind with an order. -/
def Sortable (orders : List (String × Direction)) (rows : List Row) : Prop :=
  ∀ order ∈ orders,
    ∃ type ∈ sortableTypes, ∀ row ∈ rows, OfType type (cell row order.1)

instance (orders : List (String × Direction)) (rows : List Row) :
    Decidable (Sortable orders rows) :=
  inferInstanceAs (Decidable (∀ order ∈ orders, ∃ type ∈ sortableTypes,
    ∀ row ∈ rows, OfType type (cell row order.1)))

variable {orders : List (String × Direction)} {rows : List Row} {a b c : Row}

theorem BeforeIn.trans {direction : Direction} {a b c : Value}
    (hab : BeforeIn direction a b) (hbc : BeforeIn direction b c) :
    BeforeIn direction a c := by
  cases direction with
  | asc => exact Before.trans hab hbc
  | desc => exact Before.trans hbc hab

theorem BeforeIn.irrefl {direction : Direction} {a : Value} :
    ¬BeforeIn direction a a := by
  cases direction <;> exact Before.irrefl

theorem RowBefore.trans (hab : RowBefore orders a b) (hbc : RowBefore orders b c) :
    RowBefore orders a c := by
  induction orders with
  | nil => exact hab
  | cons order rest ih =>
    rcases hab with hab | ⟨hab, hrest⟩ <;> rcases hbc with hbc | ⟨hbc, hrest'⟩
    · exact .inl (hab.trans hbc)
    · exact .inl (hbc ▸ hab)
    · exact .inl (hab ▸ hbc)
    · exact .inr ⟨hab.trans hbc, ih hrest hrest'⟩

theorem RowBefore.irrefl : ¬RowBefore orders a a := by
  induction orders with
  | nil => exact id
  | cons order rest ih =>
    rintro (h | h)
    · exact BeforeIn.irrefl h
    · exact ih h.2

theorem Ties.symm (h : Ties orders a b) : Ties orders b a :=
  fun order horder => (h order horder).symm

theorem Ties.trans (hab : Ties orders a b) (hbc : Ties orders b c) :
    Ties orders a c :=
  fun order horder => (hab order horder).trans (hbc order horder)

/-- Rows that are not told apart stand in the same way to others. -/
theorem RowBefore.congr_left (h : Ties orders a b) (hbc : RowBefore orders b c) :
    RowBefore orders a c := by
  induction orders with
  | nil => exact hbc
  | cons order rest ih =>
    obtain ⟨hfirst, hrest⟩ := List.forall_mem_cons.mp h
    rcases hbc with hbc | ⟨hbc, hlater⟩
    · exact .inl (hfirst ▸ hbc)
    · exact .inr ⟨hfirst.trans hbc, ih hrest hlater⟩

theorem RowBefore.congr_right (h : Ties orders b c) (hab : RowBefore orders a b) :
    RowBefore orders a c := by
  induction orders with
  | nil => exact hab
  | cons order rest ih =>
    obtain ⟨hfirst, hrest⟩ := List.forall_mem_cons.mp h
    rcases hab with hab | ⟨hab, hlater⟩
    · exact .inl (hfirst ▸ hab)
    · exact .inr ⟨hab.trans hfirst, ih hrest hlater⟩

theorem Outcome.directed {order : Ordering} {a b : Value}
    (h : Outcome order (Before a b) (a = b) (Before b a)) (direction : Direction) :
    Outcome
      (match direction with
      | .asc => order
      | .desc => order.swap)
      (BeforeIn direction a b) (a = b) (BeforeIn direction b a) := by
  cases direction with
  | asc => exact h
  | desc => exact h.swap

/-- Rows with values that can be sorted stand as the comparison of rows tells. -/
theorem outcome_rowOrder (h : Sortable orders rows) (ha : a ∈ rows)
    (hb : b ∈ rows) :
    Outcome (rowOrder orders a b) (RowBefore orders a b) (Ties orders a b)
      (RowBefore orders b a) := by
  induction orders with
  | nil => exact fun _ horder => nomatch horder
  | cons order rest ih =>
    obtain ⟨column, direction⟩ := order
    obtain ⟨⟨type, htype, hcolumn⟩, hrest⟩ := List.forall_mem_cons.mp h
    have hdirected :=
      (outcome_sortOrder htype (hcolumn a ha) (hcolumn b hb)).directed direction
    refine (hdirected.then (ih hrest)).imp id (fun hties => ?_) fun hbehind => ?_
    · exact List.forall_mem_cons.mpr hties
    · exact hbehind.imp_right fun hlater => ⟨hlater.1.symm, hlater.2⟩

/-! ## Stable sorts -/

/-- Of two rows with the numbers of their places the first comes first in a
sorted list: the order asks for it, or it does not tell the rows apart and the
first one's number is smaller. -/
def Precedes (orders : List (String × Direction)) (x y : Row × Nat) : Prop :=
  RowBefore orders x.1 y.1 ∨ Ties orders x.1 y.1 ∧ x.2 < y.2

/-- A list has the given rows, sorted, those that tie in the order in which they
were given. -/
def IsStableSort (orders : List (String × Direction)) (rows sorted : List Row) :
    Prop :=
  ∃ placed : List (Row × Nat), placed.Perm rows.zipIdx ∧
    placed.map Prod.fst = sorted ∧ placed.Pairwise (Precedes orders)

section Precedes

variable {x y z : Row × Nat}

theorem Precedes.trans (hxy : Precedes orders x y) (hyz : Precedes orders y z) :
    Precedes orders x z := by
  rcases hxy with hxy | ⟨hxy, hless⟩ <;> rcases hyz with hyz | ⟨hyz, hless'⟩
  · exact .inl (hxy.trans hyz)
  · exact .inl (.congr_right hyz hxy)
  · exact .inl (.congr_left hxy hyz)
  · exact .inr ⟨hxy.trans hyz, hless.trans hless'⟩

theorem Precedes.irrefl : ¬Precedes orders x x := by
  rintro (h | h)
  · exact RowBefore.irrefl h
  · exact lt_irrefl _ h.2

end Precedes

theorem IsStableSort.unique {sorted other : List Row}
    (h : IsStableSort orders rows sorted)
    (hother : IsStableSort orders rows other) : sorted = other := by
  obtain ⟨placed, hperm, rfl, hplaced⟩ := h
  obtain ⟨replaced, hreperm, rfl, hreplaced⟩ := hother
  refine congrArg _ ((hperm.trans hreperm.symm).eq_of_pairwise ?_ hplaced hreplaced)
  exact fun x y _ _ hxy hyx => absurd (hxy.trans hyx) Precedes.irrefl

/-! ## Sorting by insertion -/

section Insertion

variable {α : Type} {less : α → α → Bool} {R : α → α → Prop}

/-- The comparison of a later element with an earlier one says how the two stand
in a relation. -/
def Places (less : α → α → Bool) (R : α → α → Prop) (y x : α) : Prop :=
  if less x y then R x y else R y x

/-- What is put into a list sorted from its end is put at its place. -/
theorem pairwise_insertFromEnd (htrans : ∀ x y z, R x y → R y z → R x z) {x : α}
    {sorted : List α} (hsorted : sorted.Pairwise fun y z => R z y)
    (hx : ∀ y ∈ sorted, Places less R y x) :
    (insertFromEnd less x sorted).Pairwise fun y z => R z y := by
  induction sorted with
  | nil => exact List.pairwise_singleton _ _
  | cons y rest ih =>
    obtain ⟨hy, hrest⟩ := List.pairwise_cons.mp hsorted
    obtain ⟨hplace, hplaces⟩ := List.forall_mem_cons.mp hx
    rw [insertFromEnd]
    unfold Places at hplace
    split at hplace
    · next hless =>
      rw [if_pos hless]
      refine List.pairwise_cons.mpr ⟨fun z hz => ?_, ih hrest hplaces⟩
      rcases List.mem_cons.mp ((perm_insertFromEnd less x rest).mem_iff.mp hz)
        with rfl | hz
      · exact hplace
      · exact hy z hz
    · next hless =>
      rw [if_neg hless]
      refine List.pairwise_cons.mpr ⟨fun z hz => ?_, hsorted⟩
      rcases List.mem_cons.mp hz with rfl | hz
      · exact hplace
      · exact htrans z y x (hy z hz) hplace

/-- A list is sorted if the comparison of every two of its elements places them
rightly. -/
theorem pairwise_stableSort (htrans : ∀ x y z, R x y → R y z → R x z)
    {items : List α} (hitems : items.Pairwise (Places less R)) :
    (stableSort less items).Pairwise R := by
  -- what is already put in stands rightly to what is still to come
  have hfold (items sorted : List α) (hsorted : sorted.Pairwise fun y z => R z y)
      (hitems : items.Pairwise (Places less R))
      (hcross : ∀ y ∈ sorted, ∀ x ∈ items, Places less R y x) :
      (items.foldl (fun sorted x => insertFromEnd less x sorted) sorted).Pairwise
        fun y z => R z y := by
    induction items generalizing sorted with
    | nil => exact hsorted
    | cons x rest ih =>
      obtain ⟨hx, hrest⟩ := List.pairwise_cons.mp hitems
      refine ih _ (pairwise_insertFromEnd htrans hsorted fun y hy =>
        hcross y hy x (List.mem_cons_self ..)) hrest fun y hy z hz => ?_
      rcases List.mem_cons.mp ((perm_insertFromEnd less x sorted).mem_iff.mp hy)
        with rfl | hy
      · exact hx z hz
      · exact hcross y hy z (List.mem_cons_of_mem _ hz)
  exact List.pairwise_reverse.mpr
    (hfold items [] .nil hitems fun _ hy => nomatch hy)

theorem map_insertFromEnd {β : Type} (f : β → α) (x : β) (items : List β) :
    (insertFromEnd (fun x y => less (f x) (f y)) x items).map f =
      insertFromEnd less (f x) (items.map f) := by
  induction items with
  | nil => rfl
  | cons y rest ih =>
    rw [insertFromEnd, List.map_cons, insertFromEnd]
    split
    · rw [List.map_cons, ih]
    · rfl

/-- What is compared by an image can be sorted before or after the images are
taken. -/
theorem map_stableSort {β : Type} (less : α → α → Bool) (f : β → α)
    (items : List β) :
    (stableSort (fun x y => less (f x) (f y)) items).map f =
      stableSort less (items.map f) := by
  have hfold (items sorted : List β) : (items.foldl (fun sorted x =>
          insertFromEnd (fun x y => less (f x) (f y)) x sorted) sorted).map f =
      (items.map f).foldl (fun sorted x => insertFromEnd less x sorted)
        (sorted.map f) := by
    induction items generalizing sorted with
    | nil => rfl
    | cons x rest ih =>
      calc
        (rest.foldl
          (fun sorted x => insertFromEnd (fun x y => less (f x) (f y)) x sorted)
          (insertFromEnd (fun x y => less (f x) (f y)) x sorted)).map f =
          (rest.map f).foldl (fun sorted x => insertFromEnd less x sorted)
            ((insertFromEnd (fun x y => less (f x) (f y)) x sorted).map f) := ih _
        _ = (rest.map f).foldl (fun sorted x => insertFromEnd less x sorted)
            (insertFromEnd less (f x) (sorted.map f)) := by rw [map_insertFromEnd]
  rw [stableSort, stableSort, List.map_reverse, hfold, List.map_nil]

end Insertion

/-- The places of a list are numbered upwards. -/
theorem pairwise_zipIdx {α : Type} (items : List α) :
    items.zipIdx.Pairwise fun x y => x.2 < y.2 := by
  refine List.pairwise_map.mp ?_
  rw [List.zipIdx_map_snd]
  exact List.pairwise_lt_range' 1

/-- The sorted rows are the stable sort of the rows. -/
theorem isStableSort_sortRows (h : Sortable orders rows) :
    IsStableSort orders rows (sortRows orders rows) := by
  let less (x y : Row × Nat) : Bool := rowOrder orders x.1 y.1 == .lt
  refine ⟨stableSort less rows.zipIdx, perm_stableSort less _, ?_, ?_⟩
  · calc
      (stableSort less rows.zipIdx).map Prod.fst =
          stableSort (fun a b => rowOrder orders a b == .lt)
            (rows.zipIdx.map Prod.fst) :=
        map_stableSort (fun a b => rowOrder orders a b == .lt) Prod.fst rows.zipIdx
      _ = sortRows orders rows := by
        rw [List.zipIdx_map_fst, sortRows]
  · refine pairwise_stableSort (R := Precedes orders)
      (fun _ _ _ => Precedes.trans) ?_
    refine (pairwise_zipIdx rows).imp_of_mem fun {y x} hy hx hplaces => ?_
    have houtcome := outcome_rowOrder h (List.fst_mem_of_mem_zipIdx hx)
      (List.fst_mem_of_mem_zipIdx hy)
    cases horder : rowOrder orders x.1 y.1 with
    | lt =>
      rw [horder] at houtcome
      have hless : less x y = true := by simp [less, horder]
      rw [Places, if_pos hless]
      exact .inl houtcome
    | eq =>
      rw [horder] at houtcome
      have hless : ¬less x y = true := by simp [less, horder]
      rw [Places, if_neg hless]
      exact .inr ⟨houtcome.symm, hplaces⟩
    | gt =>
      rw [horder] at houtcome
      have hless : ¬less x y = true := by simp [less, horder]
      rw [Places, if_neg hless]
      exact .inl houtcome

/-! ## Queries -/

/-- What a query shows of a row: the row as it is, or under each output name the
value of its column; of several columns with one output name, of the last. -/
def Shows : Projection → Row → Row → Prop
  | .columns columns, row, out =>
    out.WellFormed ∧ ∀ name, out.get? name =
      ((columns.filter fun c => c.outputName = name).getLast?).map
        fun c => cell row c.name
  | _, row, out => out = row

theorem shows_shownRow (projection : Projection) (row : Row) :
    Shows projection row (shownRow projection row) := by
  cases projection with
  | all => rfl
  | count => rfl
  | columns columns =>
    refine ⟨NameMap.wellFormed_ofList _, fun name => ?_⟩
    rw [shownRow, project, NameMap.get?_ofList_eq_getLast?, List.filter_map,
      List.getLast?_map, Option.map_map]
    rfl

section Select

variable {tables : Tables} {s : SelectStatement} {params : List Value}
  {table : Table}

/-- A query on a table without groups gives the chosen rows, as it shows them. -/
theorem select_of_table (hfound : tables.table s.table = .ok table)
    (hungrouped : s.groupBy = []) (hcount : s.projection ≠ .count) :
    select tables s params =
      .ok (.ofRows ((chosen s params table.rows).map (shownRow s.projection))) := by
  simp only [select, hungrouped, hfound, List.isEmpty_nil, Bool.not_true,
    Bool.false_eq_true, if_false, bind, Except.bind, pure, Except.pure]
  cases hprojection : s.projection with
  | all =>
    exact congrArg (fun rows => Except.ok (ResultSet.ofRows rows))
      (List.map_id _).symm
  | columns columns => rfl
  | count => exact absurd hprojection hcount

/-- **A query shows a slice of the stable sort of the rows that pass its
filter**, and a count their number. -/
theorem select_slices_stable_sort (hfound : tables.table s.table = .ok table)
    (hungrouped : s.groupBy = []) :
    let matching := table.rows.filter (passes params s.filter)
    (s.projection = .count →
      ∃ count : Int64, select tables s params =
          .ok ⟨[(∅ : Row).insert countColumn (.int count)], 1⟩ ∧
        (matching.length < 2 ^ 63 → count.toInt = matching.length)) ∧
    (s.projection ≠ .count → Sortable s.orderBy matching →
        ∃ sorted result, IsStableSort s.orderBy matching sorted ∧
          (∀ other, IsStableSort s.orderBy matching other → other = sorted) ∧
          select tables s params = .ok result ∧
          result.rowCount = result.rows.length ∧ List.Forall₂ (Shows s.projection)
            (limited s.limit (sorted.drop (s.offset.getD 0))) result.rows) := by
  intro matching
  refine ⟨fun hcount => ⟨.ofNat matching.length, ?_, fun hlength => ?_⟩,
    fun hcount hsortable => ?_⟩
  · simp only [select, hungrouped, hfound, hcount, List.isEmpty_nil, Bool.not_true,
      Bool.false_eq_true, if_false, bind, Except.bind, pure, Except.pure]
    rfl
  · exact Int64.toInt_ofNat_of_lt hlength
  · have hsorted := isStableSort_sortRows hsortable
    refine ⟨_, _, hsorted, fun other hother => hother.unique hsorted,
      select_of_table hfound hungrouped hcount, rfl, ?_⟩
    refine List.forall₂_map_right_iff.mpr (List.forall₂_same.mpr fun row _ => ?_)
    exact shows_shownRow s.projection row

/-- Players with a team or none, two of them alike in team and score. -/
def players : Table where
  keys := ["name"]
  rows := [
    .ofList [("name", .text "ada"), ("team", .text "red"), ("score", .int 3)],
    .ofList [("name", .text "bob"), ("team", .null), ("score", .int 2)],
    .ofList [("name", .text "cyd"), ("score", .int 3)],
    .ofList [("name", .text "dan"), ("team", .text "red"), ("score", .int 3)],
    .ofList [("name", .text "eve"), ("team", .text "blue"), ("score", .int 1)]]

def playerTables : Tables := (∅ : Tables).insert "players" players

/-- The second and the third player by team downwards and by score, shown under
other names. -/
def playersByTeam : SelectStatement where
  projection :=
    .columns [⟨"name", some "who"⟩, ⟨"score", some "of"⟩, ⟨"team", some "of"⟩]
  table := "players"
  filter := none
  groupBy := []
  orderBy := [("team", .desc), ("score", .asc)]
  limit := some 2
  offset := some 1
  allowFiltering := false

theorem select_slices_stable_sort_players :
    let matching := players.rows.filter (passes [] playersByTeam.filter)
    playerTables.table playersByTeam.table = .ok players ∧
        playersByTeam.groupBy = [] ∧ playersByTeam.projection ≠ .count ∧
        Sortable playersByTeam.orderBy matching ∧
        ∃ sorted result, IsStableSort playersByTeam.orderBy matching sorted ∧
          (∀ other, IsStableSort playersByTeam.orderBy matching other →
            other = sorted) ∧ select playerTables playersByTeam [] = .ok result ∧
          result.rowCount = result.rows.length ∧
          List.Forall₂ (Shows playersByTeam.projection)
            (limited (some 2) (sorted.drop 1)) result.rows := by
  have hcount : playersByTeam.projection ≠ .count := by simp [playersByTeam]
  have hsortable : Sortable playersByTeam.orderBy
      (players.rows.filter (passes [] playersByTeam.filter)) := by decide
  exact ⟨rfl, rfl, hcount, hsortable,
    (select_slices_stable_sort rfl rfl).2 hcount hsortable⟩

/-- Dan ties with Ada and comes behind her; those without a team come last. -/
example : (select playerTables playersByTeam []).toOption =
    some ⟨[.ofList [("of", .text "red"), ("who", .text "dan")],
      .ofList [("of", .text "blue"), ("who", .text "eve")]], 2⟩ := by
  rfl

end Select

end Store

end EntityMapper
