import EntityMapper.Proofs.Query.Meaning
import EntityMapper.Proofs.Statement.Acceptance
import EntityMapper.Proofs.Store.Comparison

/-!
# The comparison operators among each other

Equality and the order of values are two things. Where two values can be ordered
they are equal iff neither comes first. Lists and documents have no order, yet
they can be equal, so an equal list is neither less nor greater nor within a
range. Apart from these kinds the operators are coherent: less or equal is less,
or equal, and a range from a value to itself is the value.
-/

namespace EntityMapper

/-- Whether the kind of a value has an order. -/
def Value.hasOrder : Value → Bool
  | .null | .list _ | .json _ => false
  | .bool _ | .int _ | .float _ | .text _ | .bytes _ | .timestamp _ | .uuid _ =>
    true

namespace Store

/-! ## Equality and order -/

/-- A value of a kind with an order stands level with the values that are the
same. -/
theorem compareValues?_of_beq {a b : Value} (h : (a == b) = true)
    (horder : a.hasOrder = true) : compareValues? a b = some .eq := by
  have hplain (hkind : a.isPlain = true) : a = b := Value.eq_of_beq_plain hkind h
  cases a with
  | null | list _ | json _ => cases horder
  | float x => cases b with
    | float y => exact beq_iff_eq.mp h
    | _ => cases h
  | bytes x =>
    obtain rfl := hplain rfl
    exact congrArg some (compareBytes_self x)
  | uuid x =>
    obtain rfl := hplain rfl
    exact congrArg some (compareBytes_self x.toList)
  | bool _ | int _ | text _ | timestamp _ =>
    obtain rfl := hplain rfl
    simp [compareValues?]

theorem hasOrder_of_compareValues? {a b : Value} {order : Ordering}
    (h : compareValues? a b = some order) :
    a.hasOrder = true ∧ b.hasOrder = true := by
  cases a <;> cases b <;> first | exact ⟨rfl, rfl⟩ | cases h

theorem not_isNull_of_hasOrder {a : Value} (h : a.hasOrder = true) :
    a.isNull = false := by
  cases a <;> first | rfl | cases h

/-- Values stand level iff they are equal and their kind has an order. -/
theorem level_eq (a b : Value) :
    (compareValues? a b == some .eq) = (valuesEqual a b && a.hasOrder) := by
  rw [Bool.eq_iff_iff, beq_iff_eq, Bool.and_eq_true]
  constructor
  · intro hlevel
    obtain ⟨ha, hb⟩ := hasOrder_of_compareValues? hlevel
    rw [valuesEqual, not_isNull_of_hasOrder ha, not_isNull_of_hasOrder hb, hlevel]
    exact ⟨rfl, ha⟩
  · rintro ⟨hequal, horder⟩
    unfold valuesEqual at hequal
    split at hequal
    · cases hequal
    · cases hcompare : compareValues? a b with
      | some order => simpa [hcompare] using hequal
      | none =>
        rw [hcompare] at hequal
        rw [compareValues?_of_beq hequal horder] at hcompare
        cases hcompare

theorem level_comm (a b : Value) :
    (compareValues? a b == some .eq) = (compareValues? b a == some .eq) := by
  rw [compareValues?_swap b a]
  cases compareValues? b a with
  | none => rfl
  | some order => cases order <;> rfl

/-! ## The operators -/

variable (a b : Value)

theorem holds_ne (ha : a.isNull = false) (hb : b.isNull = false) :
    holds .ne a b = !holds .eq a b := by
  show (!a.isNull && !b.isNull && !valuesEqual a b) = !valuesEqual a b
  rw [ha, hb]
  rfl

theorem holds_le :
    holds .le a b = (holds .lt a b || (holds .eq a b && a.hasOrder)) :=
  congrArg (holds .lt a b || ·) (level_eq a b)

theorem holds_ge :
    holds .ge a b = (holds .gt a b || (holds .eq a b && a.hasOrder)) :=
  congrArg (holds .gt a b || ·) (level_eq a b)

theorem holds_gt : holds .gt a b = holds .lt b a := by
  rw [holds, holds, compareValues?_swap a b]
  cases compareValues? a b with
  | none => rfl
  | some order => cases order <;> rfl

theorem holds_lt_gt : (holds .lt a b && holds .gt a b) = false := by
  unfold holds
  cases compareValues? a b with
  | none => rfl
  | some order => cases order <;> rfl

/-- A value that comes before another is not equal to it: they can be ordered,
and are not level. -/
theorem holds_lt_eq : (holds .lt a b && holds .eq a b) = false := by
  rw [Bool.and_eq_false_imp]
  intro hless
  have horder : compareValues? a b = some .lt := beq_iff_eq.mp hless
  have hlevel := level_eq a b
  rw [horder, (hasOrder_of_compareValues? horder).1, Bool.and_true] at hlevel
  exact hlevel.symm

/-- A range from a value to itself. -/
theorem holds_range :
    (holds .ge a b && holds .le a b) = (holds .eq a b && b.hasOrder) := by
  have hlevel : (holds .eq a b && b.hasOrder) =
      (compareValues? a b == some .eq) := by
    rw [level_comm, level_eq, valuesEqual_comm]
    rfl
  rw [hlevel]
  unfold holds
  cases compareValues? a b with
  | none => rfl
  | some order => cases order <;> rfl

end Store

namespace Grammar

/-- The text of a list of predicates is read to its end as their filter. -/
theorem whole_wheres {g : Grammar} {predicates : List Predicate}
    (hsome : predicates ≠ [])
    (h : ∀ p ∈ predicates, g.Expresses p.condition ∧ p.condition.rawText? = none) :
    Parser.whole? Parser.filter (g.wheres predicates).text =
      some (wheresFilter 0 predicates) := by
  have hlexes := lexes_wheres g fun p hp => (h p hp).1.lexable (h p hp).2
  have hreads := reads_wheres hsome h 0
  exact Parser.whole_of_takes hlexes (by simpa using hreads [] (by simp))

/-- A condition alone is read as a filter that passes the rows of which it holds. -/
theorem evaluate_whole_condition {g : Grammar} {c : Condition}
    (h : g.Expresses c) (hraw : c.rawText? = none) (connector : Connector) :
    ∃ f, Parser.whole? Parser.filter (g.wheres [⟨connector, c⟩]).text = some f ∧
      ∀ row, Store.evaluate row (g.wheres [⟨connector, c⟩]).params f =
        c.holds row := by
  have hone : ∀ p ∈ [(⟨connector, c⟩ : Predicate)],
      g.Expresses p.condition ∧ p.condition.rawText? = none :=
    List.forall_mem_singleton.mpr ⟨h, hraw⟩
  refine ⟨_, whole_wheres (by simp) hone, fun row => ?_⟩
  have hbound : BoundAt (g.wheres [⟨connector, c⟩]).params 0
      (Predicate.allBindings [⟨connector, c⟩]) :=
    ⟨[], [], by simp [params_wheres], rfl⟩
  rw [Store.evaluate_wheresFilter (fun p hp => (hone p hp).2) hbound]
  simp [listHolds, andBlocks, cutBefore]

end Grammar

namespace Store

/-- The operators agree with each other on values that are not null, except that
equal lists and equal documents are not within a bound: less or equal is less,
or equal and of a kind with an order. So a range from a value to itself selects
the rows that equality selects if the kind of the value has an order, and no
rows otherwise. -/
theorem comparisons_coherent (a b : Value) (ha : a.isNull = false)
    (hb : b.isNull = false) :
    holds .ne a b = !holds .eq a b ∧
      holds .le a b = (holds .lt a b || (holds .eq a b && a.hasOrder)) ∧
      holds .ge a b = (holds .gt a b || (holds .eq a b && a.hasOrder)) ∧
      holds .gt a b = holds .lt b a ∧ holds .eq a b = holds .eq b a ∧
      ((holds .lt a b && holds .eq a b) = false ∧
        (holds .lt a b && holds .gt a b) = false ∧
        (holds .eq a b && holds .gt a b) = false) ∧
      ∀ (g : Grammar) (connector : Connector) (column : String),
        g.ReadablePath column → ∃ range equality, Parser.whole? Parser.filter
            (g.wheres [⟨connector, .between column a a⟩]).text = some range ∧
          Parser.whole? Parser.filter
              (g.wheres [⟨connector, .basic column .eq a⟩]).text = some equality ∧
          ∀ row, evaluate row
              (g.wheres [⟨connector, .between column a a⟩]).params range =
            (evaluate row (g.wheres [⟨connector, .basic column .eq a⟩]).params
                equality && a.hasOrder) := by
  have hequal : holds .eq a b = holds .eq b a := valuesEqual_comm a b
  have hgreater : (holds .eq a b && holds .gt a b) = false := by
    rw [hequal, holds_gt, Bool.and_comm, holds_lt_eq]
  refine ⟨holds_ne a b ha hb, holds_le a b, holds_ge a b, holds_gt a b, hequal,
    ⟨holds_lt_eq a b, holds_lt_gt a b, hgreater⟩,
    fun g connector column hcolumn => ?_⟩
  have hcolumns : ∀ name ∈ [column], g.ReadablePath name :=
    List.forall_mem_singleton.mpr hcolumn
  obtain ⟨range, hrange, hin⟩ := Grammar.evaluate_whole_condition
    (c := .between column a a) ⟨hcolumns, trivial⟩ rfl connector
  obtain ⟨equality, hequality, hsame⟩ := Grammar.evaluate_whole_condition
    (c := .basic column .eq a) ⟨hcolumns, trivial⟩ rfl connector
  refine ⟨range, equality, hrange, hequality, fun row => ?_⟩
  rw [hin, hsame]
  exact holds_range _ a

theorem comparisons_coherent_timestamp :
    holds .le (.timestamp 5) (.int 5) = (holds .lt (.timestamp 5) (.int 5) ||
        (holds .eq (.timestamp 5) (.int 5) && true)) ∧
      ∃ range, Parser.whole? Parser.filter ((⟨.cql, none⟩ : Grammar).wheres
          [⟨.and, .between "sold at" (.timestamp 5) (.timestamp 5)⟩]).text =
        some range := by
  obtain ⟨-, hle, -, -, -, -, hrange⟩ :=
    comparisons_coherent (.timestamp 5) (.int 5) rfl rfl
  obtain ⟨range, -, hread, -⟩ := hrange ⟨.cql, none⟩ .and "sold at" (by decide)
  exact ⟨hle, range, hread⟩

/-- A row with a list in it. -/
def taggedRow : Row := .ofList [("tags", .list [.int 1])]

/-- An equal list is not less or equal, and not in the range from the list to
itself. -/
theorem equal_list_not_le :
    let tags := Value.list [.int 1]
    (tags == tags) = true ∧
    ¬ (holds .le tags tags = true ↔
        holds .lt tags tags = true ∨ holds .eq tags tags = true) ∧
    (Condition.basic "tags" .eq tags).holds taggedRow = true ∧
    (Condition.between "tags" tags tags).holds taggedRow = false := by
  decide

end Store

end EntityMapper
