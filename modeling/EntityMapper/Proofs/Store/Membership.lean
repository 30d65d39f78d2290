import EntityMapper.Proofs.Query.Meaning

/-!
# Membership and the comparisons it abbreviates

A column is in a list iff it is equal to one of its values. Not being in a list
is not as close to the comparisons: an operand that is null is different from
nothing, so the chain of `!=` fails with it, while the list is only asked
whether it has the value of the column, and null is no such value.
-/

namespace EntityMapper.Store

variable {row : Row} {params : List Value} {column : String}

/-- Whether a list of operands has the value of a column. -/
def listed (row : Row) (params : List Value) (column : String)
    (operands : List Operand) : Bool :=
  operands.any fun operand => valuesEqual (cell row column) (resolve params operand)

theorem valuesEqual_of_isNull {a : Value} (h : a.isNull = true) (b : Value) :
    valuesEqual a b = false := by
  rw [valuesEqual, h]
  rfl

theorem listed_of_isNull (h : (cell row column).isNull = true)
    (operands : List Operand) : listed row params column operands = false :=
  List.any_eq_false.mpr fun operand _ => by simp [valuesEqual_of_isNull h]

theorem evaluate_in (operands : List Operand) :
    evaluate row params (.member column false operands) =
      listed row params column operands := by
  rw [evaluate]
  cases hnull : (cell row column).isNull with
  | true => exact (listed_of_isNull hnull operands).symm
  | false => exact Bool.bne_false _

theorem evaluate_notIn (operands : List Operand) :
    evaluate row params (.member column true operands) =
      (!(cell row column).isNull && !listed row params column operands) := by
  rw [evaluate]
  cases (cell row column).isNull with
  | true => rfl
  | false => exact Bool.bne_true _

theorem evaluate_equalities (operands : List Operand) :
    evaluate row params (Parser.disjunction (operands.map (.compare column .eq))) =
      listed row params column operands := by
  rw [evaluate_disjunction, List.any_map]
  rfl

theorem evaluate_differs (operand : Operand) :
    evaluate row params (.compare column .ne operand) =
      (!(cell row column).isNull && !(resolve params operand).isNull &&
        !valuesEqual (cell row column) (resolve params operand)) := rfl

/-- The chain of `!=` asks of each operand what the list asks of all, and that
it is not null. -/
theorem evaluate_differences {operands : List Operand} (hsome : operands ≠ []) :
    evaluate row params (Parser.conjunction (operands.map (.compare column .ne))) =
      (!(cell row column).isNull && !listed row params column operands &&
        operands.all fun operand => !(resolve params operand).isNull) := by
  rw [evaluate_conjunction, List.all_map]
  simp only [Function.comp_def, evaluate_differs]
  cases (cell row column).isNull with
  | true =>
    obtain ⟨operand, rest, rfl⟩ := List.exists_cons_of_ne_nil hsome
    rfl
  | false =>
    rw [Bool.eq_iff_iff]
    simp only [listed, Bool.not_false, Bool.true_and, Bool.and_eq_true,
      List.all_eq_true, Bool.not_eq_true', List.any_eq_false, Bool.not_eq_true]
    exact ⟨fun h => ⟨fun o ho => (h o ho).2, fun o ho => (h o ho).1⟩,
      fun h o ho => ⟨h.2 o ho, h.1 o ho⟩⟩

/-- Being in a list is being equal to one of its values. Not being in a list is
being different from each of its values, exactly if the column is null, or no
value of the list is, or the list has the value of the column. No row is both in
a list and not in it. -/
theorem membership_comparisons (row : Row) (params : List Value)
    (column : String) (operands : List Operand) (hsome : operands ≠ []) :
    evaluate row params (.member column false operands) = evaluate row params
        (Parser.disjunction (operands.map (.compare column .eq))) ∧
      (evaluate row params (.member column true operands) = evaluate row params
          (Parser.conjunction (operands.map (.compare column .ne))) ↔
        (cell row column).isNull = true ∨
          (∀ operand ∈ operands, (resolve params operand).isNull = false) ∨
          ∃ operand ∈ operands,
            valuesEqual (cell row column) (resolve params operand) = true) ∧
      ¬ (evaluate row params (.member column false operands) = true ∧
        evaluate row params (.member column true operands) = true) := by
  refine ⟨by rw [evaluate_in, evaluate_equalities], ?_, ?_⟩
  · have hlisted : listed row params column operands = true ↔ ∃ operand ∈ operands,
          valuesEqual (cell row column) (resolve params operand) = true :=
      List.any_eq_true
    have hnonnull :
        (operands.all fun operand => !(resolve params operand).isNull) = true ↔
          ∀ operand ∈ operands, (resolve params operand).isNull = false := by
      simp [List.all_eq_true]
    rw [evaluate_notIn, evaluate_differences hsome, ← hlisted, ← hnonnull]
    generalize (cell row column).isNull = absent
    generalize listed row params column operands = found
    generalize (operands.all fun operand => !(resolve params operand).isNull) =
      known
    revert absent found known
    decide
  · rw [evaluate_in, evaluate_notIn]
    cases listed row params column operands <;> simp

/-- A row with a number in it. -/
def countedRow : Row := .ofList [("n", .int 1)]

theorem membership_comparisons_countedRow : evaluate countedRow [.int 2]
      (.member "n" true [.param 0, .literal (.text "a")]) =
    evaluate countedRow [.int 2] (Parser.conjunction [.compare "n" .ne (.param 0),
      .compare "n" .ne (.literal (.text "a"))]) :=
  (membership_comparisons countedRow [.int 2] "n" [.param 0, .literal (.text "a")]
    (by simp)).2.1.mpr (.inr (.inl (by decide)))

/-- A number is not in the list of null, but not different from null. -/
theorem number_notIn_null :
    evaluate countedRow [.null] (.member "n" true [.param 0]) = true ∧
      evaluate countedRow [.null]
          (Parser.conjunction [.compare "n" .ne (.param 0)]) = false := by
  decide

end EntityMapper.Store
