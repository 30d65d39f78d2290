import EntityMapper.Proofs.Query.Meaning
import EntityMapper.Proofs.Statement.Numbering
import EntityMapper.Proofs.Store.ConditionalWrite

/-!
# Bound parameters

A command is run only with as many values as it has placeholders. Its statement
refers to the placeholders by their numbers and to nothing beyond them, so the
value of every operand is a literal or one of the values that were bound: the
null that stands in for a missing value is never used. The store looks at values
only through the operands of the statement, wherever they stand in it; so a run
is decided by what these resolve to.
-/

namespace EntityMapper

namespace Store

/-- The operands have the same values under both lists of parameters. -/
def AgreeOn (operands : List Operand) (params others : List Value) : Prop :=
  ∀ o ∈ operands, resolve params o = resolve others o

variable {operands : List Operand} {params others : List Value}

theorem AgreeOn.left {more : List Operand}
    (h : AgreeOn (operands ++ more) params others) :
    AgreeOn operands params others := fun o ho => h o (List.mem_append_left more ho)

theorem AgreeOn.right {more : List Operand}
    (h : AgreeOn (more ++ operands) params others) :
    AgreeOn operands params others :=
  fun o ho => h o (List.mem_append_right more ho)

mutual

/-- A filter looks at parameters through its operands only. -/
theorem evaluate_congr (row : Row) :
    (f : Filter) → AgreeOn f.operands params others →
      evaluate row params f = evaluate row others f
  | .all terms, h => evaluateAll_congr row terms h
  | .any terms, h => evaluateAny_congr row terms h
  | .compare _ _ operand, h =>
    by rw [evaluate, evaluate, h operand (List.mem_singleton_self _)]
  | .member _ _ operands, h => by
    have hany (value : Value) :
        (operands.any fun o => valuesEqual value (resolve params o)) =
          operands.any fun o => valuesEqual value (resolve others o) :=
      any_congr_mem fun o ho => by rw [h o ho]
    simp only [evaluate, hany]
  | .isNull _ _, _ => rfl
  | .token _ _ operands, h => by
    have hmap : operands.map (resolve params) = operands.map (resolve others) :=
      List.map_congr_left h
    simp only [evaluate, hmap]

theorem evaluateAll_congr (row : Row) : (terms : List Filter) →
    AgreeOn (Filter.operandsOf terms) params others →
    evaluateAll row params terms = evaluateAll row others terms
  | [], _ => rfl
  | term :: rest, h => by
    rw [evaluateAll, evaluateAll, evaluate_congr row term h.left,
      evaluateAll_congr row rest h.right]

theorem evaluateAny_congr (row : Row) : (terms : List Filter) →
    AgreeOn (Filter.operandsOf terms) params others →
    evaluateAny row params terms = evaluateAny row others terms
  | [], _ => rfl
  | term :: rest, h => by
    rw [evaluateAny, evaluateAny, evaluate_congr row term h.left,
      evaluateAny_congr row rest h.right]

end

theorem passes_congr {filter : Option Filter}
    (h : AgreeOn (Filter.optionalOperands filter) params others) :
    passes params filter = passes others filter := by
  funext row
  cases filter with
  | none => rfl
  | some f => exact evaluate_congr row f h

theorem insertedRow_congr {s : InsertStatement}
    (h : AgreeOn s.values params others) :
    insertedRow s params = insertedRow s others := by
  refine congrArg NameMap.ofList (List.map_congr_left ?_)
  rintro ⟨column, operand⟩ hpair
  exact congrArg (Prod.mk column) (h operand (List.of_mem_zip hpair).2)

theorem assign_congr {assignments : List (String × Operand)}
    (h : AgreeOn (assignments.map Prod.snd) params others) (row : Row) :
    assign params assignments row = assign others assignments row := by
  refine List.foldl_ext _ _ row fun before pair hpair => ?_
  exact congrArg (before.insert pair.1) (h pair.2 (List.mem_map_of_mem hpair))

theorem guardedWrite_congr {t : Table} {filter conditions : Option Filter}
    {write : Except StoreError (List Row)}
    (hfilter : AgreeOn (Filter.optionalOperands filter) params others)
    (hconditions : AgreeOn (Filter.optionalOperands conditions) params others) :
    guardedWrite t filter conditions params write =
      guardedWrite t filter conditions others write := by
  have htargets := passes_congr hfilter
  cases conditions with
  | none => simp only [guardedWrite, htargets]
  | some c =>
    have hholds : conditionsHold c (t.rows.filter (passes others filter)) params =
        conditionsHold c (t.rows.filter (passes others filter)) others := by
      simp only [conditionsHold, evaluate_congr _ c hconditions]
    simp only [guardedWrite, htargets, hholds]

/-- A statement looks at parameters through its operands only. -/
theorem execute_congr {s : Statement} (h : AgreeOn s.operands params others)
    (tables : Tables) : execute tables s params = execute tables s others := by
  cases s with
  | select s =>
    have hfilter : passes params s.filter = passes others s.filter := passes_congr h
    simp only [execute, select, hfilter]
  | insert s =>
    have hrow : insertedRow s params = insertedRow s others := insertedRow_congr h
    simp only [execute, insert, hrow]
  | update s =>
    have hfilter := passes_congr h.right.left
    have hassign := assign_congr h.left
    simp only [execute, update, hfilter, hassign,
      guardedWrite_congr h.right.left h.right.right]
  | delete s =>
    have hfilter := passes_congr h.left
    simp only [execute, delete, hfilter, guardedWrite_congr h.left h.right]

end Store

/-- The placeholders that the scan of an accepted text counts are those of its
statement: the operands, read in the order of the text, refer to the parameters
from the first to the last, to each of them once. So whenever the number of
bound values is right, the command is run, every operand that is a parameter has
the value that was bound to it, and the run would be the same if any other
values stood behind the bound ones. -/
theorem ParsedCommand.placeholders_bound {source : String} {command : ParsedCommand}
    (h : ParsedCommand.parse source = .ok command) :
    command.placeholders = countPlaceholders source ∧
    command.statement.params = List.range command.placeholders ∧
    ∀ params : List Value, command.placeholders = params.length →
      (∀ i, .param i ∈ command.statement.operands →
        params[i]? = some (Store.resolve params (.param i))) ∧
      ∀ tables,
        Database.evaluate tables ⟨source, params⟩ =
          Store.execute tables command.statement params ∧
        ∀ more, Store.execute tables command.statement (params ++ more) =
          Store.execute tables command.statement params := by
  obtain ⟨hscan, hparams⟩ := params_of_parse h
  refine ⟨hscan, hparams, fun params hlength => ?_⟩
  have hbound : ∀ i, .param i ∈ command.statement.operands → i < params.length := by
    intro i hi
    rw [← Operand.mem_indices] at hi
    have hrange : i ∈ List.range command.placeholders := hparams ▸ hi
    exact hlength ▸ List.mem_range.mp hrange
  refine ⟨fun i hi => ?_, fun tables => ⟨?_, fun more => ?_⟩⟩
  · simp [Store.resolve, List.getElem?_eq_getElem (hbound i hi)]
  · exact Database.evaluate_of_parse tables (by rw [h, ← hlength])
  · refine Store.execute_congr (fun o ho => ?_) tables
    cases o with
    | literal value => rfl
    | param i => simp [Store.resolve, List.getElem?_append_left (hbound i ho)]

/-- A deletion with question marks in a name and in a text. -/
def markedDelete : String :=
  "DELETE FROM \"t?\" WHERE a IN (?, 3) AND b = 'it''s ?' IF c = ?"

theorem parse_markedDelete : ParsedCommand.parse markedDelete = .ok
    ⟨.delete
      { table := "t?"
        columns := []
        filter := some (.all
          [.member "a" false [.param 0, .literal (.int 3)],
            .compare "b" .eq (.literal (.text "it's ?"))])
        conditions := some (.compare "c" .eq (.param 1)) }, 2⟩ := by
  have htable : Parser.Path [.quotedName "t?"] "t?" := .last rfl
  have ha : Parser.Path [.name "a"] "a" := .last (by cbv)
  have hb : Parser.Path [.name "b"] "b" := .last (by cbv)
  have hc : Parser.Path [.name "c"] "c" := .last (by cbv)
  have hnone : ∀ c ∈ ([] : List String), Parser.Path [] c := by simp
  have hfirst : Parser.OperandItem [.symbol .param] 0 (.param 0) 1 :=
    ⟨_, rfl, Parser.operandAt_placeholder 0⟩
  have hsecond : Parser.OperandItem [.int 3] 1 (.literal (.int 3)) 1 :=
    ⟨_, rfl, Parser.operandAt_literal rfl 1⟩
  have htext :
      Parser.OperandAt (.string "it's ?") 1 (.literal (.text "it's ?")) 1 :=
    Parser.operandAt_literal rfl 1
  have hfilter : Parser.Terms 0 _ 0 _ 1 :=
    .more (fun _ _ => Parser.reads_term_column ha.column
      (Parser.reads_member ha.column (.inr (.more hfirst (.one hsecond)))))
      (.one fun _ _ => Parser.reads_term_column hb.column
        (Parser.reads_compare hb.column .eq htext))
  have hconditions : Parser.Terms 0 _ 1 _ 2 :=
    .one fun _ _ => Parser.reads_term_column hc.column
      (Parser.reads_compare hc.column .eq (Parser.operandAt_placeholder 1))
  exact ParsedCommand.parse_eq_ok
    (Token.lexes_of_read (rfl : Token.read markedDelete = .ok _))
    (Parser.takes_statement_delete (Parser.takes_delete htable hnone
      (Parser.clause_filter (k := .where) (Parser.reads_filter hfilter.blocks
          (Nat.zero_le _))) (Parser.clause_filter (k := .if)
            (Parser.reads_filter hconditions.blocks (Nat.zero_le _)))))

/-- A question mark between quotes is no placeholder: two values are enough, and
the last operand has the second one. -/
theorem ParsedCommand.placeholders_bound_markedDelete :
    countPlaceholders markedDelete = 2 ∧
    [Value.int 1, Value.int 2][1]? =
      some (Store.resolve [.int 1, .int 2] (.param 1)) := by
  obtain ⟨hscan, -, hbound⟩ := placeholders_bound parse_markedDelete
  refine ⟨hscan.symm, (hbound [.int 1, .int 2] rfl).1 1 ?_⟩
  simp [Statement.operands, Filter.optionalOperands, Filter.operands,
    Filter.operandsOf]

end EntityMapper
