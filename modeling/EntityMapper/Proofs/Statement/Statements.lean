import EntityMapper.Proofs.Statement.Clauses

/-!
# What the parser reads

The four kinds of statements from their clauses, and the command around them. A
command is read if its text is cut into the tokens of a statement and the
statement takes them all.
-/

namespace EntityMapper

namespace Parser

variable {α β : Type} {n m k : Nat}
  {table filterTokens conditionTokens : List Token} {name : String}
  {filter conditions : Option Filter}

theorem takes_select
    {projectionTokens groupTokens orderTokens limitTokens offsetTokens allowTokens :
      List Token} {projection : Projection} {groupBy : List String}
    {orderBy : List (String × Direction)} {limit offset : Option Nat}
    {allowFiltering : Bool}
    (hprojection : ∀ rest,
      Parser.projection.Takes (projectionTokens ++ .keyword .from :: rest)
        n projection (.keyword .from :: rest) n) (htable : Path table name)
    (hfilter : Clause (filterAfter .where)
      (.keyword .where) [.keyword .or, .keyword .and] filterTokens n filter m)
    (hgroup : Clause groupColumns
      (.keyword .group) [.symbol .comma, .symbol .dot] groupTokens m groupBy m)
    (horder : Clause orderItems
      (.keyword .order) [.symbol .comma] orderTokens m orderBy m)
    (hlimit : Clause (countAfter .limit) (.keyword .limit) [] limitTokens m limit m)
    (hoffset : Clause (countAfter .offset)
      (.keyword .offset) [] offsetTokens m offset m)
    (hallow : Clause filteringAllowed
      (.keyword .allow) [] allowTokens m allowFiltering m) :
    select.Takes (projectionTokens ++ .keyword .from ::
        (table ++ (filterTokens ++ (groupTokens ++
              (orderTokens ++ (limitTokens ++ (offsetTokens ++ allowTokens))))))) n
      { table := name, projection, filter, groupBy, orderBy, limit, offset,
        allowFiltering } [] m := by
  have hoffsetHead := hoffset.headIn.append hallow.headIn
  have hlimitHead := hlimit.headIn.append hoffsetHead
  have horderHead := horder.headIn.append hlimitHead
  have hgroupHead := hgroup.headIn.append horderHead
  have hfilterHead := hfilter.headIn.append hgroupHead
  rw [select_eq]
  apply (hprojection _).bind
  apply (takes_expectKeyword _ _ _).bind
  apply (reads_tableName htable n _ (hfilterHead.not_mem (by simp))).bind
  apply (hfilter.reads _ (hgroupHead.not_mem (by simp))).bind
  apply (hgroup.reads _ (horderHead.not_mem (by simp))).bind
  apply (horder.reads _ (hlimitHead.not_mem (by simp))).bind
  apply (hlimit.reads _ (hoffsetHead.not_mem (by simp))).bind
  apply (hoffset.reads _ (hallow.headIn.not_mem (by simp))).bind
  have hend := hallow.reads [] (by simp)
  rw [List.append_nil] at hend
  exact hend.bind (takes_pure _ _ _)

/-! ## Insertions -/

theorem reads_ifAbsent_none (n : Nat) :
    ifAbsent.Reads [.keyword .if, .keyword .on] [] n false n := by
  intro rest hrest
  have hif : ∀ t ∈ rest.head?, t ≠ .keyword .if :=
    fun t ht heq => hrest t ht (by simp [heq])
  have hon : ∀ t ∈ rest.head?, t ≠ .keyword .on :=
    fun t ht heq => hrest t ht (by simp [heq])
  exact (takes_eat_none n hif).bind ((takes_eat_none n hon).bind (takes_pure _ _ _))

theorem reads_ifNotExists (n : Nat) :
    ifAbsent.Reads [.keyword .if, .keyword .on]
      [.keyword .if, .keyword .not, .keyword .exists] n true n := by
  intro rest _
  apply (takes_eat _ _ _).bind
  apply (takes_expectKeyword _ _ _).bind
  exact (takes_expectKeyword _ _ _).bind (takes_pure _ _ _)

theorem reads_onConflict (n : Nat) :
    ifAbsent.Reads [.keyword .if, .keyword .on] [.keyword .on,
        .keyword .conflict, .keyword .do, .keyword .nothing] n true n := by
  intro rest _
  apply (takes_eat_none n (by simp)).bind
  apply (takes_eat _ _ _).bind
  apply (takes_expectKeyword _ _ _).bind
  apply (takes_expectKeyword _ _ _).bind
  exact (takes_expectKeyword _ _ _).bind (takes_pure _ _ _)

theorem takes_insert_operands {columns : List β} {tokens : β → List Token}
    {names : β → String} {valueTokens absentTokens ttlTokens : List Token}
    {values : List Operand} {ifNotExists : Bool} {ttl : Option Nat}
    (htable : Path table name) (hsome : columns ≠ [])
    (hcolumns : ∀ c ∈ columns, ColumnPath (tokens c) (names c))
    (hlength : columns.length = values.length)
    (hvalues : Operands valueTokens n values m)
    (habsent : ifAbsent.Reads [.keyword .if, .keyword .on]
      absentTokens m ifNotExists m)
    (httl : Clause Parser.ttl (.keyword .using) [] ttlTokens m ttl m) :
    insert.Takes (.keyword .into :: (table ++ .symbol .leftParen ::
          (Token.commas (columns.map tokens) ++ .symbol .rightParen ::
            .keyword .values :: .symbol .leftParen ::
            (valueTokens ++ .symbol .rightParen :: (absentTokens ++ ttlTokens)))))
      n { table := name, columns := columns.map names, values, ifNotExists, ttl }
      [] m := by
  apply (takes_expectKeyword _ _ _).bind
  apply (reads_tableName htable n _ (by simp)).bind
  apply (takes_expectSymbol _ _ _).bind
  apply ((columns_map hsome hcolumns).reads n _ (by simp)).bind
  apply (takes_expectSymbol _ _ _).bind
  apply (takes_expectKeyword _ _ _).bind
  apply (takes_expectSymbol _ _ _).bind
  refine (reads_operands hvalues _ (by simp)).bind (takes_expect fun span => ?_)
  have hsame : ¬ (columns.map names).length ≠ values.length := by simp [hlength]
  rw [if_neg hsame]
  apply (habsent _ (httl.headIn.not_mem (by simp))).bind
  have hend := httl.reads [] (by simp)
  rw [List.append_nil] at hend
  exact hend.bind (takes_pure _ _ _)

/-- An insertion of which every value is a placeholder. -/
theorem takes_insert {columns : List β} {tokens : β → List Token}
    {names : β → String} {values : List α} {absentTokens ttlTokens : List Token}
    {ifNotExists : Bool} {ttl : Option Nat}
    (htable : Path table name) (hsome : columns ≠ [])
    (hcolumns : ∀ c ∈ columns, ColumnPath (tokens c) (names c))
    (hlength : columns.length = values.length)
    (habsent : ifAbsent.Reads [.keyword .if, .keyword .on] absentTokens
      (n + values.length) ifNotExists (n + values.length))
    (httl : Clause Parser.ttl (.keyword .using) [] ttlTokens
      (n + values.length) ttl (n + values.length)) :
    insert.Takes (.keyword .into :: (table ++ .symbol .leftParen ::
        (Token.commas (columns.map tokens) ++ .symbol .rightParen ::
          .keyword .values :: .symbol .leftParen ::
          (Token.placeholders values ++ .symbol .rightParen ::
            (absentTokens ++ ttlTokens))))) n
      { table := name, columns := columns.map names,
        values := (List.range' n values.length).map .param, ifNotExists, ttl } []
      (n + values.length) := by
  have hvalues : values ≠ [] := by
    rintro rfl
    exact hsome (List.length_eq_zero_iff.mp hlength)
  exact takes_insert_operands htable hsome hcolumns (by simp [hlength])
    (operands_placeholders hvalues n) habsent httl

/-! ## Updates -/

theorem reads_assignment_operand {column : List Token} (h : ColumnPath column name)
    {t : Token} {o : Operand} (ho : OperandAt t n o m) :
    assignment.Reads [] (column ++ [.symbol .eq, t]) n (name, o) m := by
  intro rest _
  rw [List.append_assoc]
  apply (takes_columnName h (by simp) _ n).bind
  apply (takes_expectSymbol _ _ _).bind
  exact (ho.takes rest).bind (takes_pure _ _ _)

theorem reads_assignment {column : List Token} (h : ColumnPath column name)
    (n : Nat) :
    assignment.Reads [] (column ++ [.symbol .eq, .symbol .param]) n
      (name, .param n) (n + 1) :=
  reads_assignment_operand h (operandAt_placeholder n)

/-- Assignments with commas between them, their placeholders numbered from the
first. -/
theorem reads_assignments {columns : List β} {tokens : β → List Token}
    {names : β → String} (hsome : columns ≠ [])
    (h : ∀ c ∈ columns, ColumnPath (tokens c) (names c)) (n : Nat) :
    (commaSeparated assignment).Reads [.symbol .comma] (Token.commas
        (columns.map fun c => tokens c ++ [.symbol .eq, .symbol .param]))
      n ((columns.zipIdx n).map fun (c, i) => (names c, .param i))
      (n + columns.length) := by
  have hchain : Chain (assignment.Reads []) (.symbol .comma) (Token.commas
        (columns.map fun c => tokens c ++ [.symbol .eq, .symbol .param]))
      n (placed (fun _ => 1) (fun i c => (names c, .param i)) n columns)
      (placedEnd (fun _ => 1) n columns) :=
    chain_placed hsome (fun c hc n => reads_assignment (h c hc) n) n
  rw [placed_one, placedEnd_one] at hchain
  exact reads_separated hchain (by simp)

theorem takes_update {assignmentTokens ttlTokens : List Token} {ttl : Option Nat}
    {assignments : List (String × Operand)} (htable : Path table name)
    (httl : Clause Parser.ttl (.keyword .using) [] ttlTokens n ttl n)
    (hassignments : (commaSeparated assignment).Reads [.symbol .comma]
      assignmentTokens n assignments k)
    (hfilter : Clause (filterAfter .where) (.keyword .where)
      [.keyword .or, .keyword .and] filterTokens k filter m) {l : Nat}
    (hconditions : Clause (filterAfter .if) (.keyword .if)
      [.keyword .or, .keyword .and] conditionTokens m conditions l) :
    update.Takes (table ++ (ttlTokens ++ .keyword .set ::
          (assignmentTokens ++ (filterTokens ++ conditionTokens))))
      n { table := name, ttl, assignments, filter, conditions } [] l := by
  have hset : HeadIn [.keyword .set]
      (.keyword .set :: (assignmentTokens ++ (filterTokens ++ conditionTokens))) :=
    headIn_cons (by simp) _
  have httlHead := httl.headIn.append hset
  have hfilterHead := hfilter.headIn.append hconditions.headIn
  apply (reads_tableName htable n _ (httlHead.not_mem (by simp))).bind
  apply (httl.reads _ (hset.not_mem (by simp))).bind
  apply (takes_expectKeyword _ _ _).bind
  apply (hassignments _ (hfilterHead.not_mem (by simp))).bind
  apply (hfilter.reads _ (hconditions.headIn.not_mem (by simp))).bind
  have hend := hconditions.reads [] (by simp)
  rw [List.append_nil] at hend
  exact hend.bind (takes_pure _ _ _)

/-! ## Deletions -/

/-- The columns a deletion clears, up to its table. -/
def deletedColumns : Parser (List String) := do
  if ← check (.keyword .from) then pure [] else columnList

theorem delete_eq : delete = (do
    let columns ← deletedColumns
    expectKeyword .from
    let table ← tableName
    let filter ← filterAfter .where
    let conditions ← filterAfter .if
    return { table, columns, filter, conditions }) := by
  simp only [delete, deletedColumns, bind_assoc, ite_bind]

theorem takes_deletedColumns {columns : List β} {tokens : β → List Token}
    {names : β → String} (h : ∀ c ∈ columns, Path (tokens c) (names c))
    (rest : List Token) (n : Nat) :
    deletedColumns.Takes (Token.commas (columns.map tokens) ++ .keyword .from ::
        rest) n (columns.map names) (.keyword .from :: rest) n := by
  cases columns with
  | nil =>
    apply (takes_check _ _ _).bind
    exact takes_pure [] _ n
  | cons c columns =>
    have hlist := reads_columnList (List.cons_ne_nil c columns) h n
      (.keyword .from :: rest) (by simp)
    have hfront : (Token.commas ((c :: columns).map tokens) ++ .keyword .from ::
          rest).head? ≠ some (.keyword .from) := by
      obtain ⟨t, first, more, hname, htokens, -⟩ :=
        (h c (List.mem_cons_self ..)).exists_first
      have hhead : (Token.commas ((c :: columns).map tokens) ++ .keyword .from ::
            rest).head? = some t := by
        cases columns <;> simp [htokens]
      rw [hhead]
      simpa using ne_keyword_of_nameOf hname rfl
    apply (takes_check _ _ _).bind
    rw [decide_eq_false hfront]
    exact hlist

theorem takes_delete {columns : List β} {tokens : β → List Token}
    {names : β → String} (htable : Path table name)
    (hcolumns : ∀ c ∈ columns, Path (tokens c) (names c))
    (hfilter : Clause (filterAfter .where)
      (.keyword .where) [.keyword .or, .keyword .and] filterTokens n filter m)
    (hconditions : Clause (filterAfter .if) (.keyword .if)
      [.keyword .or, .keyword .and] conditionTokens m conditions k) :
    delete.Takes (Token.commas (columns.map tokens) ++ .keyword .from ::
        (table ++ (filterTokens ++ conditionTokens))) n
      { table := name, columns := columns.map names, filter, conditions } [] k := by
  have hfilterHead := hfilter.headIn.append hconditions.headIn
  rw [delete_eq]
  apply (takes_deletedColumns hcolumns _ n).bind
  apply (takes_expectKeyword _ _ _).bind
  apply (reads_tableName htable n _ (hfilterHead.not_mem (by simp))).bind
  apply (hfilter.reads _ (hconditions.headIn.not_mem (by simp))).bind
  have hend := hconditions.reads [] (by simp)
  rw [List.append_nil] at hend
  exact hend.bind (takes_pure _ _ _)

/-! ## Commands -/

theorem takes_statement_select {tokens : List Token} {s : SelectStatement}
    (h : select.Takes tokens n s [] m) :
    statement.Takes (.keyword .select :: tokens) n (.select s) [] m :=
  takes_next fun _ => h.bind (takes_pure _ _ _)

theorem takes_statement_insert {tokens : List Token} {s : InsertStatement}
    (h : insert.Takes tokens n s [] m) :
    statement.Takes (.keyword .insert :: tokens) n (.insert s) [] m :=
  takes_next fun _ => h.bind (takes_pure _ _ _)

theorem takes_statement_update {tokens : List Token} {s : UpdateStatement}
    (h : update.Takes tokens n s [] m) :
    statement.Takes (.keyword .update :: tokens) n (.update s) [] m :=
  takes_next fun _ => h.bind (takes_pure _ _ _)

theorem takes_statement_delete {tokens : List Token} {s : DeleteStatement}
    (h : delete.Takes tokens n s [] m) :
    statement.Takes (.keyword .delete :: tokens) n (.delete s) [] m :=
  takes_next fun _ => h.bind (takes_pure _ _ _)

end Parser

/-- A text is parsed if its tokens are those of a statement, from the first to
the last. -/
theorem ParsedCommand.parse_eq_ok {text : String} {tokens : List Token}
    {s : Statement} {n : Nat} (hlexes : Token.Lexes text.toList tokens)
    (h : Parser.statement.Takes tokens 0 s [] n) :
    ParsedCommand.parse text = .ok ⟨s, n⟩ := by
  obtain ⟨spanned, hread, htokens⟩ := Token.read_eq_ok_iff.mpr hlexes
  obtain ⟨c, hrun, hend, hcount⟩ := h ⟨spanned, 0, text.utf8ByteSize⟩ htokens rfl
  have hnil : c.tokens = [] := by simpa using hend
  have hcommand : Parser.command.run ⟨spanned, 0, text.utf8ByteSize⟩ =
      .ok (⟨s, n⟩, c) := by
    obtain ⟨tokens, placeholders, size⟩ := c
    subst hnil hcount
    rw [Parser.command, StateT.run_bind, hrun]
    rfl
  simp only [ParsedCommand.parse, hread, bind, Except.bind, hcommand]
  rfl

end EntityMapper
