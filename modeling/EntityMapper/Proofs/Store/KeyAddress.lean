import EntityMapper.Proofs.Query.Meaning
import EntityMapper.Proofs.Store.Comparison
import EntityMapper.Proofs.Store.Selection
import EntityMapper.Proofs.Store.Writes

/-!
# Commands that address a full key

A command addresses a full key if its filter asks for a value in every key
column. The keys of a table are kept apart by equality of values, and a filter
compares by an equality that also holds between types: an integer, a floating
point number and a timestamp of one size are three keys, and a filter that asks
for one of them finds all three. Large integers that round to one floating point
number are found by it too. Where the rows that are found hold values of one
type in each key column, and no integers that are compared with a floating point
number, there is at most one such row, so a query gives at most one row and a
write changes at most one.
-/

namespace EntityMapper

namespace Store

/-! ## Values that are found together -/

/-- Two stored values of one type, not integers that a floating point number is
sought among. -/
def SameKind (stored other sought : Value) : Prop :=
  stored.typeName = other.typeName ∧
    (stored.typeName = "int" → sought.typeName ≠ "float")

instance (stored other sought : Value) : Decidable (SameKind stored other sought) :=
  inferInstanceAs (Decidable (_ ∧ _))

theorem isNull_of_valuesEqual {a b : Value} (h : valuesEqual a b = true) :
    a.isNull = false := by
  cases hnull : a.isNull with
  | false => rfl
  | true => simp [valuesEqual, hnull] at h

/-- Values of different types are found equal by their order. -/
theorem compareValues?_of_valuesEqual {a b : Value}
    (htype : a.typeName ≠ b.typeName) (h : valuesEqual a b = true) :
    compareValues? a b = some .eq := by
  unfold valuesEqual at h
  split at h
  · cases h
  · split at h
    · next order hcompare =>
      rw [hcompare]
      exact congrArg some (beq_iff_eq.mp h)
    · exact absurd (Value.typeName_eq_of_beq h) htype

/-- A filter that finds both of two values of one kind finds equal ones. -/
theorem beq_of_valuesEqual {stored other sought : Value}
    (hkind : SameKind stored other sought)
    (hstored : valuesEqual stored sought = true)
    (hother : valuesEqual other sought = true) : (stored == other) = true := by
  obtain ⟨htype, hexact⟩ := hkind
  by_cases hsought : stored.typeName = sought.typeName
  · rw [valuesEqual_eq_beq hsought (isNull_of_valuesEqual hstored)] at hstored
    rw [valuesEqual_eq_beq (htype.symm.trans hsought)
      (isNull_of_valuesEqual hother)] at hother
    exact PartialEquivBEq.trans hstored (PartialEquivBEq.symm hother)
  · have hfirst := compareValues?_of_valuesEqual hsought hstored
    have hsecond := compareValues?_of_valuesEqual (htype ▸ hsought) hother
    -- Between types only numbers have an order, and a timestamp only with an
    -- integer.
    cases stored with
    | int x => cases other with
      | int y => cases sought with
        | timestamp z =>
          simp only [compareValues?, Option.some.injEq,
            compare_eq_iff_eq] at hfirst hsecond
          rw [Int64.toInt_inj.mp (hfirst.trans hsecond.symm)]
          exact Value.beq_self_plain rfl
        | float z => exact absurd rfl (hexact rfl)
        | int z => exact absurd rfl hsought
        | _ => cases hfirst
      | _ => simp [Value.typeName] at htype
    | timestamp x => cases other with
      | timestamp y => cases sought with
        | int z =>
          simp only [compareValues?, Option.some.injEq,
            compare_eq_iff_eq] at hfirst hsecond
          rw [Int64.toInt_inj.mp (hfirst.trans hsecond.symm)]
          exact Value.beq_self_plain rfl
        | timestamp z => exact absurd rfl hsought
        | _ => cases hfirst
      | _ => simp [Value.typeName] at htype
    | float x => cases other with
      | float y => cases sought with
        | int z =>
          have hx : x.numEq (.ofInt z.toInt) = true := beq_iff_eq.mpr hfirst
          have hy : y.numEq (.ofInt z.toInt) = true := beq_iff_eq.mpr hsecond
          exact Binary64.numEq_trans hx (Binary64.numEq_symm hy)
        | float z => exact absurd rfl hsought
        | _ => cases hfirst
      | _ => simp [Value.typeName] at htype
    | _ => cases sought <;> first | cases hfirst | exact absurd rfl hsought

end Store

/-! ## Filters that ask for a key -/

/-- The terms of a conjunction. -/
def Filter.conjuncts : Filter → List Filter
  | .all terms => terms
  | f => [f]

/-- A filter that asks for a value in each of some columns. It may ask for more. -/
def Filter.Addresses (f : Filter) (columns : List String) : Prop :=
  ∀ column ∈ columns, ∃ operand, .compare column .eq operand ∈ f.conjuncts

namespace Store

variable {t : Table} {f : Filter} {params : List Value} {row other : Row}

theorem evaluate_conjunct {g : Filter} (hmem : g ∈ f.conjuncts)
    (h : evaluate row params f = true) : evaluate row params g = true := by
  cases f with
  | all terms =>
    rw [evaluate, evaluateAll_eq] at h
    exact List.all_eq_true.mp h g hmem
  | _ => exact List.mem_singleton.mp hmem ▸ h

/-- Whether two rows hold values of one kind in every column that a filter asks
for. -/
def AlikeFor (f : Filter) (params : List Value) (columns : List String)
    (row other : Row) : Prop :=
  ∀ column ∈ columns, ∀ operand, .compare column .eq operand ∈ f.conjuncts →
    SameKind (cell row column) (cell other column) (resolve params operand)

/-- Two rows of one kind that a full key finds have the same key. -/
theorem agree_of_addressed (h : t.Keyed) (haddresses : f.Addresses t.keys)
    (hrow : row ∈ t.rows) (hother : other ∈ t.rows)
    (hpasses : evaluate row params f = true)
    (hpasses' : evaluate other params f = true)
    (halike : AlikeFor f params t.keys row other) :
    Table.agree t.keys row other = true := by
  refine Table.agree_iff.mpr fun column hcolumn => ?_
  obtain ⟨operand, hmem⟩ := haddresses column hcolumn
  have hequal : valuesEqual (cell row column) (resolve params operand) = true :=
    evaluate_conjunct hmem hpasses
  have hequal' : valuesEqual (cell other column) (resolve params operand) = true :=
    evaluate_conjunct hmem hpasses'
  have hbeq :=
    beq_of_valuesEqual (halike column hcolumn operand hmem) hequal hequal'
  obtain ⟨value, hvalue, -⟩ := h.present row hrow column hcolumn
  obtain ⟨value', hvalue', -⟩ := h.present other hother column hcolumn
  rw [cell, cell, hvalue, hvalue'] at hbeq
  rw [hvalue, hvalue']
  exact hbeq

/-- A full key finds at most one row, if those that it finds are of one kind. -/
theorem length_addressed_le_one (h : t.Keyed) (haddresses : f.Addresses t.keys)
    (halike : ∀ row ∈ t.rows.filter (passes params (some f)),
      ∀ other ∈ t.rows.filter (passes params (some f)), AlikeFor f params t.keys
        row other) : (t.rows.filter (passes params (some f))).length ≤ 1 := by
  have hdistinct := h.distinct.filter (passes params (some f))
  match hfound : t.rows.filter (passes params (some f)) with
  | [] => exact Nat.zero_le 1
  | [_] => exact Nat.le_refl 1
  | row :: other :: more =>
    rw [hfound] at hdistinct
    have hrow : row ∈ t.rows.filter (passes params (some f)) := by simp [hfound]
    have hother : other ∈ t.rows.filter (passes params (some f)) := by simp [hfound]
    have hagree := agree_of_addressed h haddresses (List.mem_of_mem_filter hrow)
      (List.mem_of_mem_filter hother) (List.mem_filter.mp hrow).2
      (List.mem_filter.mp hother).2 (halike row hrow other hother)
    rw [List.rel_of_pairwise_cons hdistinct (List.mem_cons_self ..)] at hagree
    cases hagree

/-! ## What commands do to one row -/

/-- Rows of which at most one is changed or removed. -/
def ChangedAtMostOnce (rows after : List Row) : Prop :=
  after = rows ∨ ∃ before row behind, rows = before ++ row :: behind ∧
    (after = before ++ behind ∨ ∃ changed, after = before ++ changed :: behind)

theorem split_of_length_filter_le_one {test : Row → Bool} {rows : List Row}
    (h : (rows.filter test).length ≤ 1) :
    (∀ row ∈ rows, test row = false) ∨
      ∃ before row behind, rows = before ++ row :: behind ∧ test row = true ∧
        (∀ other ∈ before, test other = false) ∧
        ∀ other ∈ behind, test other = false := by
  induction rows with
  | nil => exact .inl (List.forall_mem_nil _)
  | cons first rest ih =>
    cases htest : test first with
    | true =>
      rw [List.filter_cons_of_pos htest, List.length_cons] at h
      have hnone : rest.filter test = [] := List.length_eq_zero_iff.mp (by omega)
      refine .inr ⟨[], first, rest, rfl, htest, List.forall_mem_nil _,
        fun other hother => ?_⟩
      exact Bool.eq_false_iff.mpr (List.filter_eq_nil_iff.mp hnone other hother)
    | false =>
      rw [List.filter_cons_of_neg (by simp [htest])] at h
      rcases ih h with hnone | ⟨before, row, behind, rfl, hrow, hbefore, hbehind⟩
      · exact .inl (List.forall_mem_cons.mpr ⟨htest, hnone⟩)
      · exact .inr ⟨first :: before, row, behind, rfl, hrow,
          List.forall_mem_cons.mpr ⟨htest, hbefore⟩, hbehind⟩

theorem filter_not_of_not {test : Row → Bool} {rows : List Row}
    (h : ∀ row ∈ rows, test row = false) :
    (rows.filter fun row => !test row) = rows :=
  List.filter_eq_self.mpr fun row hrow => by simp [h row hrow]

theorem changedAtMostOnce_map {test : Row → Bool} {rows : List Row}
    (h : (rows.filter test).length ≤ 1) (write : Row → Row) :
    ChangedAtMostOnce rows
      (rows.map fun row => if test row then write row else row) := by
  rcases split_of_length_filter_le_one h
    with hnone | ⟨before, row, behind, rfl, hrow, hbefore, hbehind⟩
  · exact .inl (map_if_of_not hnone)
  · exact .inr ⟨before, row, behind, rfl,
      .inr ⟨write row, map_if_of_one hrow hbefore hbehind⟩⟩

theorem changedAtMostOnce_filter {test : Row → Bool} {rows : List Row}
    (h : (rows.filter test).length ≤ 1) :
    ChangedAtMostOnce rows (rows.filter fun row => !test row) := by
  rcases split_of_length_filter_le_one h
    with hnone | ⟨before, row, behind, rfl, hrow, hbefore, hbehind⟩
  · exact .inl (filter_not_of_not hnone)
  · refine .inr ⟨before, row, behind, rfl, .inl ?_⟩
    rw [List.filter_append, List.filter_cons_of_neg (by simp [hrow]),
      filter_not_of_not hbefore, filter_not_of_not hbehind]

/-- A guarded write gives at most one row, and touches no more rows than pass
its filter. -/
theorem result_of_guardedWrite {filter conditions : Option Filter}
    {write : Except StoreError (List Row)} {result : ResultSet} {written : Table}
    (h : guardedWrite t filter conditions params write = .ok (result, written)) :
    result.rows.length ≤ 1 ∧
      result.rowCount ≤ (t.rows.filter (passes params filter)).length := by
  unfold guardedWrite at h
  cases conditions with
  | none =>
    cases write with
    | error e => cases h
    | ok rows =>
      obtain ⟨rfl, -⟩ := Prod.mk.inj (Except.ok.inj h)
      exact ⟨Nat.zero_le 1, Nat.le_refl _⟩
  | some c =>
    dsimp only at h
    split at h
    · cases write with
      | error e => cases h
      | ok rows =>
        obtain ⟨rfl, -⟩ := Prod.mk.inj (Except.ok.inj h)
        exact ⟨Nat.le_refl 1, Nat.le_refl _⟩
    · obtain ⟨rfl, -⟩ := Prod.mk.inj (Except.ok.inj h)
      exact ⟨Nat.le_refl 1, Nat.zero_le _⟩

/-- A write on one row at most changes one row at most. -/
theorem changedAtMostOnce_guardedWrite {filter conditions : Option Filter}
    {write : Except StoreError (List Row)} {result : ResultSet} {written : Table}
    (hwrite : ∀ rows, write = .ok rows → ChangedAtMostOnce t.rows rows)
    (h : guardedWrite t filter conditions params write = .ok (result, written)) :
    written.keys = t.keys ∧ ChangedAtMostOnce t.rows written.rows := by
  rcases guardedWrite_eq_ok h with rfl | ⟨rows, hrows, rfl⟩
  · exact ⟨rfl, .inl rfl⟩
  · exact ⟨rfl, hwrite rows hrows⟩

/-- What a command shows and changes at most: one row of the result, one touched
row, and one row of the table. -/
structure AtMostOne (t : Table) (result : ResultSet) (after : Table) : Prop where
  rows : result.rows.length ≤ 1
  rowCount : result.rowCount ≤ 1
  keys : after.keys = t.keys
  changed : ChangedAtMostOnce t.rows after.rows

theorem atMostOne_update {s : UpdateStatement} {result : ResultSet} {after : Table}
    (hone : (t.rows.filter (passes params s.filter)).length ≤ 1)
    (h : update t s params = .ok (result, after)) : AtMostOne t result after := by
  obtain ⟨hrows, hcount⟩ := result_of_guardedWrite h
  obtain ⟨hkeys, hchanged⟩ := changedAtMostOnce_guardedWrite (fun rows hwrite =>
    Except.ok.inj hwrite ▸ changedAtMostOnce_map hone _) h
  exact ⟨hrows, Nat.le_trans hcount hone, hkeys, hchanged⟩

theorem atMostOne_delete {s : DeleteStatement} {result : ResultSet} {after : Table}
    (hone : (t.rows.filter (passes params s.filter)).length ≤ 1)
    (h : delete t s params = .ok (result, after)) : AtMostOne t result after := by
  obtain ⟨hrows, hcount⟩ := result_of_guardedWrite h
  obtain ⟨hkeys, hchanged⟩ := changedAtMostOnce_guardedWrite (fun rows hwrite => by
    split at hwrite
    · exact Except.ok.inj hwrite ▸ changedAtMostOnce_filter hone
    · split at hwrite
      · cases hwrite
      · exact Except.ok.inj hwrite ▸ changedAtMostOnce_map hone _) h
  exact ⟨hrows, Nat.le_trans hcount hone, hkeys, hchanged⟩

theorem atMostOne_select {tables : Tables} {s : SelectStatement}
    {result : ResultSet} (htable : tables.get? s.table = some t)
    (hone : (t.rows.filter (passes params s.filter)).length ≤ 1)
    (h : select tables s params = .ok result) : AtMostOne t result t := by
  by_cases hcount : s.projection = .count
  · obtain ⟨row, rfl⟩ := select_count_eq_ok hcount h
    exact ⟨Nat.le_refl 1, Nat.le_refl 1, rfl, .inl rfl⟩
  · obtain ⟨found, hfound, rfl⟩ := select_eq_ok hcount h
    obtain rfl := Option.some.inj (hfound.symm.trans htable)
    have hlength : (ResultSet.ofRows ((chosen s params found.rows).map
            (shownRow s.projection))).rows.length ≤ 1 := by
      rw [ResultSet.ofRows, List.length_map]
      exact Nat.le_trans length_chosen_le hone
    exact ⟨hlength, hlength, rfl, .inl rfl⟩

end Store

/-- The filter of a statement that has one. -/
def Statement.filter? : Statement → Option Filter
  | .select s => s.filter
  | .insert _ => none
  | .update s => s.filter
  | .delete s => s.filter

namespace Store

variable {t : Table} {f : Filter} {params : List Value}

/-- A statement whose filter passes at most one row of its table shows and
changes at most one. -/
theorem atMostOne_execute {tables after : Tables} {statement : Statement}
    {result : ResultSet} (htable : tables.get? statement.table = some t)
    (hfilter : statement.filter? = some f)
    (hone : (t.rows.filter (passes params (some f))).length ≤ 1)
    (h : execute tables statement params = .ok (result, after)) :
    ∃ left, after.get? statement.table = some left ∧ AtMostOne t result left := by
  cases statement with
  | select s =>
    rw [← show s.filter = some f from hfilter] at hone
    rw [execute] at h
    cases hselect : select tables s params with
    | error e => simp [hselect, Except.map] at h
    | ok shown =>
      rw [hselect] at h
      obtain ⟨rfl, rfl⟩ := Prod.mk.inj (Except.ok.inj h)
      exact ⟨t, htable, atMostOne_select htable hone hselect⟩
  | insert s => cases hfilter
  | update s =>
    rw [← show s.filter = some f from hfilter] at hone
    obtain ⟨left, hupdate, rfl⟩ := write_eq_ok htable h
    exact ⟨left, NameMap.get?_insert_self .., atMostOne_update hone hupdate⟩
  | delete s =>
    rw [← show s.filter = some f from hfilter] at hone
    obtain ⟨left, hdelete, rfl⟩ := write_eq_ok htable h
    exact ⟨left, NameMap.get?_insert_self .., atMostOne_delete hone hdelete⟩

end Store

namespace Database

open Store

/-- In a database that was filled without changing the keys of rows, such as by
insertions alone, a command whose filter asks for a value in every key column
finds at most one row, if the rows that it finds hold values of one kind in each
of these columns. It then gives at most one row and changes at most one. -/
theorem full_key_addresses_one_row (steps : List Step)
    (hspares : SparesKeys {} steps) (command : Command) (parsed : ParsedCommand)
    (hparse : ParsedCommand.parse command.text = .ok parsed) (t : Table)
    (htable : (replay steps).tables.get? parsed.statement.table = some t)
    (f : Filter) (hfilter : parsed.statement.filter? = some f)
    (haddresses : f.Addresses t.keys)
    (halike : ∀ row ∈ t.rows.filter (passes command.params (some f)),
      ∀ other ∈ t.rows.filter (passes command.params (some f)),
        AlikeFor f command.params t.keys row other) :
    (t.rows.filter (passes command.params (some f))).length ≤ 1 ∧ ∀ result after,
        evaluate (replay steps).tables command = .ok (result, after) →
          ∃ left, after.get? parsed.statement.table = some left ∧
            AtMostOne t result left := by
  have hempty : Tables.Keyed ({} : Database).tables :=
    fun _ _ hnone => by cases hnone
  have hkeyed : t.Keyed := keyed_foldl hempty hspares _ t htable
  have hone := length_addressed_le_one hkeyed haddresses halike
  refine ⟨hone, fun result after hrun => ?_⟩
  rw [evaluate, hparse] at hrun
  dsimp only at hrun
  split at hrun
  · cases hrun
  · exact atMostOne_execute htable hfilter hone hrun

/-! ### A key under two numbers -/

/-- A command that deletes the row of a key. -/
def deleteKey (key : Value) : Command := ⟨"DELETE FROM t WHERE id = ?", [key]⟩

/-- What the command says. -/
def keyDelete : DeleteStatement where
  table := "t"
  columns := []
  filter := some (.compare "id" .eq (.param 0))
  conditions := none

theorem parse_deleteKey (key : Value) :
    ParsedCommand.parse (deleteKey key).text = .ok ⟨.delete keyDelete, 1⟩ := by
  have hlexes :
      Token.Lexes (deleteKey key).text.toList [.keyword .delete, .keyword .from,
        .name "t", .keyword .where, .name "id", .symbol .eq, .symbol .param] :=
    Token.lexes_of_read (rfl : Token.read "DELETE FROM t WHERE id = ?" = .ok _)
  have hcolumn : Parser.Path [.name "id"] "id" := .last (by cbv)
  have hterm : Parser.Terms 0 [.name "id", .symbol .eq, .symbol .param] 0
      [.compare "id" .eq (.param 0)] 1 :=
    .one fun _ _ => Parser.reads_term_column hcolumn.column
      (Parser.reads_compare hcolumn.column .eq (Parser.operandAt_placeholder 0))
  have hfilter := Parser.clause_filter (k := .where)
    (Parser.reads_filter hterm.blocks (Nat.zero_le _))
  have hnone : ∀ c ∈ ([] : List String), Parser.Path [.name c] c :=
    List.forall_mem_nil _
  exact ParsedCommand.parse_eq_ok hlexes
    (Parser.takes_statement_delete (Parser.takes_delete (.last (by cbv)) hnone
      hfilter (Parser.clause_noFilter .if 1)))

theorem full_key_addresses_one_row_deleteKey : ∃ result after,
    evaluate (replay (twoRows (.int 1) (.int 2))).tables (deleteKey (.int 1)) =
        .ok (result, after) ∧ ∃ left, after.get? "t" = some left ∧
          AtMostOne ⟨["id"], [keyRow (.int 1), keyRow (.int 2)]⟩ result left := by
  have htable : (replay (twoRows (.int 1) (.int 2))).tables.get? "t" =
      some ⟨["id"], [keyRow (.int 1), keyRow (.int 2)]⟩ := rfl
  have haddresses : (Filter.compare "id" .eq (.param 0)).Addresses ["id"] := by
    intro column hcolumn
    obtain rfl := List.mem_singleton.mp hcolumn
    exact ⟨.param 0, List.mem_singleton_self _⟩
  have hfound : [keyRow (.int 1), keyRow (.int 2)].filter (passes [.int 1]
        (some (.compare "id" .eq (.param 0)))) = [keyRow (.int 1)] := rfl
  obtain ⟨-, hrun⟩ := full_key_addresses_one_row (twoRows (.int 1) (.int 2))
      ⟨trivial, trivial, trivial, trivial⟩ (deleteKey (.int 1)) _
      (parse_deleteKey _) _ htable _ rfl haddresses (by
      intro row hrow other hother column hcolumn operand hmem
      rw [show (deleteKey (.int 1)).params = [.int 1] from rfl,
        hfound] at hrow hother
      obtain rfl := List.mem_singleton.mp hrow
      obtain rfl := List.mem_singleton.mp hother
      obtain rfl := List.mem_singleton.mp hcolumn
      obtain ⟨-, -, rfl⟩ := Filter.compare.inj (List.mem_singleton.mp hmem)
      decide)
  have hevaluate : ∃ result after,
      evaluate (replay (twoRows (.int 1) (.int 2))).tables (deleteKey (.int 1)) =
        .ok (result, after) := by
    rw [evaluate, parse_deleteKey]
    exact ⟨_, _, rfl⟩
  obtain ⟨result, after, hevaluate⟩ := hevaluate
  exact ⟨result, after, hevaluate, hrun result after hevaluate⟩

/-- Two rows whose keys are one number as an integer and as a floating point
one: a deletion by one of them deletes both. -/
theorem full_key_finds_two_rows :
    (replay (twoRows (.int 1) (.float (.ofInt 1)))).tables.get? "t" =
        some ⟨["id"], [keyRow (.int 1), keyRow (.float (.ofInt 1))]⟩ ∧
      ∃ after, evaluate (replay (twoRows (.int 1) (.float (.ofInt 1)))).tables
          (deleteKey (.int 1)) = .ok (.affected 2, after) ∧
        after.get? "t" = some ⟨["id"], []⟩ := by
  refine ⟨rfl, (∅ : Tables).insert "t" ⟨["id"], []⟩, ?_, rfl⟩
  rw [evaluate, parse_deleteKey]
  rfl

end Database

end EntityMapper
