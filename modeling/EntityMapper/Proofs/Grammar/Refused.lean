import EntityMapper.Proofs.Grammar.Placeholders
import EntityMapper.Proofs.Statement.Refusal
import EntityMapper.Proofs.Store.ConditionalWrite

/-!
# Names that are not read back are refused

A column that is no function call is written segment by segment, so whatever it
holds its text is a path, possibly with a label. Not every such path is read
back: a hard keyword is no name, a star ends a path early, and a label has no
place in a write. But none of them is read as *another* column. If a write with
such names is accepted at all, then every one of its names is read back;
otherwise it is refused as a whole.
-/

namespace EntityMapper

/-! ## Paths -/

/-- A column reference at the front of segments between dots takes all of them,
and its name is the last one, or it stops in front of a dot. -/
theorem Parser.ColumnPath.of_append (token : List Char → Token)
    (hname : ∀ segment name,
      nameOf? (token segment) = some name → name = String.ofList segment)
    (hstar : ∀ segment, token segment = .symbol .star → segment = ['*'])
    {used left rest : List Token} {name : String} (h : ColumnPath used name)
    {names : List (List Char)} (hsome : names ≠ [])
    (hsame : used ++ left = (names.map token).intersperse (.symbol .dot) ++ rest)
    (hrest : rest.head? ≠ some (.symbol .dot)) :
    (used = (names.map token).intersperse (.symbol .dot) ∧
      left = rest ∧ name = String.ofList (names.getLastD [])) ∨
      left.head? = some (.symbol .dot) := by
  obtain ⟨segment, names, rfl⟩ := List.exists_cons_of_ne_nil hsome
  induction h generalizing segment names with
  | star =>
    cases names with
    | nil =>
      obtain ⟨hfirst, rfl⟩ := List.cons.inj hsame
      rw [hstar segment hfirst.symm]
      exact .inl ⟨congrArg (fun t => [t])
        (by rw [hfirst, hstar segment hfirst.symm]), rfl, rfl⟩
    | cons next names => exact .inr (congrArg List.head? (List.cons.inj hsame).2)
  | last h =>
    cases names with
    | nil =>
      obtain ⟨rfl, rfl⟩ := List.cons.inj hsame
      exact .inl ⟨rfl, rfl, hname segment _ h⟩
    | cons next names => exact .inr (congrArg List.head? (List.cons.inj hsame).2)
  | qualified h _ ih =>
    cases names with
    | nil => exact absurd (congrArg List.head? (List.cons.inj hsame).2).symm hrest
    | cons next names =>
      obtain ⟨rfl, hmore⟩ := List.cons.inj hsame
      rcases ih next names (by simp) (List.cons.inj hmore).2
        with ⟨hused, hleft, hlast⟩ | hdot
      · exact .inl ⟨congrArg (fun tokens => _ :: _ :: tokens) hused, hleft, hlast⟩
      · exact .inr hdot

/-- The column is no function call. -/
def NoCall (column : String) : Prop := '(' ∉ column.toList

instance (column : String) : Decidable (NoCall column) :=
  inferInstanceAs (Decidable ('(' ∉ column.toList))

namespace Grammar

open EntityMapper.Parser (Halts)
open Token (Lexes Tail)

variable {g : Grammar} {column table : String} {rest : List Token}

theorem NoCall.pathOf (h : NoCall column) : '(' ∉ pathOf column := by
  unfold Grammar.pathOf
  cases hlabel : splitLabel? column.toList with
  | none => exact h
  | some parts =>
    exact fun hmem => h (mem_of_mem_splitLabel hlabel (mem_of_mem_trimChars hmem))

theorem NoCall.columnTokens_eq (h : NoCall column) (g : Grammar) :
    g.columnTokens column = g.writtenTokens column :=
  Token.cut_of_lexes (lexes_writtenTokens g (NoCall.pathOf h))

theorem NoCall.lexed (h : NoCall column) (g : Grammar) : g.Lexed column := by
  rw [Lexed, NoCall.columnTokens_eq h]
  exact lexes_writtenTokens g (NoCall.pathOf h)

/-- A segment is written as a keyword or as a name, and if it stands for a name
then for itself. -/
theorem segmentToken_cases (g : Grammar) (segment : List Char) :
    (∃ k, g.segmentToken segment = .keyword k ∧ k.text = String.ofList segment) ∨
      g.segmentToken segment = .name (String.ofList segment) ∧
        Text.toAsciiLower (String.ofList segment) = String.ofList segment ∨
      g.segmentToken segment = .quotedName (String.ofList segment) := by
  unfold segmentToken
  cases g.dialect with
  | sql => exact .inr (.inr rfl)
  | cql =>
    dsimp only
    split
    · next hplain =>
      have hlower := map_asciiLower_of_isPlainName hplain
      rw [Token.ofWord, hlower]
      cases hkeyword : Keyword.ofText? (String.ofList segment) with
      | none =>
        refine .inr (.inl ⟨rfl, String.toList_injective ?_⟩)
        rw [Text.toAsciiLower, String.toList_map, String.toList_ofList, hlower]
      | some k => exact .inl ⟨k, rfl, by simpa using List.find?_some hkeyword⟩
    · exact .inr (.inr rfl)

theorem eq_of_nameOf_segmentToken {segment : List Char} {name : String}
    (h : Parser.nameOf? (g.segmentToken segment) = some name) :
    name = String.ofList segment := by
  rcases segmentToken_cases g segment
    with ⟨k, htoken, htext⟩ | ⟨htoken, hlower⟩ | htoken
  · rw [htoken] at h
    simp only [Parser.nameOf?, Option.ite_none_right_eq_some,
      Option.some.injEq] at h
    exact h.2.symm.trans htext
  · rw [htoken] at h
    exact (Option.some.inj h).symm.trans hlower
  · rw [htoken] at h
    exact (Option.some.inj h).symm

theorem segmentToken_ne_symbol (g : Grammar) (segment : List Char) (s : Symbol) :
    g.segmentToken segment ≠ .symbol s := by
  rcases segmentToken_cases g segment with ⟨k, htoken, -⟩ | ⟨htoken, -⟩ | htoken
  all_goals simp [htoken]

theorem eq_of_nameOf_pieceToken {segment : List Char} {name : String}
    (h : Parser.nameOf? (g.pieceToken segment) = some name) :
    name = String.ofList segment := by
  unfold pieceToken at h
  split at h
  · cases h
  · exact eq_of_nameOf_segmentToken h

theorem eq_star_of_pieceToken {segment : List Char}
    (h : g.pieceToken segment = .symbol .star) : segment = ['*'] := by
  unfold pieceToken at h
  split at h
  · assumption
  · exact absurd h (segmentToken_ne_symbol g segment .star)

/-! ## Columns and tables -/

/-- A column that is parsed is read back, or the parser halts in front of a dot
or a label. -/
theorem leaves_columnName (h : NoCall column)
    (hrest : rest.head? ≠ some (.symbol .dot)) :
    Parser.columnName.Leaves (g.columnTokens column ++ rest) fun _ =>
      Halts (g.ReadsBack column) rest [.symbol .dot, .keyword .as] := by
  have hlexed := NoCall.lexed h g
  have hpath {path : List Char} {used left more : List Token} {name : String}
      (hcolumn : Parser.ColumnPath used name)
      (hsame : used ++ left = g.pieceTokens path ++ more)
      (hmore : more.head? ≠ some (.symbol .dot)) :=
    hcolumn.of_append g.pieceToken (fun _ _ => eq_of_nameOf_pieceToken)
      (fun _ => eq_star_of_pieceToken) (segments_ne_nil path) hsame hmore
  refine (Parser.leaves_of_inverts Parser.inverts_columnName _).imp ?_
  rintro name left ⟨used, hused, hcolumn⟩
  have htokens := NoCall.columnTokens_eq h g
  unfold writtenTokens at htokens
  cases hlabel : splitLabel? column.toList with
  | none =>
    rw [hlabel] at htokens
    rw [htokens] at hused
    rcases hpath hcolumn hused.symm hrest with ⟨rfl, rfl, rfl⟩ | hdot
    · refine .inl ⟨readsBack_of_path hlexed ?_, rfl⟩
      rw [htokens]
      exact hcolumn
    · exact .inr ⟨_, List.mem_cons_self .., hdot⟩
  | some parts =>
    rw [hlabel] at htokens
    dsimp only at htokens
    rw [htokens, List.append_assoc] at hused
    rcases hpath hcolumn hused.symm (by simp) with ⟨-, rfl, -⟩ | hdot
    · exact .inr ⟨_, List.mem_cons_of_mem _ (List.mem_cons_self ..), rfl⟩
    · exact .inr ⟨_, List.mem_cons_self .., hdot⟩

theorem leaves_tableName (g : Grammar) (table : String)
    (hrest : rest.head? ≠ some (.symbol .dot)) :
    Parser.tableName.Leaves (g.tableTokens table ++ rest) fun _ =>
      Halts (g.ReadsBackTable table) rest [.symbol .dot] := by
  obtain ⟨names, hsome, htokens, hlast⟩ : ∃ names, names ≠ [] ∧
      g.tableTokens table = (names.map g.segmentToken).intersperse (.symbol .dot) ∧
      names.getLastD [] = (segments table.toList).getLastD [] := by
    have hsegments := segments_ne_nil table.toList
    obtain ⟨first, more, hcons⟩ := List.exists_cons_of_ne_nil hsegments
    unfold tableTokens
    cases g.qualifier with
    | none => exact ⟨_, hsegments, rfl, rfl⟩
    | some qualifier =>
      dsimp only
      split
      · exact ⟨_, hsegments, rfl, rfl⟩
      · refine ⟨qualifier.toList :: segments table.toList, by simp, ?_, ?_⟩
        · rw [pathTokens, hcons]
          rfl
        · rw [hcons]
          rfl
  refine (Parser.leaves_of_inverts Parser.inverts_tableName _).imp ?_
  rintro name left ⟨used, hused, hpath⟩
  have hsame := hused.symm
  rw [htokens] at hsame
  rcases hpath.column.of_append g.segmentToken
    (fun _ _ => eq_of_nameOf_segmentToken)
    (fun segment hstar => absurd hstar (segmentToken_ne_symbol g segment .star))
    hsome hsame hrest with ⟨rfl, rfl, rfl⟩ | hdot
  · refine .inl ⟨readsBackTable_of_path ?_, rfl⟩
    rw [htokens, lastSegment, ← hlast]
    exact hpath
  · exact .inr ⟨_, List.mem_cons_self .., hdot⟩

/-! ## Conditions -/

/-- The condition is one test of a column. -/
inductive Tests (column : String) : Condition → Prop
  | basic (operator : Operator) (value : Value) :
      Tests column (.basic column operator value)
  | isIn (values : List Value) : Tests column (.isIn column values)

theorem Tests.conveys {c : Condition} (h : Tests column c)
    (hcolumn : g.ReadsBack column) : g.Conveys c := by
  cases h <;> exact ⟨by simpa [Condition.columns] using hcolumn, trivial, rfl⟩

theorem Tests.rawText {c : Condition} (h : Tests column c) : c.rawText? = none := by
  cases h <;> rfl

theorem Tests.lexable {c : Condition} (h : Tests column c)
    (hcolumn : NoCall column) : g.Lexable c := by
  refine ⟨?_, by simp [h.rawText]⟩
  cases h <;> simpa [Condition.columns] using NoCall.lexed hcolumn g

/-- Behind the column of a test stands what no column goes on with, and no
bracket. -/
theorem Tests.exists_tokens {c : Condition} (h : Tests column c) (g : Grammar) :
    ∃ t more, g.conditionTokens c = g.columnTokens column ++ t :: more ∧
      t ≠ .symbol .dot ∧ t ≠ .symbol .leftParen ∧
      ∀ name, Parser.ColumnPath (g.columnTokens column) name →
        ∀ n, ∃ f m, Parser.columnFilter.Reads []
          (g.columnTokens column ++ t :: more) n f m := by
  cases h with
  | basic operator value =>
    have hoperator : ∃ t more, operator.tokens = t :: more ∧ t ≠ .symbol .dot ∧
        t ≠ .symbol .leftParen := by
      cases operator <;> exact ⟨_, _, rfl, by simp, by simp⟩
    obtain ⟨t, more, htokens, hdot, hopen⟩ := hoperator
    refine ⟨t, more ++ [.symbol .param], by rw [conditionTokens, htokens]; rfl,
      hdot, hopen, fun name hpath n => ?_⟩
    have hreads :=
      Parser.reads_compare hpath operator (Parser.operandAt_placeholder n)
    rw [htokens] at hreads
    exact ⟨_, _, hreads⟩
  | isIn values =>
    exact ⟨_, _, rfl, by simp, by simp, fun name hpath n =>
      ⟨_, _, Parser.reads_member hpath (Parser.members_placeholders values n)⟩⟩

/-- The tokens of a column begin with no bracket, and none follows the first one. -/
theorem columnTokens_cons (h : NoCall column) (g : Grammar) {t : Token}
    (more : List Token) (ht : t ≠ .symbol .leftParen) :
    (g.columnTokens column ++ t :: more).head? ≠ some (.symbol .leftParen) ∧
      (g.columnTokens column ++ t :: more).tail.head? ≠
        some (.symbol .leftParen) := by
  have hpiece (segment : List Char) : g.pieceToken segment ≠
      .symbol .leftParen := by
    unfold pieceToken
    split
    · simp
    · exact segmentToken_ne_symbol g segment .leftParen
  have hpieces {path : List Char} {t : Token} (more : List Token)
      (ht : t ≠ .symbol .leftParen) :
      (g.pieceTokens path ++ t :: more).head? ≠ some (.symbol .leftParen) ∧
        (g.pieceTokens path ++ t :: more).tail.head? ≠
          some (.symbol .leftParen) := by
    obtain ⟨first, names, hsegments⟩ :=
      List.exists_cons_of_ne_nil (segments_ne_nil path)
    rw [pieceTokens, hsegments]
    cases names <;> simp [hpiece, ht]
  rw [NoCall.columnTokens_eq h]
  unfold writtenTokens
  cases splitLabel? column.toList with
  | none => exact hpieces more ht
  | some parts =>
    dsimp only
    rw [List.append_assoc]
    exact hpieces _ (by simp)

/-- A test that is accepted is on a column that is read back. -/
theorem leaves_term {c : Condition} (htest : Tests column c) (h : NoCall column)
    (inner : Parser Filter) (rest : List Token) :
    (Parser.term inner).Leaves (g.conditionTokens c ++ rest) fun _ =>
      Halts (g.ReadsBack column) rest [] := by
  obtain ⟨t, more, htokens, hdot, hopen, hreads⟩ := htest.exists_tokens g
  by_cases hread : g.ReadsBack column
  · have htakes : ∀ n, ∃ f m,
        (Parser.term inner).Takes (g.conditionTokens c ++ rest) n f rest m := by
      intro n
      obtain ⟨f, m, hfilter⟩ := hreads _ hread.path n
      rw [htokens]
      exact ⟨f, m, Parser.reads_term_column hread.path hfilter rest (by simp)⟩
    exact (Parser.leaves_of_takes htakes).imp
      fun _ left hleft => .inl ⟨hread, hleft⟩
  · -- The column stops early, and in front of a dot or a label there is no
    -- condition.
    obtain ⟨hfirst, hsecond⟩ := columnTokens_cons h g (more ++ rest) hopen
    have hcolumn :
        Parser.columnFilter.Leaves (g.columnTokens column ++ t :: (more ++ rest))
          fun _ => Halts (g.ReadsBack column) rest [] := by
      refine (leaves_columnName h (by simpa using hdot)).bind ?_
      rintro name left (⟨hread', -⟩ | ⟨stop, hstop, hhead⟩)
      · exact absurd hread' hread
      refine Parser.leaves_next.bind ?_
      rintro ⟨token, span⟩ more rfl
      obtain rfl : token = stop := Option.some.inj hhead
      rcases List.mem_cons.mp hstop with rfl | hstop
      · exact Parser.leaves_fail _ _ _ _
      · obtain rfl := List.mem_singleton.mp hstop
        exact Parser.leaves_fail _ _ _ _
    rw [htokens, List.append_assoc, List.cons_append]
    refine (Parser.leaves_eat_none hfirst).bind ?_
    rintro _ _ ⟨rfl, rfl⟩
    refine (Parser.leaves_eat (.keyword .token)).bind ?_
    intro found left hleft
    refine Parser.leaves_ite ?_ ?_
    · -- A column may be named as the token function, but no bracket follows its
      -- name.
      rintro rfl
      rw [hleft] at hsecond
      refine (Parser.leaves_expectSymbol .leftParen).bind ?_
      rintro _ _ rfl
      exact absurd rfl hsecond
    · rintro rfl
      rw [if_neg Bool.false_ne_true] at hleft
      exact hleft ▸ hcolumn

/-- The predicates are tests joined by AND, on columns that are no function
calls. -/
def PlainTests (predicates : List Predicate) : Prop :=
  ∀ p ∈ predicates, p.connector = .and ∧
    ∃ column, NoCall column ∧ Tests column p.condition

theorem wheresTokens_and (g : Grammar) {predicates : List Predicate}
    (hsome : predicates ≠ []) (h : ∀ p ∈ predicates, p.connector = .and) :
    g.wheresTokens predicates = [.keyword .and].intercalate
        (predicates.map fun p => g.conditionTokens p.condition) := by
  obtain ⟨p, rest, rfl⟩ := List.exists_cons_of_ne_nil hsome
  have hmore : ∀ {rest : List Predicate}, (∀ q ∈ rest, q.connector = .and) →
      g.moreTokens rest =
        rest.flatMap fun q => .keyword .and :: g.conditionTokens q.condition := by
    intro rest hrest
    induction rest with
    | nil => rfl
    | cons q rest ih =>
      obtain ⟨hq, hrest⟩ := List.forall_mem_cons.mp hrest
      rw [moreTokens, hq, ih hrest]
      simp [Connector.token]
  rw [Parser.intercalate_cons, wheresTokens, hmore (List.forall_mem_cons.mp h).2]

/-- A list of tests that is accepted is on columns that are read back. -/
theorem leaves_conjunction {predicates : List Predicate}
    (hsome : predicates ≠ []) (h : PlainTests predicates) (fuel : Nat)
    (hrest : rest.head? ≠ some (.keyword .and)) :
    (Parser.separated (.keyword .and)
      (Parser.term (Parser.filterWithin fuel))).Leaves
      (g.wheresTokens predicates ++ rest) fun _ =>
        Halts (∀ p ∈ predicates, g.Conveys p.condition) rest [.keyword .and] := by
  rw [wheresTokens_and g hsome fun p hp => (h p hp).1]
  refine Parser.leaves_separated hsome List.not_mem_nil
    (fun p hp more _ => ?_) hrest
  obtain ⟨-, column, hcolumn, htest⟩ := h p hp
  exact (leaves_term htest hcolumn _ more).imp fun _ left hleft =>
    hleft.imp htest.conveys (List.Subset.refl _)

theorem leaves_filter {predicates : List Predicate} (hsome : predicates ≠ [])
    (h : PlainTests predicates) :
    Parser.filter.Leaves (g.wheresTokens predicates) fun _ =>
      Halts (∀ p ∈ predicates, g.Conveys p.condition) []
          [.keyword .or, .keyword .and] := by
  have hblock (fuel : Nat) : ∀ block ∈ [predicates],
      ∀ more : List Token, more = [] ∨ more.head? = some (.keyword .or) →
        (Parser.conjunctionWithin fuel).Leaves (g.wheresTokens block ++ more)
          fun _ =>
            Halts (∀ p ∈ block, g.Conveys p.condition) more [.keyword .and] := by
    intro block hblock more hmore
    obtain rfl := List.mem_singleton.mp hblock
    have hand : more.head? ≠ some (.keyword .and) := by
      rcases hmore with rfl | hhead
      · simp
      · simp [hhead]
    exact (leaves_conjunction hsome h fuel hand).then_pure _
  have halternatives :
      Parser.alternatives.Leaves (g.wheresTokens predicates) fun _ =>
      Halts (∀ p ∈ predicates, g.Conveys p.condition) []
          [.keyword .or, .keyword .and] := by
    refine Parser.leaves_get fun c _ => ?_
    have hone := Parser.leaves_separated (List.cons_ne_nil predicates [])
      (by simp : Token.keyword .or ∉ [Token.keyword .and])
      (hblock c.tokens.length) (by simp)
    simp only [List.forall_mem_singleton, List.append_nil, List.map_cons,
      List.map_nil, List.intercalate_singleton] at hone
    exact hone
  rw [Parser.filter_eq_map_alternatives]
  exact halternatives.then_pure _

/-- Behind the other names of a write, its filter is on columns that are read
back, or the parser halts. -/
theorem leaves_where {predicates : List Predicate} (hsome : predicates ≠ [])
    (h : PlainTests predicates) {P : Prop} {stops left : List Token}
    (hleft : Halts P (.keyword .where :: g.wheresTokens predicates) stops left)
    (hstops : .keyword .where ∉ stops) :
    (Parser.filterAfter .where).Leaves left fun _ =>
      Halts (P ∧ ∀ p ∈ predicates, g.Conveys p.condition) []
        (.keyword .or :: .keyword .and :: stops) := by
  rcases hleft with ⟨hP, rfl⟩ | ⟨t, ht, hhead⟩
  · refine (Parser.leaves_eat_some _ _).bind ?_
    rintro _ _ ⟨rfl, rfl⟩
    refine Parser.Leaves.then_pure ?_ _
    exact (leaves_filter hsome h).imp fun _ _ hend =>
      hend.imp (fun hpredicates => ⟨hP, hpredicates⟩) (by simp)
  · have hnone : left.head? ≠ some (.keyword .where) := by
      rw [hhead]
      rintro ⟨⟩
      exact hstops ht
    refine (Parser.leaves_filterAfter_none hnone).imp ?_
    rintro _ _ rfl
    exact .inr ⟨t, by simp [ht], hhead⟩

/-! ## Writes -/

theorem leaves_assignment (h : NoCall column) (rest : List Token) :
    Parser.assignment.Leaves
      (g.columnTokens column ++ [.symbol .eq, .symbol .param] ++ rest)
      fun _ => Halts (g.ReadsBack column) rest [] := by
  rw [List.append_assoc]
  refine (leaves_columnName h (by simp)).bind ?_
  intro name left hleft
  refine (Parser.leaves_expectSymbol .eq).bind ?_
  intro _ more hmore
  obtain ⟨hread, rfl⟩ := hleft.expected (by simp) hmore
  have hoperand :
      ∀ n, ∃ o m, Parser.operand.Takes (.symbol .param :: rest) n o rest m :=
    fun n => ⟨_, _, (Parser.operandAt_placeholder n).takes rest⟩
  refine (Parser.leaves_of_takes hoperand).bind ?_
  rintro _ _ rfl
  exact Parser.leaves_pure (.inl ⟨hread, rfl⟩)

/-- An insertion that is accepted names a table and columns that are read back. -/
theorem leaves_insert {columns : List String} (hsome : columns ≠ [])
    (h : ∀ column ∈ columns, NoCall column) (g : Grammar) (table : String)
    (rest : List Token) :
    Parser.insert.Leaves (.keyword .into ::
        (g.tableTokens table ++ .symbol .leftParen ::
          (Token.commas (columns.map g.columnTokens) ++ .symbol .rightParen ::
            rest))) fun _ _ =>
        g.ReadsBackTable table ∧ ∀ column ∈ columns, g.ReadsBack column := by
  refine (Parser.leaves_expectKeyword .into).bind ?_
  rintro _ _ ⟨⟩
  refine (leaves_tableName g table (by simp)).bind ?_
  intro _ left hleft
  refine (Parser.leaves_expectSymbol .leftParen).bind ?_
  intro _ more hmore
  obtain ⟨htable, rfl⟩ := hleft.expected (by simp) hmore
  have hcolumns : Parser.columnList.Leaves
      (Token.commas (columns.map g.columnTokens) ++ .symbol .rightParen :: rest)
      fun _ =>
        Halts (∀ column ∈ columns, g.ReadsBack column) (.symbol .rightParen :: rest)
          [.symbol .comma, .symbol .dot, .keyword .as] := by
    refine Parser.leaves_separated hsome (by simp)
      (fun column hcolumn more hmore => ?_) (by simp)
    refine leaves_columnName (h column hcolumn) ?_
    rcases hmore with rfl | hhead
    · simp
    · simp [hhead]
  refine hcolumns.bind ?_
  intro _ left hleft
  refine (Parser.leaves_expectSymbol .rightParen).bind ?_
  intro _ more hmore
  exact Parser.leaves_of _ _ ⟨htable, (hleft.expected (by simp) hmore).1⟩

/-- An update that is accepted, or that halts at its end, is on names that are
read back. -/
theorem leaves_update {columns : List String} (hsome : columns ≠ [])
    (h : ∀ column ∈ columns, NoCall column) {predicates : List Predicate}
    (hwhere : predicates ≠ []) (hplain : PlainTests predicates) (g : Grammar)
    (table : String) :
    Parser.update.Leaves (g.tableTokens table ++ .keyword .set ::
      (Token.commas (columns.map fun column =>
        g.columnTokens column ++ [.symbol .eq, .symbol .param]) ++
          .keyword .where :: g.wheresTokens predicates)) fun _ =>
        Halts ((g.ReadsBackTable table ∧ ∀ column ∈ columns, g.ReadsBack column) ∧
          ∀ p ∈ predicates, g.Conveys p.condition) []
          [.keyword .or, .keyword .and, .symbol .comma] := by
  refine (leaves_tableName g table (by simp)).bind ?_
  intro _ left hleft
  refine (Parser.leaves_ttl_none (hleft.head_ne (by simp) (by simp))).bind ?_
  rintro _ _ rfl
  refine (Parser.leaves_expectKeyword .set).bind ?_
  intro _ more hmore
  obtain ⟨htable, rfl⟩ := hleft.expected (by simp) hmore
  have hassignments : (Parser.commaSeparated Parser.assignment).Leaves
      (Token.commas (columns.map fun column =>
        g.columnTokens column ++ [.symbol .eq, .symbol .param]) ++
          .keyword .where :: g.wheresTokens predicates) fun _ =>
        Halts (∀ column ∈ columns, g.ReadsBack column)
          (.keyword .where :: g.wheresTokens predicates) [.symbol .comma] :=
    Parser.leaves_separated hsome List.not_mem_nil
      (fun column hcolumn more _ => leaves_assignment (h column hcolumn) more)
      (by simp)
  refine hassignments.bind ?_
  intro _ left hleft
  have hnames :=
    hleft.imp (fun hcolumns => And.intro htable hcolumns) (List.Subset.refl _)
  refine (leaves_where hwhere hplain hnames (by simp)).bind ?_
  intro _ left hleft
  exact (hleft.leaves_filterAfter (by simp)).then_pure _

/-- A deletion of whole rows that is accepted, or that halts at its end, is on
names that are read back. -/
theorem leaves_delete {predicates : List Predicate} (hwhere : predicates ≠ [])
    (hplain : PlainTests predicates) (g : Grammar) (table : String) :
    Parser.delete.Leaves (.keyword .from :: (g.tableTokens table ++
      .keyword .where :: g.wheresTokens predicates)) fun _ =>
        Halts (g.ReadsBackTable table ∧ ∀ p ∈ predicates, g.Conveys p.condition) []
          [.keyword .or, .keyword .and, .symbol .dot] := by
  have hnone : ∀ column ∈ ([] : List String), Parser.Path [] column :=
    List.forall_mem_nil _
  have hcolumns :=
    Parser.leaves_of_takes fun n => ⟨_, _, Parser.takes_deletedColumns hnone
      (g.tableTokens table ++ .keyword .where :: g.wheresTokens predicates) n⟩
  rw [Parser.delete_eq]
  refine hcolumns.bind ?_
  rintro _ _ rfl
  refine (Parser.leaves_expectKeyword .from).bind ?_
  rintro _ _ ⟨⟩
  refine (leaves_tableName g table (by simp)).bind ?_
  intro _ left hleft
  refine (leaves_where hwhere hplain hleft (by simp)).bind ?_
  intro _ left hleft
  exact (hleft.leaves_filterAfter (by simp)).then_pure _

/-! ## Accepted commands -/

variable {q : Intent} {r : Request} {c : Command} {parsed : ParsedCommand}

theorem readsBack_of_parse_insert {values : Pairs}
    (h : ∀ pair ∈ values, NoCall pair.1) (hc : g.insert q values = .ok c)
    (hparse : ParsedCommand.parse c.text = .ok parsed) :
    g.ReadsBackTable q.table ∧ ∀ pair ∈ values, g.ReadsBack pair.1 := by
  obtain ⟨_, habsent, -⟩ := written_absent g q 0
  obtain ⟨_, httl, -⟩ := written_ttl q 0
  have hlexes :=
    lexes_insert (fun pair hpair => NoCall.lexed (h pair hpair) g) habsent httl hc
  obtain ⟨hsome, -⟩ := insert_eq_ok hc
  have hcolumns : ∀ column ∈ values.map Prod.fst, NoCall column :=
    List.forall_mem_map.mpr h
  have hstatement (rest : List Token) := Parser.leaves_statement_insert
    (leaves_insert (by simpa using hsome) hcolumns g q.table rest)
  simp only [List.map_map] at hstatement
  obtain ⟨htable, hnames⟩ := ParsedCommand.of_parse hlexes
    ((hstatement _).imp fun _ _ hnames => .inl hnames) List.not_mem_nil hparse
  exact ⟨htable, fun pair hpair => hnames pair.1 (List.mem_map_of_mem hpair)⟩

/-- A write that compares columns with values and that names no function. -/
structure PlainWrite (q : Intent) (r : Request) : Prop where
  some : q.wheres ≠ []
  wheres : PlainTests q.wheres
  free : q.ifConditions = []
  assigned : ∀ pair ∈ r.assigned, NoCall pair.1

theorem PlainWrite.tail (h : PlainWrite q r) (g : Grammar) :
    Tail (g.writeFilter q).text.toList
      (.keyword .where :: g.wheresTokens q.wheres) := by
  have hlexable : ∀ p ∈ q.wheres, g.Lexable p.condition := by
    intro p hp
    obtain ⟨-, column, hcolumn, htest⟩ := h.wheres p hp
    exact htest.lexable hcolumn
  have hlexes := lexes_wheres g hlexable
  have hempty : (g.wheres q.wheres).text.isEmpty = false := by
    obtain ⟨p, rest, hwheres⟩ := List.exists_cons_of_ne_nil h.some
    obtain ⟨-, column, -, htest⟩ := h.wheres p (hwheres ▸ List.mem_cons_self ..)
    refine isEmpty_of_lexes hlexes ?_
    rw [hwheres]
    exact wheresTokens_ne_nil (conditionTokens_ne_nil htest.rawText) rest
  have hnone : (g.wheres q.ifConditions).text.isEmpty = true := by rw [h.free]; rfl
  have htext : (g.writeFilter q).text = " WHERE " ++ (g.wheres q.wheres).text := by
    unfold writeFilter foldedWhere
    cases g.dialect <;> simp [Fragment.headed, hempty, hnone]
  rw [htext, String.toList_append]
  exact joint_where.tail hlexes

/-- A write of whole rows that is accepted is on names that are read back. -/
theorem readsWrite_of_parse (hr : WholeWrite q r) (h : PlainWrite q r)
    (hc : g.compile q r = .ok c)
    (hparse : ParsedCommand.parse c.text = .ok parsed) : g.ReadsWrite q r := by
  have hfilter := h.tail g
  have hconditions : ∀ p ∈ q.ifConditions, g.Conveys p.condition := by
    rw [h.free]
    exact List.forall_mem_nil _
  cases r with
  | update values =>
    obtain ⟨hsome, httl⟩ := hr
    have hnone : Tail (ttlClause q).toList [] := by
      rw [ttlClause, httl]
      exact Token.tail_nil
    have hlexes := lexes_update
      (fun pair hpair => NoCall.lexed (h.assigned pair hpair) g) hnone hfilter hc
    have hcolumns : ∀ column ∈ values.map Prod.fst, NoCall column :=
      List.forall_mem_map.mpr h.assigned
    have hstatement := Parser.leaves_statement_update
      (leaves_update (by simpa using hsome) hcolumns h.some h.wheres g q.table)
    rw [List.map_map] at hstatement
    obtain ⟨⟨htable, hnames⟩, hwheres⟩ := ParsedCommand.of_parse hlexes
      (hstatement.imp fun _ _ hend => hend.imp_left And.left) (by simp) hparse
    exact ⟨htable, hwheres, hconditions,
      fun pair hpair => hnames pair.1 (List.mem_map_of_mem hpair)⟩
  | delete =>
    have hwhole : q.selection.names = [] := hr
    have hlexes :=
      lexes_delete (by rw [hwhole]; exact List.forall_mem_nil _) hfilter hc
    rw [hwhole] at hlexes
    obtain ⟨htable, hwheres⟩ := ParsedCommand.of_parse hlexes
      ((Parser.leaves_statement_delete (leaves_delete h.some h.wheres g
            q.table)).imp fun _ _ hend => hend.imp_left And.left) (by simp) hparse
    exact ⟨htable, hwheres, hconditions, List.forall_mem_nil _⟩
  | select => exact hr.elim
  | count => exact hr.elim
  | insert values => exact hr.elim

end Grammar

end EntityMapper
