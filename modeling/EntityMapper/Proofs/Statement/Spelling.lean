import EntityMapper.Proofs.Statement.Acceptance
import EntityMapper.Proofs.Statement.Respelling
import EntityMapper.Proofs.Statement.Statements

/-!
# The parser does not see the spelling

Two commands with the same tokens, the letter case of bare names apart, are
parsed alike: if the first is accepted, so is the second, with the same result.
A parser *agrees* with another if its success from a cursor makes the other
succeed with the same result from every cursor that is alike, and the cursors
that are left are alike again. Every production agrees with itself, since it
looks at a name only through its folded text; spans are never part of a result.
Together with what the lexer does with another spelling of a text, letter case
and blanks outside quotes do not count.
-/

namespace EntityMapper

/-- Cursors with the same tokens ahead, the case of names apart, and as many
placeholders met. -/
structure Cursor.Alike (c d : Cursor) : Prop where
  ahead : c.ahead.map Token.folded = d.ahead.map Token.folded
  placeholders : c.placeholders = d.placeholders

theorem Cursor.Alike.length {c d : Cursor} (h : c.Alike d) :
    c.tokens.length = d.tokens.length := by
  simpa [Cursor.ahead] using congrArg List.length h.ahead

/-- Alike cursors are both at the end, or before tokens that fold to one. -/
theorem Cursor.Alike.cases {c d : Cursor} (h : c.Alike d) :
    (c.tokens = [] ∧ d.tokens = []) ∨
      ∃ first first' rest rest', c.tokens = first :: rest ∧
        d.tokens = first' :: rest' ∧ first.token.folded = first'.token.folded ∧
        Cursor.Alike { c with tokens := rest } { d with tokens := rest' } := by
  have hahead := h.ahead
  rcases hc : c.tokens with _ | ⟨first, rest⟩ <;>
    rcases hd : d.tokens with _ | ⟨first', rest'⟩
  · exact .inl ⟨rfl, rfl⟩
  · simp [Cursor.ahead, hc, hd] at hahead
  · simp [Cursor.ahead, hc, hd] at hahead
  · simp only [Cursor.ahead, hc, hd, List.map_cons, List.cons.injEq] at hahead
    exact .inr ⟨first, first', rest, rest', rfl, rfl, hahead.1, hahead.2,
      h.placeholders⟩

/-- Tokens that fold to one are the same, or names that fold to one. -/
theorem Token.eq_or_names {t u : Token} (h : t.folded = u.folded) :
    t = u ∨ ∃ first second, t = .name first ∧ u = .name second ∧
      Text.toAsciiLower first = Text.toAsciiLower second := by
  cases t <;> cases u <;> simp_all [Token.folded]

theorem Token.eq_iff_of_folded {t u s : Token} (h : t.folded = u.folded)
    (hs : ∀ text, s ≠ .name text) : t = s ↔ u = s := by
  rcases eq_or_names h with rfl | ⟨first, second, rfl, rfl, -⟩
  · rfl
  · exact iff_of_false (hs first).symm (hs second).symm

namespace Parser

variable {α β : Type}

/-- If the first parser succeeds, the second gives the same result from every
cursor that is alike, and what they leave is alike. -/
def Agrees (p q : Parser α) : Prop :=
  ∀ c c' a d, c.Alike c' → p.run c = .ok (a, d) →
    ∃ d', q.run c' = .ok (a, d') ∧ d.Alike d'

/-! ## Steps -/

theorem Agrees.bind {p q : Parser α} {f g : α → Parser β} (hp : p.Agrees q)
    (hf : ∀ a, (f a).Agrees (g a)) : (p >>= f).Agrees (q >>= g) := by
  intro c c' b e halike hrun
  obtain ⟨a, d, hfirst, hsecond⟩ := exists_of_run_bind hrun
  obtain ⟨d', hfirst', hd⟩ := hp c c' a d halike hfirst
  obtain ⟨e', hsecond', he⟩ := hf a d d' b e hd hsecond
  refine ⟨e', ?_, he⟩
  rw [StateT.run_bind, hfirst']
  exact hsecond'

theorem agrees_pure (a : α) : (pure a : Parser α).Agrees (pure a) := by
  intro c c' b d halike hrun
  obtain ⟨rfl, rfl⟩ := Prod.mk.inj (Except.ok.inj hrun)
  exact ⟨c', rfl, halike⟩

/-- A parser that fails agrees with all others. -/
theorem agrees_fail (fault : SyntaxFault) (span : Span) (q : Parser α) :
    (fail fault span : Parser α).Agrees q := by
  intro c c' a d _ hrun
  have herror : (fail fault span : Parser α).run c = .error ⟨fault, span⟩ := rfl
  rw [herror] at hrun
  cases hrun

theorem agrees_get {f g : Cursor → Parser β}
    (h : ∀ c c', c.Alike c' → (f c).Agrees (g c')) :
    (get >>= f).Agrees (get >>= g) :=
  fun c c' b d halike hrun => h c c' halike c c' b d halike hrun

theorem agrees_ite {b : Bool} {p q p' q' : Parser α} (hp : p.Agrees p')
    (hq : q.Agrees q') :
    (if b = true then p else q).Agrees (if b = true then p' else q') := by
  cases b with
  | true => exact hp
  | false => exact hq

/-- A step on the next token: on tokens that are the same, and on names that
fold to one. -/
theorem agrees_next {f g : SpannedToken → Parser β}
    (hsame : ∀ t span span', (f ⟨t, span⟩).Agrees (g ⟨t, span'⟩))
    (hname : ∀ first second span span',
      Text.toAsciiLower first = Text.toAsciiLower second →
        (f ⟨.name first, span⟩).Agrees (g ⟨.name second, span'⟩)) :
    (nextToken >>= f).Agrees (nextToken >>= g) := by
  intro c c' b e halike hrun
  obtain ⟨next, d, hnext, hafter⟩ := exists_of_run_bind hrun
  rcases halike.cases
    with ⟨hc, -⟩ | ⟨first, first', rest, rest', hc, hc', hfirst, hrest⟩
  · simp [StateT.run, nextToken, hc] at hnext
  simp only [StateT.run, nextToken, hc] at hnext
  obtain ⟨rfl, rfl⟩ := Prod.mk.inj (Except.ok.inj hnext)
  have hagrees : (f first).Agrees (g first') := by
    obtain ⟨token, span⟩ := first
    obtain ⟨token', span'⟩ := first'
    rcases Token.eq_or_names hfirst with heq | ⟨name, name', rfl, rfl, hnames⟩
    · obtain rfl : token = token' := heq
      exact hsame token span span'
    · exact hname name name' span span' hnames
  obtain ⟨e', hrun', he⟩ := hagrees _ _ b e hrest hafter
  refine ⟨e', ?_, he⟩
  rw [StateT.run_bind]
  simp only [StateT.run, nextToken, hc']
  exact hrun'

/-- A step that refuses names. -/
theorem agrees_next_other {f : SpannedToken → Parser β}
    (hsame : ∀ t span span', (f ⟨t, span⟩).Agrees (f ⟨t, span'⟩))
    (hname : ∀ text span, ∃ fault, f ⟨.name text, span⟩ = fail fault span) :
    (nextToken >>= f).Agrees (nextToken >>= f) := by
  refine agrees_next hsame fun first second span span' _ => ?_
  obtain ⟨fault, hfail⟩ := hname first span
  rw [hfail]
  exact agrees_fail fault span _

/-- A question that no name answers. -/
theorem agrees_eat {t : Token} (ht : ∀ text, t ≠ .name text) :
    (eat t).Agrees (eat t) := by
  intro c c' found d halike hrun
  rcases halike.cases
    with ⟨hc, hc'⟩ | ⟨first, first', rest, rest', hc, hc', hfirst, hrest⟩
  · simp only [StateT.run, eat, hc] at hrun
    obtain ⟨rfl, rfl⟩ := Prod.mk.inj (Except.ok.inj hrun)
    exact ⟨c', by simp only [StateT.run, eat, hc'], halike⟩
  have hiff := Token.eq_iff_of_folded hfirst ht
  simp only [StateT.run, eat, hc] at hrun
  split at hrun
  · next heq =>
    obtain ⟨rfl, rfl⟩ := Prod.mk.inj (Except.ok.inj hrun)
    exact ⟨_, by simp only [StateT.run, eat, hc', if_pos (hiff.mp heq)], hrest⟩
  · next hne =>
    obtain ⟨rfl, rfl⟩ := Prod.mk.inj (Except.ok.inj hrun)
    exact ⟨c', by simp only [StateT.run, eat, hc', if_neg (hne ∘ hiff.mpr)], halike⟩

theorem agrees_eatKeyword (k : Keyword) : (eatKeyword k).Agrees (eatKeyword k) :=
  agrees_eat (by simp)

theorem agrees_eatSymbol (s : Symbol) : (eatSymbol s).Agrees (eatSymbol s) :=
  agrees_eat (by simp)

theorem agrees_check {t : Token} (ht : ∀ text, t ≠ .name text) :
    (check t).Agrees (check t) := by
  intro c c' found d halike hrun
  rcases halike.cases
    with ⟨hc, hc'⟩ | ⟨first, first', rest, rest', hc, hc', hfirst, -⟩
  all_goals
    simp only [StateT.run, check, hc] at hrun
    obtain ⟨rfl, rfl⟩ := Prod.mk.inj (Except.ok.inj hrun)
  · exact ⟨c', by simp only [StateT.run, check, hc'], halike⟩
  · refine ⟨c', ?_, halike⟩
    simp only [StateT.run, check, hc', Token.eq_iff_of_folded hfirst ht]

theorem agrees_atCount : atCount.Agrees atCount := by
  intro c c' found d halike hrun
  have hlength := halike.length
  have hahead := halike.ahead
  rcases hc : c.tokens with _ | ⟨first, _ | ⟨second, rest⟩⟩ <;>
    rcases hc' : c'.tokens with _ | ⟨first', _ | ⟨second', rest'⟩⟩
  all_goals
    simp only [hc, hc', List.length_cons, List.length_nil] at hlength
  all_goals try omega
  all_goals
    simp only [StateT.run, atCount, hc] at hrun
    obtain ⟨rfl, rfl⟩ := Prod.mk.inj (Except.ok.inj hrun)
    refine ⟨c', ?_, halike⟩
    simp only [StateT.run, atCount, hc']
  simp only [Cursor.ahead, hc, hc', List.map_cons, List.cons.injEq] at hahead
  simp only [Token.eq_iff_of_folded hahead.1 (s := .keyword .count) (by simp),
    Token.eq_iff_of_folded hahead.2.1 (s := .symbol .leftParen) (by simp)]

theorem fail_bind (fault : SyntaxFault) (span : Span) (f : α → Parser β) :
    (fail fault span >>= f) = fail fault span := rfl

/-- A step on a token that has to be there: its span does not matter. -/
theorem agrees_expect {t : Token} (ht : ∀ text, t ≠ .name text)
    {f : SpannedToken → Parser β}
    (h : ∀ span span', (f ⟨t, span⟩).Agrees (f ⟨t, span'⟩)) :
    (expect t >>= f).Agrees (expect t >>= f) := by
  rw [expect, bind_assoc]
  refine agrees_next_other (fun u span span' => ?_) fun text span =>
    ⟨.expected t (.name text), by rw [if_neg (ht text).symm, fail_bind]⟩
  by_cases hu : u = t
  · subst hu
    rw [if_pos rfl, if_pos rfl, pure_bind, pure_bind]
    exact h span span'
  · rw [if_neg hu, fail_bind]
    exact agrees_fail _ _ _

theorem agrees_expectSymbol (s : Symbol) :
    (expectSymbol s).Agrees (expectSymbol s) := by
  rw [expectSymbol, discard_eq]
  exact agrees_expect (by simp) fun _ _ => agrees_pure ()

theorem agrees_expectKeyword (k : Keyword) :
    (expectKeyword k).Agrees (expectKeyword k) := by
  rw [expectKeyword, discard_eq]
  exact agrees_expect (by simp) fun _ _ => agrees_pure ()

/-- A name is read in its folded form. -/
theorem agrees_expectName : expectName.Agrees expectName := by
  refine agrees_next (fun t span span' => ?_)
    fun first second span span' hnames => ?_
  · dsimp only
    split
    · exact agrees_pure _
    · exact agrees_fail _ _ _
  · simp only [nameOf?, hnames]
    exact agrees_pure _

theorem agrees_expectCount : expectCount.Agrees expectCount := by
  refine agrees_next_other (fun t span span' => ?_) fun text span => ⟨_, rfl⟩
  dsimp only
  split
  · split
    · exact agrees_pure _
    · exact agrees_fail _ _ _
  · exact agrees_fail _ _ _

/-! ## Lists -/

theorem agrees_moreItems {p : Parser α} (h : p.Agrees p) {separator : Token}
    (hseparator : ∀ text, separator ≠ .name text) (fuel : Nat) :
    (moreItems separator p fuel).Agrees (moreItems separator p fuel) := by
  induction fuel with
  | zero => exact agrees_pure []
  | succ fuel ih =>
    refine (agrees_eat hseparator).bind fun found => agrees_ite ?_ (agrees_pure [])
    exact h.bind fun first => ih.bind fun rest => agrees_pure _

theorem Agrees.separated {p : Parser α} (h : p.Agrees p) {separator : Token}
    (hseparator : ∀ text, separator ≠ .name text) :
    (separated separator p).Agrees (separated separator p) := by
  refine h.bind fun first => agrees_get fun c c' halike => ?_
  rw [halike.length]
  exact (agrees_moreItems h hseparator _).bind fun rest => agrees_pure _

theorem Agrees.commaSeparated {p : Parser α} (h : p.Agrees p) :
    (commaSeparated p).Agrees (commaSeparated p) := h.separated (by simp)

/-! ## Names -/

theorem agrees_tableTail (fuel : Nat) (name : String) :
    (tableTail fuel name).Agrees (tableTail fuel name) := by
  induction fuel generalizing name with
  | zero => exact agrees_pure name
  | succ fuel ih =>
    refine (agrees_eatSymbol _).bind fun found => agrees_ite ?_ (agrees_pure name)
    exact (agrees_expectName).bind ih

theorem agrees_tableName : tableName.Agrees tableName := by
  refine (agrees_expectName).bind fun name => agrees_get fun c c' halike => ?_
  rw [halike.length]
  exact agrees_tableTail _ name

theorem agrees_columnTail (fuel : Nat) (name : String) :
    (columnTail fuel name).Agrees (columnTail fuel name) := by
  induction fuel generalizing name with
  | zero => exact agrees_pure name
  | succ fuel ih =>
    refine (agrees_eatSymbol _).bind fun found => agrees_ite ?_ (agrees_pure name)
    refine (agrees_eatSymbol _).bind fun star => agrees_ite (agrees_pure _) ?_
    exact (agrees_expectName).bind ih

theorem agrees_columnName : columnName.Agrees columnName := by
  refine (agrees_eatSymbol _).bind fun star => agrees_ite (agrees_pure _) ?_
  refine (agrees_expectName).bind fun name => agrees_get fun c c' halike => ?_
  rw [halike.length]
  exact agrees_columnTail _ name

theorem agrees_columnList : columnList.Agrees columnList :=
  (agrees_columnName).commaSeparated

/-! ## Values -/

/-- The next placeholder takes the same position. -/
theorem agrees_placeholder :
    (do
      let cursor ← get
      set { cursor with placeholders := cursor.placeholders + 1 }
      return .param cursor.placeholders : Parser Operand).Agrees (do
      let cursor ← get
      set { cursor with placeholders := cursor.placeholders + 1 }
      return .param cursor.placeholders) := by
  intro c c' o d halike hrun
  obtain ⟨rfl, rfl⟩ := Prod.mk.inj (Except.ok.inj hrun)
  refine ⟨{ c' with placeholders := c'.placeholders + 1 }, ?_, halike.ahead, ?_⟩
  · rw [halike.placeholders]
    rfl
  · exact congrArg (· + 1) halike.placeholders

theorem agrees_operand : operand.Agrees operand := by
  refine agrees_next_other (fun t span span' => ?_) fun text span => ⟨_, rfl⟩
  cases t with
  | symbol s =>
    cases s <;> first | exact agrees_placeholder | exact agrees_fail _ _ _
  | keyword k => cases k <;> first | exact agrees_pure _ | exact agrees_fail _ _ _
  | int n => exact agrees_pure _
  | float x => exact agrees_pure _
  | string text => exact agrees_pure _
  | name text => exact agrees_fail _ _ _
  | quotedName text => exact agrees_fail _ _ _

theorem agrees_operandList : operandList.Agrees operandList :=
  (agrees_operand).commaSeparated

/-! ## Filters -/

theorem agrees_comparison : comparison.Agrees comparison := by
  refine agrees_next_other (fun t span span' => ?_) fun text span => ⟨_, rfl⟩
  dsimp only
  split
  · exact agrees_pure _
  · exact agrees_fail _ _ _

theorem agrees_memberList (column : String) (negated : Bool) :
    (memberList column negated).Agrees (memberList column negated) := by
  refine (agrees_expectSymbol _).bind
    fun _ => (agrees_check (by simp)).bind fun closed => ?_
  rw [← ite_bind]
  refine (agrees_ite (agrees_pure []) agrees_operandList).bind fun operands => ?_
  exact (agrees_expectSymbol _).bind fun _ => agrees_pure _

theorem agrees_tokenFilter : tokenFilter.Agrees tokenFilter := by
  refine (agrees_expectSymbol _).bind
    fun _ => (agrees_columnList).bind fun columns => ?_
  refine (agrees_expectSymbol _).bind
    fun _ => (agrees_comparison).bind fun operator => ?_
  refine (agrees_expectKeyword _).bind
    fun _ => (agrees_expectSymbol _).bind fun _ => ?_
  refine (agrees_operandList).bind fun operands => ?_
  exact (agrees_expectSymbol _).bind fun _ => agrees_pure _

theorem agrees_columnFilter : columnFilter.Agrees columnFilter := by
  have hcompare (column : String) (operator : Operator) :
      (do return .compare column operator (← operand) : Parser Filter).Agrees
        (do return .compare column operator (← operand)) :=
    (agrees_operand).bind fun o => agrees_pure _
  refine (agrees_columnName).bind fun column => ?_
  refine agrees_next_other (fun t span span' => ?_) fun text span => ⟨_, rfl⟩
  dsimp only
  split
  · exact hcompare column .like
  · exact (agrees_eatKeyword _).bind fun key => hcompare column _
  · exact agrees_memberList column false
  · exact (agrees_expectKeyword _).bind fun _ => agrees_memberList column true
  · refine (agrees_eatKeyword _).bind fun negated => ?_
    exact (agrees_expectKeyword _).bind fun _ => agrees_pure _
  · split
    · exact hcompare column _
    · exact agrees_fail _ _ _

theorem agrees_term {inner : Parser Filter} (h : inner.Agrees inner) :
    (term inner).Agrees (term inner) := by
  refine (agrees_eatSymbol _).bind fun bracket => agrees_ite ?_ ?_
  · exact h.bind fun f => (agrees_expectSymbol _).bind fun _ => agrees_pure f
  · refine (agrees_eatKeyword _).bind fun word => ?_
    exact agrees_ite agrees_tokenFilter agrees_columnFilter

theorem agrees_filterWithin (fuel : Nat) :
    (filterWithin fuel).Agrees (filterWithin fuel) := by
  induction fuel with
  | zero => exact agrees_get fun c c' _ => agrees_fail _ _ _
  | succ fuel ih =>
    have hblock : (conjunctionWithin fuel).Agrees (conjunctionWithin fuel) :=
      ((agrees_term ih).separated (by simp)).bind fun terms => agrees_pure _
    rw [filterWithin_succ]
    exact (hblock.separated (by simp)).bind fun alternatives => agrees_pure _

theorem agrees_filter : filter.Agrees filter := by
  refine agrees_get fun c c' halike => ?_
  rw [halike.length]
  exact agrees_filterWithin _

theorem agrees_filterAfter (k : Keyword) :
    (filterAfter k).Agrees (filterAfter k) := by
  refine (agrees_eatKeyword _).bind fun found => agrees_ite ?_ (agrees_pure none)
  exact (agrees_filter).bind fun f => agrees_pure _

/-! ## Statements -/

theorem agrees_countAfter (k : Keyword) : (countAfter k).Agrees (countAfter k) := by
  refine (agrees_eatKeyword _).bind fun found => agrees_ite ?_ (agrees_pure none)
  exact (agrees_expectCount).bind fun n => agrees_pure _

theorem agrees_ttl : ttl.Agrees ttl := by
  refine (agrees_eatKeyword _).bind fun found => agrees_ite ?_ (agrees_pure none)
  exact (agrees_expectKeyword _).bind
    fun _ => (agrees_expectCount).bind fun n => agrees_pure _

theorem agrees_projectedColumn : projectedColumn.Agrees projectedColumn := by
  refine (agrees_columnName).bind fun name => ?_
  split
  · exact agrees_pure none
  · refine (agrees_eatKeyword _).bind fun found => ?_
    rw [← ite_bind]
    refine Agrees.bind (agrees_ite ?_ (agrees_pure none)) fun label => agrees_pure _
    rw [map_eq_pure_bind]
    exact (agrees_expectName).bind fun label => agrees_pure _

theorem agrees_projection : projection.Agrees projection := by
  refine (agrees_eatSymbol _).bind fun star => agrees_ite (agrees_pure _) ?_
  refine (agrees_atCount).bind fun count => agrees_ite ?_ ?_
  · refine (agrees_expectKeyword _).bind
      fun _ => (agrees_expectSymbol _).bind fun _ => ?_
    refine (agrees_expectSymbol _).bind
      fun _ => (agrees_expectSymbol _).bind fun _ => ?_
    exact agrees_pure _
  · refine (agrees_projectedColumn).commaSeparated.bind fun columns => ?_
    exact agrees_ite (agrees_pure _) (agrees_pure _)

theorem agrees_orderItem : orderItem.Agrees orderItem := by
  refine (agrees_columnName).bind fun column => ?_
  refine (agrees_eatKeyword _).bind fun down => agrees_ite (agrees_pure _) ?_
  rw [discard_eq, bind_assoc]
  exact (agrees_eatKeyword _).bind fun _ => agrees_pure _

theorem agrees_groupColumns : groupColumns.Agrees groupColumns := by
  refine (agrees_eatKeyword _).bind fun found => agrees_ite ?_ (agrees_pure [])
  exact (agrees_expectKeyword _).bind fun _ => agrees_columnList

theorem agrees_orderItems : orderItems.Agrees orderItems := by
  refine (agrees_eatKeyword _).bind fun found => agrees_ite ?_ (agrees_pure [])
  exact (agrees_expectKeyword _).bind fun _ => (agrees_orderItem).commaSeparated

theorem agrees_filteringAllowed : filteringAllowed.Agrees filteringAllowed := by
  refine (agrees_eatKeyword _).bind fun found => agrees_ite ?_ (agrees_pure false)
  exact (agrees_expectKeyword _).bind fun _ => agrees_pure true

theorem agrees_select : select.Agrees select := by
  rw [select_eq]
  refine (agrees_projection).bind
    fun projection => (agrees_expectKeyword _).bind fun _ => ?_
  refine (agrees_tableName).bind
    fun table => (agrees_filterAfter _).bind fun filter => ?_
  refine (agrees_groupColumns).bind
    fun groupBy => (agrees_orderItems).bind fun orderBy => ?_
  refine (agrees_countAfter _).bind
    fun limit => (agrees_countAfter _).bind fun offset => ?_
  exact (agrees_filteringAllowed).bind fun allow => agrees_pure _

theorem agrees_ifAbsent : ifAbsent.Agrees ifAbsent := by
  refine (agrees_eatKeyword _).bind fun found => agrees_ite ?_ ?_
  · refine (agrees_expectKeyword _).bind fun _ => ?_
    exact (agrees_expectKeyword _).bind fun _ => agrees_pure true
  · refine (agrees_eatKeyword _).bind fun found => agrees_ite ?_ (agrees_pure false)
    refine (agrees_expectKeyword _).bind
      fun _ => (agrees_expectKeyword _).bind fun _ => ?_
    exact (agrees_expectKeyword _).bind fun _ => agrees_pure true

theorem agrees_insert : insert.Agrees insert := by
  refine (agrees_expectKeyword _).bind
    fun _ => (agrees_tableName).bind fun table => ?_
  refine (agrees_expectSymbol _).bind
    fun _ => (agrees_columnList).bind fun columns => ?_
  refine (agrees_expectSymbol _).bind
    fun _ => (agrees_expectKeyword _).bind fun _ => ?_
  refine (agrees_expectSymbol _).bind
    fun _ => (agrees_operandList).bind fun values => ?_
  refine agrees_expect (by simp) fun span span' => ?_
  split
  · rw [fail_bind]
    exact agrees_fail _ _ _
  · refine (agrees_ifAbsent).bind fun ifNotExists => ?_
    exact (agrees_ttl).bind fun ttl => agrees_pure _

theorem agrees_assignment : assignment.Agrees assignment := by
  refine (agrees_columnName).bind
    fun column => (agrees_expectSymbol _).bind fun _ => ?_
  exact (agrees_operand).bind fun o => agrees_pure _

theorem agrees_update : update.Agrees update := by
  refine (agrees_tableName).bind fun table => (agrees_ttl).bind fun ttl => ?_
  refine (agrees_expectKeyword _).bind fun _ => ?_
  refine (agrees_assignment).commaSeparated.bind fun assignments => ?_
  refine (agrees_filterAfter _).bind fun filter => ?_
  exact (agrees_filterAfter _).bind fun conditions => agrees_pure _

theorem agrees_deletedColumns : deletedColumns.Agrees deletedColumns :=
  (agrees_check (by simp)).bind
    fun _ => agrees_ite (agrees_pure []) agrees_columnList

theorem agrees_delete : delete.Agrees delete := by
  rw [delete_eq]
  refine (agrees_deletedColumns).bind
    fun columns => (agrees_expectKeyword _).bind fun _ => ?_
  refine (agrees_tableName).bind
    fun table => (agrees_filterAfter _).bind fun filter => ?_
  exact (agrees_filterAfter _).bind fun conditions => agrees_pure _

theorem agrees_statement : statement.Agrees statement := by
  refine agrees_next_other (fun t span span' => ?_) fun text span => ⟨_, rfl⟩
  dsimp only
  split
  · exact (agrees_select).bind fun s => agrees_pure _
  · exact (agrees_insert).bind fun s => agrees_pure _
  · exact (agrees_update).bind fun s => agrees_pure _
  · exact (agrees_delete).bind fun s => agrees_pure _
  · exact agrees_fail _ _ _

theorem agrees_finish : finish.Agrees finish := by
  rw [finish, discard_eq, bind_assoc]
  refine (agrees_eatSymbol _).bind fun _ => ?_
  rw [pure_bind]
  refine agrees_get fun c c' halike => ?_
  rcases halike.cases with ⟨hc, hc'⟩ | ⟨first, first', rest, rest', hc, -⟩
  · rw [hc, hc']
    exact agrees_pure ()
  · rw [hc]
    exact agrees_fail _ _ _

theorem agrees_command : command.Agrees command := by
  refine (agrees_statement).bind fun s => (agrees_finish).bind fun _ => ?_
  refine agrees_get fun c c' halike => ?_
  rw [halike.placeholders]
  exact agrees_pure _

end Parser

namespace ParsedCommand

/-- A command that is accepted is accepted in every other spelling, as the same
command. -/
theorem parse_respelled {source other : String} {command : ParsedCommand}
    (h : parse source = .ok command)
    (hother : Token.Respelled false source.toList other.toList) :
    parse other = .ok command := by
  obtain ⟨tokens, d, hread, hrun⟩ := exists_of_parse h
  obtain ⟨others, hothers, hfolded⟩ := Token.read_respelled hread hother
  have halike : Cursor.Alike ⟨tokens, 0, source.utf8ByteSize⟩
      ⟨others, 0, other.utf8ByteSize⟩ :=
    ⟨hfolded.symm, rfl⟩
  obtain ⟨d', hrun', -⟩ := Parser.agrees_command _ _ command d halike hrun
  simp only [parse, hothers, hrun', bind, Except.bind, pure, Except.pure]

end ParsedCommand

/-- A deletion whose tokens touch. -/
def crampedDelete : String := "DELETE FROM t WHERE \"B\">='It''s'"

/-- The same deletion with space around its tokens, in another letter case. -/
def spacedDelete : String := "delete\tFrom T\r\nwheRE \"B\" >= 'It''s' "

theorem parse_crampedDelete : ParsedCommand.parse crampedDelete = .ok ⟨.delete
    ⟨"t", [], some (.compare "B" .ge (.literal (.text "It's"))), none⟩, 0⟩ := by
  have htable : Parser.Path [.name "t"] "t" := .last (by cbv)
  have hnone : ∀ c ∈ ([] : List String), Parser.Path [] c := by simp
  have hb : Parser.Path [.quotedName "B"] "B" := .last rfl
  have htext : Parser.OperandAt (.string "It's") 0 (.literal (.text "It's")) 0 :=
    Parser.operandAt_literal rfl 0
  have hfilter : Parser.Terms 0 _ 0 _ 0 :=
    .one fun _ _ => Parser.reads_term_column hb.column
      (Parser.reads_compare hb.column .ge htext)
  exact ParsedCommand.parse_eq_ok
    (Token.lexes_of_read (rfl : Token.read crampedDelete = .ok _))
    (Parser.takes_statement_delete (Parser.takes_delete htable hnone
      (Parser.clause_filter (k := .where) (Parser.reads_filter hfilter.blocks
          (Nat.zero_le _))) (Parser.clause_noFilter .if 0)))

theorem crampedDelete_respelled :
    Token.Respelled false crampedDelete.toList spacedDelete.toList := by
  have hnone : ∀ c ∈ ([] : List Char), Token.isBlank c = true := by simp
  have hspace : ∀ c ∈ [' '], Token.isBlank c = true := by simp [Token.isBlank]
  have htab : ∀ c ∈ ['\t'], Token.isBlank c = true := by simp [Token.isBlank]
  have hline : ∀ c ∈ ['\r', '\n'], Token.isBlank c = true := by simp [Token.isBlank]
  simp only [crampedDelete, spacedDelete, String.reduceToList]
  refine @Token.Respelled.token _ _
    _ ['D', 'E', 'L', 'E', 'T', 'E'] ['d', 'e', 'l', 'e', 't', 'e'] _ _
    (.keyword .delete) hnone hnone (by simp) rfl rfl ?_
  refine @Token.Respelled.token _ _ _ ['F', 'R', 'O', 'M'] ['F', 'r', 'o', 'm'] _ _
    (.keyword .from) hspace htab (by simp) rfl rfl ?_
  refine @Token.Respelled.token _ _ _ ['t'] ['T'] _ _ (.name "t") hspace hspace
    (by simp) rfl rfl ?_
  refine @Token.Respelled.token _ _
    _ ['W', 'H', 'E', 'R', 'E'] ['w', 'h', 'e', 'R', 'E'] _ _
    (.keyword .where) hspace hline (by simp) rfl rfl ?_
  refine @Token.Respelled.token _ _ _ ['"', 'B', '"'] _ _ _ (.quotedName "B")
    hspace hspace (by simp) rfl rfl ?_
  refine @Token.Respelled.token _ _ _ ['>', '='] ['>', '='] _ _ (.symbol .ge)
    hnone hspace (by simp) rfl rfl ?_
  refine @Token.Respelled.token _ _ _ ['\'', 'I', 't', '\'', '\'', 's', '\''] _ _ _
    (.string "It's") hnone hspace (by simp) rfl rfl ?_
  exact .blanks hnone hspace

/-- The space and the letter case do not count, the quoted texts do. -/
theorem ParsedCommand.parse_respelled_crampedDelete :
    ParsedCommand.parse spacedDelete = .ok ⟨.delete
      ⟨"t", [], some (.compare "B" .ge (.literal (.text "It's"))), none⟩, 0⟩ :=
  ParsedCommand.parse_respelled parse_crampedDelete crampedDelete_respelled

end EntityMapper
