import EntityMapper.Proofs.Statement.Filters
import EntityMapper.Proofs.Statement.Lexing

/-!
# What an accepted filter text consists of

A text without placeholders that the filter parser accepts is a chain of terms,
whatever its author meant by it, and it is read as the same chain when it stands
among other predicates. This is the converse of what the filter parser reads:
from a run that succeeds follow the tokens that it took and how they are read
again. Fuel only ever cuts a run short, so a run that succeeds tells nothing
about it.
-/

namespace EntityMapper

/-- The tokens ahead of a parser. -/
def Cursor.ahead (c : Cursor) : List Token := c.tokens.map SpannedToken.token

/-- A filter that refers to no parameter. -/
inductive Filter.Unbound : Filter → Prop
  | all {terms : List Filter} (h : ∀ f ∈ terms, Unbound f) : Unbound (.all terms)
  | any {terms : List Filter} (h : ∀ f ∈ terms, Unbound f) : Unbound (.any terms)
  | compare (column : String) (operator : Operator) (value : Value) :
      Unbound (.compare column operator (.literal value))
  | member (column : String) (negated : Bool) (values : List Value) :
      Unbound (.member column negated (values.map .literal))
  | isNull (column : String) (negated : Bool) : Unbound (.isNull column negated)
  | token (columns : List String) (operator : Operator) (values : List Value) :
      Unbound (.token columns operator (values.map .literal))

namespace Parser

variable {α β : Type} {absent : List Token}

/-- Wherever none of the given tokens is ahead, the parser takes tokens and
gives a result as `Q` says, or it fails. -/
def Inverts (absent : List Token) (p : Parser α) (Q : List Token → α → Prop) :
    Prop :=
  ∀ c a d, (∀ t ∈ absent, t ∉ c.ahead) → p.run c = .ok (a, d) →
    ∃ used, c.ahead = used ++ d.ahead ∧ Q used a

/-! ## Steps -/

theorem Inverts.imp {p : Parser α} {Q R : List Token → α → Prop}
    (h : Inverts absent p Q) (himp : ∀ used a, Q used a → R used a) :
    Inverts absent p R := by
  intro c a d hfree hrun
  obtain ⟨used, hused, hQ⟩ := h c a d hfree hrun
  exact ⟨used, hused, himp used a hQ⟩

theorem Inverts.bind {p : Parser α} {f : α → Parser β} {Q : List Token → α → Prop}
    {R : List Token → β → Prop} (hp : Inverts absent p Q)
    (hf : ∀ used a,
      Q used a → Inverts absent (f a) fun more b => R (used ++ more) b) :
    Inverts absent (p >>= f) R := by
  intro c b e hfree hrun
  obtain ⟨a, d, hfirst, hsecond⟩ := exists_of_run_bind hrun
  obtain ⟨used, hused, hQ⟩ := hp c a d hfree hfirst
  have hrest : ∀ t ∈ absent, t ∉ d.ahead := by
    intro t ht hmem
    rw [hused] at hfree
    exact hfree t ht (List.mem_append_right used hmem)
  obtain ⟨more, hmore, hR⟩ := hf used a hQ d b e hrest hsecond
  exact ⟨used ++ more, by rw [hused, hmore, List.append_assoc], hR⟩

theorem inverts_pure {a : α} {Q : List Token → α → Prop} (h : Q [] a) :
    Inverts absent (pure a : Parser α) Q := by
  intro c b d _ hrun
  obtain ⟨rfl, rfl⟩ := Prod.mk.inj (Except.ok.inj hrun)
  exact ⟨[], rfl, h⟩

theorem inverts_fail (fault : SyntaxFault) (span : Span)
    (Q : List Token → α → Prop) :
    Inverts absent (fail fault span : Parser α) Q := by
  intro c a d _ hrun
  simp [StateT.run, fail, throw, throwThe, MonadExceptOf.throw, StateT.lift,
    Bind.bind, Except.bind] at hrun

theorem inverts_get {f : Cursor → Parser β} {Q : List Token → β → Prop}
    (h : ∀ c, Inverts absent (f c) Q) : Inverts absent (get >>= f) Q := by
  intro c b d hfree hrun
  exact h c c b d hfree hrun

theorem inverts_ite {b : Bool} {p q : Parser α} {Q : List Token → α → Prop}
    (hp : b = true → Inverts absent p Q) (hq : b = false → Inverts absent q Q) :
    Inverts absent (if b = true then p else q) Q := by
  cases b with
  | true => exact hp rfl
  | false => exact hq rfl

theorem inverts_next : Inverts absent nextToken
    fun used next => used = [next.token] ∧ next.token ∉ absent := by
  intro c a d hfree hrun
  rcases htokens : c.tokens with _ | ⟨next, rest⟩
  · simp [StateT.run, nextToken, htokens] at hrun
  · simp only [StateT.run, nextToken, htokens] at hrun
    obtain ⟨rfl, rfl⟩ := Prod.mk.inj (Except.ok.inj hrun)
    refine ⟨[next.token], by simp [Cursor.ahead, htokens], rfl, ?_⟩
    intro habsent
    exact hfree next.token habsent (by simp [Cursor.ahead, htokens])

theorem inverts_eat (t : Token) :
    Inverts absent (eat t) fun used found => used = if found then [t] else [] := by
  intro c found d _ hrun
  rcases htokens : c.tokens with _ | ⟨next, rest⟩
  · simp only [StateT.run, eat, htokens] at hrun
    obtain ⟨rfl, rfl⟩ := Prod.mk.inj (Except.ok.inj hrun)
    exact ⟨[], by simp, rfl⟩
  · simp only [StateT.run, eat, htokens] at hrun
    split at hrun
    · next hnext =>
      obtain ⟨rfl, rfl⟩ := Prod.mk.inj (Except.ok.inj hrun)
      exact ⟨[t], by simp [Cursor.ahead, htokens, hnext], rfl⟩
    · obtain ⟨rfl, rfl⟩ := Prod.mk.inj (Except.ok.inj hrun)
      exact ⟨[], by simp, rfl⟩

theorem inverts_check (t : Token) :
    Inverts absent (check t) fun used _ => used = [] := by
  intro c found d _ hrun
  rcases htokens : c.tokens with _ | ⟨next, rest⟩
  all_goals
    simp only [StateT.run, check, htokens] at hrun
    obtain ⟨-, rfl⟩ := Prod.mk.inj (Except.ok.inj hrun)
    exact ⟨[], by simp, rfl⟩

theorem inverts_expect (t : Token) :
    Inverts absent (expect t) fun used _ => used = [t] := by
  apply inverts_next.bind
  rintro used next ⟨rfl, -⟩
  split
  · next hnext => exact inverts_pure (by rw [hnext]; rfl)
  · exact inverts_fail _ _ _

theorem inverts_expectSymbol (s : Symbol) :
    Inverts absent (expectSymbol s) fun used _ => used = [.symbol s] := by
  rw [expectSymbol, discard_eq]
  apply (inverts_expect (.symbol s)).bind
  rintro used _ rfl
  exact inverts_pure rfl

theorem inverts_expectKeyword (k : Keyword) :
    Inverts absent (expectKeyword k) fun used _ => used = [.keyword k] := by
  rw [expectKeyword, discard_eq]
  apply (inverts_expect (.keyword k)).bind
  rintro used _ rfl
  exact inverts_pure rfl

theorem inverts_expectName : Inverts absent expectName
    fun used name => ∃ t, used = [t] ∧ nameOf? t = some name := by
  apply inverts_next.bind
  rintro used next ⟨rfl, -⟩
  split
  · next name hname => exact inverts_pure ⟨next.token, rfl, hname⟩
  · exact inverts_fail _ _ _

/-! ## Lists -/

variable {item : List Token → Nat → β → Nat → Prop} {separator : Token}
  {image : β → α} {Q : β → Prop}

theorem inverts_moreItems {p : Parser α}
    (h : Inverts absent p
      fun used a => ∃ b, a = image b ∧ Q b ∧ ∀ n, item used n b n) (fuel : Nat) :
    Inverts absent (moreItems separator p fuel)
      fun used values => ∃ others, values = others.map image ∧
        (∀ b ∈ others, Q b) ∧ ∀ n, MoreItems item separator used n others n := by
  induction fuel with
  | zero => exact inverts_pure ⟨[], rfl, by simp, fun n => .none⟩
  | succ fuel ih =>
    apply (inverts_eat separator).bind
    rintro used found rfl
    refine inverts_ite ?_ ?_
    · rintro rfl
      apply h.bind
      rintro first _ ⟨b, rfl, hb, hitem⟩
      apply ih.bind
      rintro more _ ⟨others, rfl, hothers, hmore⟩
      refine inverts_pure ⟨b :: others, rfl, ?_, fun n => ?_⟩
      · intro x hx
        rcases List.mem_cons.mp hx with rfl | hx
        · exact hb
        · exact hothers x hx
      · rw [List.append_nil]
        refine .some ?_
        cases hmore n with
        | none =>
          rw [List.append_nil]
          exact .one (hitem n)
        | some hchain => exact .more (hitem n) hchain
    · rintro rfl
      exact inverts_pure ⟨[], rfl, by simp, fun n => .none⟩

/-- A list is a chain of its items. -/
theorem inverts_separated {p : Parser α}
    (h : Inverts absent p
      fun used a => ∃ b, a = image b ∧ Q b ∧ ∀ n, item used n b n) :
    Inverts absent (separated separator p)
      fun used values => ∃ items, values = items.map image ∧
        (∀ b ∈ items, Q b) ∧ ∀ n, Chain item separator used n items n := by
  apply h.bind
  rintro first _ ⟨b, rfl, hb, hitem⟩
  refine inverts_get fun c => (inverts_moreItems h _).bind ?_
  rintro more _ ⟨others, rfl, hothers, hmore⟩
  refine inverts_pure ⟨b :: others, rfl, ?_, fun n => ?_⟩
  · intro x hx
    rcases List.mem_cons.mp hx with rfl | hx
    · exact hb
    · exact hothers x hx
  · rw [List.append_nil]
    cases hmore n with
    | none =>
      rw [List.append_nil]
      exact .one (hitem n)
    | some hchain => exact .more (hitem n) hchain

/-! ## Columns and values -/

theorem inverts_columnTail (fuel : Nat) (first : String) :
    Inverts absent (columnTail fuel first) fun used name =>
      (used = [] ∧ first = name) ∨
          ∃ more, used = .symbol .dot :: more ∧ ColumnPath more name := by
  induction fuel generalizing first with
  | zero => exact inverts_pure (.inl ⟨rfl, rfl⟩)
  | succ fuel ih =>
    apply (inverts_eat _).bind
    rintro used found rfl
    refine inverts_ite ?_ ?_
    · rintro rfl
      apply (inverts_eat _).bind
      rintro used found rfl
      refine inverts_ite ?_ ?_
      · rintro rfl
        exact inverts_pure (.inr ⟨_, rfl, .star⟩)
      · rintro rfl
        apply inverts_expectName.bind
        rintro used name ⟨t, rfl, hname⟩
        refine (ih name).imp ?_
        rintro used last (⟨rfl, rfl⟩ | ⟨more, rfl, hmore⟩)
        · exact .inr ⟨_, rfl, .last hname⟩
        · exact .inr ⟨_, rfl, .qualified hname hmore⟩
    · rintro rfl
      exact inverts_pure (.inl ⟨rfl, rfl⟩)

theorem inverts_columnName : Inverts absent columnName ColumnPath := by
  apply (inverts_eat _).bind
  rintro used found rfl
  refine inverts_ite ?_ ?_
  · rintro rfl
    exact inverts_pure .star
  · rintro rfl
    apply inverts_expectName.bind
    rintro used name ⟨t, rfl, hname⟩
    refine inverts_get fun c => (inverts_columnTail _ name).imp ?_
    rintro used last (⟨rfl, rfl⟩ | ⟨more, rfl, hmore⟩)
    · exact .last hname
    · exact .qualified hname hmore

theorem inverts_tableTail (fuel : Nat) (first : String) :
    Inverts absent (tableTail fuel first) fun used name =>
      (used = [] ∧ first = name) ∨
          ∃ more, used = .symbol .dot :: more ∧ Path more name := by
  induction fuel generalizing first with
  | zero => exact inverts_pure (.inl ⟨rfl, rfl⟩)
  | succ fuel ih =>
    apply (inverts_eat _).bind
    rintro used found rfl
    refine inverts_ite ?_ ?_
    · rintro rfl
      apply inverts_expectName.bind
      rintro used name ⟨t, rfl, hname⟩
      refine (ih name).imp ?_
      rintro used last (⟨rfl, rfl⟩ | ⟨more, rfl, hmore⟩)
      · exact .inr ⟨_, rfl, .last hname⟩
      · exact .inr ⟨_, rfl, .qualified hname hmore⟩
    · rintro rfl
      exact inverts_pure (.inl ⟨rfl, rfl⟩)

theorem inverts_tableName : Inverts absent tableName Path := by
  apply inverts_expectName.bind
  rintro used name ⟨t, rfl, hname⟩
  refine inverts_get fun c => (inverts_tableTail _ name).imp ?_
  rintro used last (⟨rfl, rfl⟩ | ⟨more, rfl, hmore⟩)
  · exact .last hname
  · exact .qualified hname hmore

theorem inverts_columnList :
    Inverts absent columnList fun used names => Columns used names := by
  have hitem : Inverts absent columnName fun used name => ∃ other : String,
      name = id other ∧ True ∧ ∀ n, ColumnItem used n other n :=
    inverts_columnName.imp
      fun used name h => ⟨name, rfl, trivial, fun n => ⟨h, rfl⟩⟩
  refine (inverts_separated hitem).imp ?_
  rintro used _ ⟨names, rfl, -, hchain⟩
  rwa [List.map_id]

theorem inverts_operand : Inverts [.symbol .param] operand fun used o => ∃ value,
    o = .literal value ∧ True ∧ ∀ n, OperandItem used n (.literal value) n := by
  have hliteral {t : Token} {value : Value} (h : literal? t = some value) :
      ∃ other, Operand.literal value = .literal other ∧ True ∧
        ∀ n, OperandItem [t] n (.literal other) n :=
    ⟨value, rfl, trivial, fun n => ⟨t, rfl, operandAt_literal h n⟩⟩
  apply inverts_next.bind
  rintro used ⟨t, span⟩ ⟨rfl, hparam⟩
  cases t with
  | int n => exact inverts_pure (hliteral rfl)
  | float x => exact inverts_pure (hliteral rfl)
  | string text => exact inverts_pure (hliteral rfl)
  | keyword k =>
    cases k with
    | trueLiteral | falseLiteral | null => exact inverts_pure (hliteral rfl)
    | _ => exact inverts_fail _ _ _
  | symbol s =>
    cases s with
    | param => exact absurd (List.mem_singleton_self _) hparam
    | _ => exact inverts_fail _ _ _
  | name _ => exact inverts_fail _ _ _
  | quotedName _ => exact inverts_fail _ _ _

theorem inverts_operandList :
    Inverts [.symbol .param] operandList fun used operands => ∃ values : List Value,
      operands = values.map .literal ∧ ∀ n, Operands used n operands n := by
  have hitem : Inverts [.symbol .param] operand fun used o =>
      ∃ other : Operand, o = id other ∧ (∃ value, other = .literal value) ∧
        ∀ n, OperandItem used n other n := by
    refine inverts_operand.imp ?_
    rintro used _ ⟨value, rfl, -, h⟩
    exact ⟨_, rfl, ⟨value, rfl⟩, h⟩
  refine (inverts_separated hitem).imp ?_
  rintro used _ ⟨operands, rfl, hliteral, hchain⟩
  rw [List.map_id]
  refine ⟨?_, ?_, hchain⟩
  · exact operands.filterMap fun o => match o with
      | .literal value => some value
      | .param _ => none
  · clear hchain
    induction operands with
    | nil => rfl
    | cons o rest ih =>
      obtain ⟨value, rfl⟩ := hliteral o (List.mem_cons_self ..)
      rw [List.filterMap_cons]
      exact congrArg _ (ih fun b hb => hliteral b (List.mem_cons_of_mem _ hb))

/-! ## Terms -/

theorem tokens_of_comparison {t : Token} {operator : Operator}
    (h : comparison? t = some operator) : operator.tokens = [t] := by
  unfold comparison? at h
  split at h <;> simp_all <;> subst h <;> rfl

theorem inverts_comparison : Inverts [.symbol .param] comparison
    fun used operator => ∃ t, used = [t] ∧ comparison? t = some operator := by
  apply inverts_next.bind
  rintro used next ⟨rfl, -⟩
  split
  · next operator hoperator => exact inverts_pure ⟨next.token, rfl, hoperator⟩
  · exact inverts_fail _ _ _

theorem inverts_memberList (name : String) (negated : Bool) :
    Inverts [.symbol .param] (memberList name negated) fun used f => f.Unbound ∧
      ∃ tokens operands,
        used = .symbol .leftParen :: (tokens ++ [.symbol .rightParen]) ∧
          f = .member name negated operands ∧ ∀ n, Members tokens n operands n := by
  apply (inverts_expectSymbol _).bind
  rintro used _ rfl
  apply (inverts_check _).bind
  rintro used found rfl
  refine inverts_ite ?_ ?_
  · rintro rfl
    rw [pure_bind]
    apply (inverts_expectSymbol _).bind
    rintro used _ rfl
    exact inverts_pure ⟨.member name negated [], [], [], rfl, rfl,
      fun n => .inl ⟨rfl, rfl, rfl⟩⟩
  · rintro rfl
    apply inverts_operandList.bind
    rintro tokens _ ⟨values, rfl, hvalues⟩
    apply (inverts_expectSymbol _).bind
    rintro used _ rfl
    exact inverts_pure ⟨.member name negated values, tokens, _, by simp, rfl,
      fun n => .inr (hvalues n)⟩

/-- How the condition on a column is read again. -/
def ReadAgain (p : Parser Filter) (used : List Token) (f : Filter) : Prop :=
  f.Unbound ∧ ∀ n, p.Reads [] used n f n

theorem inverts_columnFilter : Inverts [.symbol .param] columnFilter
    fun used f => ∃ column name more, used = column ++ more ∧
      ColumnPath column name ∧ ReadAgain columnFilter used f := by
  apply inverts_columnName.bind
  intro column name hcolumn
  have hcompare {used : List Token} {o : Operand} (operator : Operator)
      (ho : ∃ value, o = .literal value ∧ True ∧
        ∀ n, OperandItem used n (.literal value) n) : ReadAgain columnFilter
          (column ++ (operator.tokens ++ used)) (.compare name operator o) := by
    obtain ⟨value, rfl, -, hvalue⟩ := ho
    refine ⟨.compare name operator value, fun n => ?_⟩
    obtain ⟨t, rfl, ht⟩ := hvalue n
    exact reads_compare hcolumn operator ht
  apply inverts_next.bind
  rintro used ⟨t, span⟩ ⟨rfl, -⟩
  dsimp only
  split
  · refine inverts_operand.bind fun used o ho => inverts_pure ?_
    exact ⟨column, name, _, rfl, hcolumn,
      by simpa [Operator.tokens] using hcompare .like ho⟩
  · apply (inverts_eat _).bind
    rintro _ found rfl
    refine inverts_operand.bind fun used o ho => inverts_pure ?_
    cases found with
    | true => exact ⟨column, name, _, rfl, hcolumn, by
      simpa [Operator.tokens] using hcompare .containsKey ho⟩
    | false => exact ⟨column, name, _, rfl, hcolumn, by
      simpa [Operator.tokens] using hcompare .contains ho⟩
  · refine (inverts_memberList name false).imp ?_
    rintro _ _ ⟨hunbound, tokens, operands, rfl, rfl, hmembers⟩
    exact ⟨column, name, _, rfl, hcolumn, hunbound,
      fun n => reads_member hcolumn (hmembers n)⟩
  · apply (inverts_expectKeyword _).bind
    rintro _ _ rfl
    refine (inverts_memberList name true).imp ?_
    rintro _ _ ⟨hunbound, tokens, operands, rfl, rfl, hmembers⟩
    exact ⟨column, name, _, rfl, hcolumn, hunbound,
      fun n => reads_notMember hcolumn (hmembers n)⟩
  · apply (inverts_eat _).bind
    rintro _ negated rfl
    apply (inverts_expectKeyword _).bind
    rintro _ _ rfl
    refine inverts_pure
      ⟨column, name, _, rfl, hcolumn, .isNull name negated, fun n => ?_⟩
    cases negated with
    | true => exact reads_notNull hcolumn n
    | false => exact reads_isNull hcolumn n
  · split
    · next operator hoperator =>
      refine inverts_operand.bind fun used o ho => inverts_pure ?_
      have hread := hcompare operator ho
      rw [tokens_of_comparison hoperator] at hread
      exact ⟨column, name, _, rfl, hcolumn, by simpa using hread⟩
    · exact inverts_fail _ _ _

theorem inverts_tokenFilter (inner : Parser Filter) :
    Inverts [.symbol .param] tokenFilter
      fun used f => ReadAgain (term inner) (.keyword .token :: used) f := by
  apply (inverts_expectSymbol _).bind
  rintro _ _ rfl
  refine inverts_columnList.bind fun columnTokens names hcolumns => ?_
  apply (inverts_expectSymbol _).bind
  rintro _ _ rfl
  apply inverts_comparison.bind
  rintro _ operator ⟨t, rfl, ht⟩
  apply (inverts_expectKeyword _).bind
  rintro _ _ rfl
  apply (inverts_expectSymbol _).bind
  rintro _ _ rfl
  apply inverts_operandList.bind
  rintro valueTokens _ ⟨values, rfl, hvalues⟩
  apply (inverts_expectSymbol _).bind
  rintro _ _ rfl
  refine inverts_pure ⟨.token names operator values, fun n => ?_⟩
  simpa using reads_token hcolumns ht (hvalues n) inner

/-! ## Filters -/

/-- Blocks of terms without parameters, read alike wherever they stand. -/
def BlocksAgain (k : Nat) (used : List Token) (blocks : List (List Filter)) :
    Prop :=
  (∀ block ∈ blocks, ∀ f ∈ block, f.Unbound) ∧ ∀ n, Blocks k used n blocks n

theorem unbound_conjunction {terms : List Filter} (h : ∀ f ∈ terms, f.Unbound) :
    (conjunction terms).Unbound := by
  unfold conjunction
  split
  · exact h _ (List.mem_singleton_self _)
  · exact .all h

theorem unbound_filterOf {blocks : List (List Filter)}
    (h : ∀ block ∈ blocks, ∀ f ∈ block, f.Unbound) : (filterOf blocks).Unbound := by
  have hterms : ∀ f ∈ blocks.map conjunction, f.Unbound := by
    intro f hf
    obtain ⟨block, hblock, rfl⟩ := List.mem_map.mp hf
    exact unbound_conjunction (h block hblock)
  unfold filterOf disjunction
  split
  · next heq => exact hterms _ (by rw [heq]; exact List.mem_singleton_self _)
  · exact .any hterms

theorem inverts_term {k : Nat}
    (h : Inverts [.symbol .param] (filterWithin k) fun used f =>
      ∃ j blocks, k = j + 1 ∧ f = filterOf blocks ∧ BlocksAgain j used blocks) :
    Inverts [.symbol .param] (term (filterWithin k)) fun used f =>
      ∃ other, f = id other ∧ other.Unbound ∧ ∀ n, TermAt k used n other n := by
  apply (inverts_eat _).bind
  rintro _ found rfl
  refine inverts_ite ?_ ?_
  · rintro rfl
    apply h.bind
    rintro used _ ⟨j, blocks, rfl, rfl, hunbound, hblocks⟩
    apply (inverts_expectSymbol _).bind
    rintro _ _ rfl
    refine inverts_pure
      ⟨filterOf blocks, rfl, unbound_filterOf hunbound, fun n => ?_⟩
    rw [List.append_nil]
    exact termAt_bracket (hblocks n)
  · rintro rfl
    apply (inverts_eat _).bind
    rintro _ found rfl
    refine inverts_ite ?_ ?_
    · rintro rfl
      intro c f d hfree hrun
      have hread (inner : Parser Filter) :=
        inverts_tokenFilter inner c f d hfree hrun
      obtain ⟨used, hused, hunbound, -⟩ := hread (filterWithin k)
      refine ⟨used, hused, f, rfl, hunbound, fun n fuel _ => ?_⟩
      -- Which tokens were taken does not depend on the parser of brackets,
      -- which was not run.
      obtain ⟨other, hother, -, hreads⟩ := hread (filterWithin fuel)
      obtain rfl := List.append_cancel_right (hused.symm.trans hother)
      exact hreads n
    · rintro rfl
      refine inverts_columnFilter.imp ?_
      rintro _ f ⟨column, name, more, rfl, hcolumn, hunbound, hreads⟩
      refine ⟨f, rfl, hunbound, fun n fuel _ => ?_⟩
      simp only [Bool.false_eq_true, if_false, List.nil_append]
      exact reads_term_column hcolumn (hreads n)

theorem inverts_alternativesWithin {k : Nat}
    (h : Inverts [.symbol .param] (filterWithin k) fun used f =>
      ∃ j blocks, k = j + 1 ∧ f = filterOf blocks ∧ BlocksAgain j used blocks) :
    Inverts [.symbol .param] (alternativesWithin k)
      fun used alternatives => ∃ blocks, alternatives = blocks.map conjunction ∧
        BlocksAgain k used blocks := by
  have hblock : Inverts [.symbol .param] (conjunctionWithin k) fun used f =>
      ∃ terms, f = conjunction terms ∧ (∀ f ∈ terms, f.Unbound) ∧
        ∀ n, Terms k used n terms n := by
    apply (inverts_separated (inverts_term h)).bind
    rintro used _ ⟨terms, rfl, hunbound, hchain⟩
    rw [List.map_id]
    refine inverts_pure ⟨terms, rfl, hunbound, fun n => ?_⟩
    rw [List.append_nil]
    exact hchain n
  exact inverts_separated hblock

/-- An accepted filter is a list of blocks, of which the brackets are nested
within the fuel. -/
theorem inverts_filterWithin (k : Nat) :
    Inverts [.symbol .param] (filterWithin k) fun used f => ∃ j blocks,
      k = j + 1 ∧ f = filterOf blocks ∧ BlocksAgain j used blocks := by
  induction k with
  | zero => exact inverts_get fun c => inverts_fail _ _ _
  | succ k ih =>
    rw [filterWithin_succ]
    apply (inverts_alternativesWithin ih).bind
    rintro used _ ⟨blocks, rfl, hblocks⟩
    refine inverts_pure ⟨k, blocks, rfl, rfl, ?_⟩
    rwa [List.append_nil]

/-! ## Whole texts -/

/-- What a parser makes of a text, if it reads the text to its end. -/
def whole? (p : Parser α) (text : String) : Option α :=
  match Token.read text with
  | .error _ => none
  | .ok tokens =>
    match p.run ⟨tokens, 0, text.utf8ByteSize⟩ with
    | .error _ => none
    | .ok (a, c) => if c.tokens.isEmpty then some a else none

theorem whole_eq_some_iff {p : Parser α} {text : String} {a : α} :
    whole? p text = some a ↔ ∃ tokens c, Token.read text = .ok tokens ∧
      p.run ⟨tokens, 0, text.utf8ByteSize⟩ = .ok (a, c) ∧ c.tokens = [] := by
  constructor
  · intro h
    unfold whole? at h
    split at h
    · simp at h
    · next tokens hread =>
      split at h
      · simp at h
      · next b c hrun =>
        by_cases hend : c.tokens = []
        · obtain rfl : b = a := by simpa [hend] using h
          exact ⟨tokens, c, hread, hrun, hend⟩
        · simp [hend] at h
  · rintro ⟨tokens, c, hread, hrun, hend⟩
    simp [whole?, hread, hrun, hend]

theorem whole_of_takes {p : Parser α} {text : String} {tokens : List Token}
    {a : α} {n : Nat} (hlexes : Token.Lexes text.toList tokens)
    (h : p.Takes tokens 0 a [] n) : whole? p text = some a := by
  obtain ⟨spanned, hread, htokens⟩ := Token.read_eq_ok_iff.mpr hlexes
  obtain ⟨c, hrun, hend, -⟩ := h ⟨spanned, 0, text.utf8ByteSize⟩ htokens rfl
  exact whole_eq_some_iff.mpr ⟨spanned, c, hread, hrun, by simpa using hend⟩

/-- A text that a parser reads to its end is cut into tokens that the parser
takes. -/
theorem exists_tokens_of_whole {p : Parser α} {Q : List Token → α → Prop}
    {text : String} {a : α} (hp : Inverts [] p Q) (h : whole? p text = some a) :
    ∃ tokens, Token.Lexes text.toList tokens ∧ Q tokens a := by
  obtain ⟨spanned, c, hread, hrun, hend⟩ := whole_eq_some_iff.mp h
  obtain ⟨used, hused, hQ⟩ := hp _ _ _ (by simp) hrun
  obtain rfl : spanned.map SpannedToken.token = used := by
    simpa [Cursor.ahead, hend] using hused
  exact ⟨_, Token.read_eq_ok_iff.mp ⟨spanned, hread, rfl⟩, hQ⟩

/-- A text without placeholders that is a filter of its own is made of blocks
that are read alike wherever they stand. -/
theorem blocks_of_whole_filter {text : String} {f : Filter}
    (hfree : '?' ∉ text.toList) (h : whole? filter text = some f) :
    ∃ tokens blocks, Token.Lexes text.toList tokens ∧ tokens ≠ [] ∧
      f = filterOf blocks ∧ BlocksAgain tokens.length tokens blocks := by
  obtain ⟨spanned, c, hread, hrun, hend⟩ := whole_eq_some_iff.mp h
  have hsome : spanned ≠ [] := by
    rintro rfl
    obtain ⟨e, hfail⟩ : ∃ e, filter.run ⟨[], 0, text.utf8ByteSize⟩ = .error e :=
      ⟨_, rfl⟩
    simp [hfail] at hrun
  have hlexes := Token.read_eq_ok_iff.mp ⟨spanned, hread, rfl⟩
  have hparam : ∀ t ∈ [Token.symbol .param],
      t ∉ (⟨spanned, 0, text.utf8ByteSize⟩ : Cursor).ahead := by
    intro t ht
    rw [List.mem_singleton.mp ht]
    exact hlexes.not_mem_param hfree
  rw [filter, StateT.run_bind, StateT.run_get, pure_bind] at hrun
  obtain ⟨used, hused, k, blocks, hk, rfl, hblocks⟩ :=
    inverts_filterWithin (spanned.length + 1) _ _ _ hparam hrun
  have htokens : spanned.map SpannedToken.token = used := by
    simpa [Cursor.ahead, hend] using hused
  have hlength : (spanned.map SpannedToken.token).length = k := by
    rw [List.length_map]
    exact Nat.succ.inj hk
  subst hlength htokens
  exact ⟨_, blocks, hlexes, by simpa using hsome, rfl, hblocks⟩

end Parser

end EntityMapper
