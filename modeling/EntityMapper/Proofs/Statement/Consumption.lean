import EntityMapper.Proofs.Statement.Numbering

/-!
# What a filter takes of a command

A filter inside a command ends where its grammar says, which need not be where
its author wanted it to end. Here a run that succeeds is followed from its
result back to the tokens that it took, with the placeholders met on the way:
they are a chain of terms again, read alike in front of whatever does not go on
with it. Moreover a filter never takes the keyword of a clause behind it, and
its last token is a value or a closing bracket.
-/

namespace EntityMapper

namespace Token

/-- A token that a filter can end with. -/
def endsFilter : Token → Bool
  | .symbol .param | .symbol .rightParen | .int _ | .float _ | .string _ => true
  | .keyword .trueLiteral | .keyword .falseLiteral | .keyword .null => true
  | _ => false

/-- The keyword of a clause that stands behind a filter, apart from the last of
them, which may also be a name. -/
def headsClause : Token → Bool
  | .keyword .group | .keyword .order | .keyword .limit | .keyword .offset => true
  | _ => false

theorem not_headsClause_of_endsFilter {t : Token} (h : t.endsFilter = true) :
    t.headsClause = false := by
  cases t with
  | keyword k => cases k <;> first | rfl | cases h
  | _ => rfl

theorem not_headsClause_of_nameOf {t : Token} {name : String}
    (h : Parser.nameOf? t = some name) : t.headsClause = false := by
  cases t with
  | keyword k => cases k <;> first | rfl | cases h
  | _ => rfl

end Token

/-- The tokens hold no keyword of a clause. -/
def Clauseless (tokens : List Token) : Prop := ∀ t ∈ tokens, t.headsClause = false

theorem clauseless_nil : Clauseless [] := List.forall_mem_nil _

theorem Clauseless.cons {t : Token} {tokens : List Token}
    (ht : t.headsClause = false) (h : Clauseless tokens) :
    Clauseless (t :: tokens) := List.forall_mem_cons.mpr ⟨ht, h⟩

theorem Clauseless.append {first second : List Token} (hfirst : Clauseless first)
    (hsecond : Clauseless second) : Clauseless (first ++ second) :=
  List.forall_mem_append.mpr ⟨hfirst, hsecond⟩

/-- The tokens hold no keyword of a clause, and end as a filter does. -/
structure Sealed (tokens : List Token) : Prop where
  clauseless : Clauseless tokens
  last : ∃ t ∈ tokens.getLast?, t.endsFilter = true

theorem sealed_singleton {t : Token} (h : t.endsFilter = true) : Sealed [t] :=
  ⟨.cons (Token.not_headsClause_of_endsFilter h) clauseless_nil, t, rfl, h⟩

theorem Sealed.behind {front back : List Token} (h : Sealed back)
    (hfront : Clauseless front) : Sealed (front ++ back) := by
  obtain ⟨hback, t, ht, hlast⟩ := h
  refine ⟨hfront.append hback, t, ?_, hlast⟩
  rw [List.getLast?_append, ht]
  rfl

namespace Parser

variable {α β : Type}

/-- With `n` placeholders met before it, a successful run takes tokens as `Q`
says: the tokens, the result, and the placeholders met then. -/
def Consumes (p : Parser α) (n : Nat) (Q : List Token → α → Nat → Prop) : Prop :=
  ∀ c a d, c.placeholders = n → p.run c = .ok (a, d) →
    ∃ used, c.ahead = used ++ d.ahead ∧ Q used a d.placeholders

variable {n : Nat}

/-! ## Steps -/

theorem Consumes.imp {p : Parser α} {Q R : List Token → α → Nat → Prop}
    (h : p.Consumes n Q) (himp : ∀ used a m, Q used a m → R used a m) :
    p.Consumes n R := by
  intro c a d hcount hrun
  obtain ⟨used, hused, hQ⟩ := h c a d hcount hrun
  exact ⟨used, hused, himp _ _ _ hQ⟩

theorem Consumes.bind {p : Parser α} {f : α → Parser β}
    {Q : List Token → α → Nat → Prop} {R : List Token → β → Nat → Prop}
    (hp : p.Consumes n Q)
    (hf : ∀ used a m,
      Q used a m → (f a).Consumes m fun more b k => R (used ++ more) b k) :
    (p >>= f).Consumes n R := by
  intro c b e hcount hrun
  obtain ⟨a, d, hfirst, hsecond⟩ := exists_of_run_bind hrun
  obtain ⟨used, hused, hQ⟩ := hp c a d hcount hfirst
  obtain ⟨more, hmore, hR⟩ := hf _ a _ hQ d b e rfl hsecond
  exact ⟨used ++ more, by rw [hused, hmore, List.append_assoc], hR⟩

theorem consumes_pure {a : α} {Q : List Token → α → Nat → Prop} (h : Q [] a n) :
    (pure a : Parser α).Consumes n Q := by
  rintro c b d rfl hrun
  obtain ⟨rfl, rfl⟩ := Prod.mk.inj (Except.ok.inj hrun)
  exact ⟨[], rfl, h⟩

theorem consumes_fail (fault : SyntaxFault) (span : Span)
    (Q : List Token → α → Nat → Prop) :
    (fail fault span : Parser α).Consumes n Q := by
  intro c a d _ hrun
  have herror : (fail fault span : Parser α).run c = .error ⟨fault, span⟩ := rfl
  rw [herror] at hrun
  cases hrun

theorem consumes_get {f : Cursor → Parser β} {Q : List Token → β → Nat → Prop}
    (h : ∀ c, (f c).Consumes n Q) : (get >>= f).Consumes n Q :=
  fun c b d hcount hrun => h c c b d hcount hrun

theorem consumes_ite {b : Bool} {p q : Parser α} {Q : List Token → α → Nat → Prop}
    (hp : b = true → p.Consumes n Q) (hq : b = false → q.Consumes n Q) :
    (if b = true then p else q).Consumes n Q := by
  cases b with
  | true => exact hp rfl
  | false => exact hq rfl

/-- A step that meets no placeholder. -/
theorem consumes_of_inverts {p : Parser α} {Q : List Token → α → Prop}
    (h : Inverts [] p Q) (hnone : p.Unnumbered) :
    p.Consumes n fun used a m => Q used a ∧ n = m := by
  rintro c a d rfl hrun
  obtain ⟨used, hused, hQ⟩ := h c a d (List.forall_mem_nil _) hrun
  obtain ⟨k, -, hcount, hmet⟩ := hnone c a d hrun
  obtain rfl : k = 0 := by simpa using hmet
  exact ⟨used, hused, hQ, hcount.symm⟩

theorem consumes_next :
    nextToken.Consumes n fun used next m => used = [next.token] ∧ n = m := by
  rintro c a d rfl hrun
  rcases htokens : c.tokens with _ | ⟨next, rest⟩
  · simp [StateT.run, nextToken, htokens] at hrun
  · simp only [StateT.run, nextToken, htokens] at hrun
    obtain ⟨rfl, rfl⟩ := Prod.mk.inj (Except.ok.inj hrun)
    exact ⟨[next.token], by simp [Cursor.ahead, htokens], rfl, rfl⟩

theorem consumes_eatKeyword (k : Keyword) :
    (eatKeyword k).Consumes n fun used found m =>
    used = (if found then [.keyword k] else []) ∧ n = m :=
  consumes_of_inverts (inverts_eat _) (unnumbered_eat (by simp))

theorem consumes_eatSymbol {s : Symbol} (hs : s ≠ .param) :
    (eatSymbol s).Consumes n fun used found m =>
      used = (if found then [.symbol s] else []) ∧ n = m :=
  consumes_of_inverts (inverts_eat _) (unnumbered_eat (by simpa using hs))

theorem consumes_expectSymbol {s : Symbol} (hs : s ≠ .param) :
    (expectSymbol s).Consumes n fun used _ m => used = [.symbol s] ∧ n = m :=
  consumes_of_inverts (inverts_expectSymbol s) (unnumbered_expectSymbol hs)

theorem consumes_expectKeyword (k : Keyword) :
    (expectKeyword k).Consumes n fun used _ m => used = [.keyword k] ∧ n = m :=
  consumes_of_inverts (inverts_expectKeyword k) (unnumbered_expectKeyword k)

/-! ## Lists -/

variable {separator : Token} {item : List Token → Nat → α → Nat → Prop}

theorem consumes_moreItems {p : Parser α}
    (h : ∀ n, p.Consumes n fun used a m => item used n a m)
    (hseparator : separator ≠ .symbol .param) (fuel : Nat) :
    (moreItems separator p fuel).Consumes n fun used values m =>
      MoreItems item separator used n values m := by
  induction fuel generalizing n with
  | zero => exact consumes_pure .none
  | succ fuel ih =>
    refine (consumes_of_inverts (inverts_eat _) (unnumbered_eat hseparator)).bind ?_
    rintro _ found _ ⟨rfl, rfl⟩
    refine consumes_ite ?_ ?_
    · rintro rfl
      refine (h n).bind fun first a k hfirst =>
        ih.bind fun more others m hmore => ?_
      refine consumes_pure (.some ?_)
      rw [List.append_nil]
      cases hmore with
      | none =>
        rw [List.append_nil]
        exact .one hfirst
      | some hchain => exact .more hfirst hchain
    · rintro rfl
      exact consumes_pure .none

theorem Consumes.separated {p : Parser α}
    (h : ∀ n, p.Consumes n fun used a m => item used n a m)
    (hseparator : separator ≠ .symbol .param) :
    (separated separator p).Consumes n fun used values m =>
      Chain item separator used n values m := by
  refine (h n).bind fun first a k hfirst => consumes_get fun c => ?_
  refine (consumes_moreItems h hseparator _).bind fun more others m hmore =>
    consumes_pure ?_
  rw [List.append_nil]
  cases hmore with
  | none =>
    rw [List.append_nil]
    exact .one hfirst
  | some hchain => exact .more hfirst hchain

/-- A chain ends as its items do, if its separator is no keyword of a clause. -/
theorem sealed_of_chain {tokens : List Token} {values : List α} {m : Nat}
    (h : Chain item separator tokens n values m)
    (hseparator : separator.headsClause = false)
    (hitem : ∀ tokens n a m, item tokens n a m → Sealed tokens) :
    Sealed tokens := by
  induction h with
  | one h => exact hitem _ _ _ _ h
  | more h _ ih =>
    exact (ih.behind (.cons hseparator clauseless_nil)).behind
      (hitem _ _ _ _ h).clauseless

/-! ## Columns and values -/

theorem ColumnPath.clauseless {tokens : List Token} {name : String}
    (h : ColumnPath tokens name) : Clauseless tokens := by
  induction h with
  | star => exact .cons rfl clauseless_nil
  | last h => exact .cons (Token.not_headsClause_of_nameOf h) clauseless_nil
  | qualified h _ ih =>
    exact .cons (Token.not_headsClause_of_nameOf h) (.cons rfl ih)

theorem Columns.clauseless {tokens : List Token} {names : List String}
    (h : Columns tokens names) : Clauseless tokens := by
  have hchain : ∀ {tokens : List Token} {n m : Nat} {names : List String},
      Chain ColumnItem (.symbol .comma) tokens n names m → Clauseless tokens := by
    intro tokens n m names hchain
    induction hchain with
    | one hitem => exact hitem.1.clauseless
    | more hitem _ ih => exact hitem.1.clauseless.append (.cons rfl ih)
  exact hchain (h 0)

/-- A value on its own. -/
def ValueItem (used : List Token) (n : Nat) (o : Operand) (m : Nat) : Prop :=
  ∃ t, used = [t] ∧ OperandAt t n o m ∧ t.endsFilter = true

theorem ValueItem.operand {used : List Token} {m : Nat} {o : Operand}
    (h : ValueItem used n o m) : OperandItem used n o m := by
  obtain ⟨t, rfl, ht, -⟩ := h
  exact ⟨t, rfl, ht⟩

theorem ValueItem.sealed {used : List Token} {m : Nat} {o : Operand}
    (h : ValueItem used n o m) : Sealed used := by
  obtain ⟨t, rfl, -, hlast⟩ := h
  exact sealed_singleton hlast

theorem consumes_operand :
    operand.Consumes n fun used o m => ValueItem used n o m := by
  have hliteral {t : Token} {value : Value} (h : literal? t = some value)
      (hlast : t.endsFilter = true) : ValueItem [t] n (.literal value) n :=
    ⟨t, rfl, operandAt_literal h n, hlast⟩
  refine (consumes_next).bind ?_
  rintro _ ⟨t, span⟩ _ ⟨rfl, rfl⟩
  cases t with
  | int _ | float _ | string _ => exact consumes_pure (hliteral rfl rfl)
  | keyword k =>
    cases k with
    | trueLiteral | falseLiteral | null => exact consumes_pure (hliteral rfl rfl)
    | _ => exact consumes_fail _ _ _
  | symbol s =>
    cases s with
    | param =>
      rintro c o d rfl hrun
      obtain ⟨rfl, rfl⟩ := Prod.mk.inj (Except.ok.inj hrun)
      exact ⟨[], rfl, _, rfl, operandAt_placeholder _, rfl⟩
    | _ => exact consumes_fail _ _ _
  | name _ | quotedName _ => exact consumes_fail _ _ _

theorem consumes_operandList : operandList.Consumes n fun used operands m =>
    Operands used n operands m ∧ Sealed used := by
  have hlist : operandList.Consumes n fun used operands m =>
      Chain ValueItem (.symbol .comma) used n operands m :=
    Consumes.separated (fun _ => consumes_operand) (by simp)
  refine hlist.imp fun used operands m hchain =>
    ⟨?_, sealed_of_chain hchain rfl fun _ _ _ _ => ValueItem.sealed⟩
  have hmap : Operands used n (operands.map id) m :=
    Chain.map hchain id fun _ _ _ _ => ValueItem.operand
  rwa [List.map_id] at hmap

/-! ## Terms -/

theorem consumes_comparison : comparison.Consumes n fun used operator m =>
    (∃ t, used = [t] ∧ comparison? t = some operator) ∧ n = m := by
  refine (consumes_next).bind ?_
  rintro _ next _ ⟨rfl, rfl⟩
  split
  · next operator hoperator =>
      exact consumes_pure ⟨⟨next.token, rfl, hoperator⟩, rfl⟩
  · exact consumes_fail _ _ _

theorem clauseless_operator (operator : Operator) : Clauseless operator.tokens := by
  cases operator <;> simp [Clauseless, Operator.tokens, Token.headsClause]

theorem clauseless_comparison {t : Token} {operator : Operator}
    (h : comparison? t = some operator) : Clauseless [t] :=
  tokens_of_comparison h ▸ clauseless_operator operator

/-- Values between brackets. -/
def bracketTokens (tokens : List Token) : List Token :=
  .symbol .leftParen :: (tokens ++ [.symbol .rightParen])

theorem sealed_bracket {tokens : List Token} (h : Clauseless tokens) :
    Sealed (bracketTokens tokens) := by
  have hopen : Clauseless (.symbol .leftParen :: tokens) := .cons rfl h
  have hclose : Sealed [.symbol .rightParen] := sealed_singleton rfl
  exact hclose.behind hopen

theorem consumes_memberList (name : String) (negated : Bool) :
    (memberList name negated).Consumes n fun used f m => ∃ tokens operands,
      used = bracketTokens tokens ∧ f = .member name negated operands ∧
        Members tokens n operands m ∧ Clauseless tokens := by
  refine (consumes_expectSymbol (by simp)).bind ?_
  rintro _ _ _ ⟨rfl, rfl⟩
  refine (consumes_of_inverts (inverts_check _) (unnumbered_check _)).bind ?_
  rintro _ closed _ ⟨rfl, rfl⟩
  refine consumes_ite ?_ ?_
  · rintro rfl
    rw [pure_bind]
    refine (consumes_expectSymbol (by simp)).bind ?_
    rintro _ _ _ ⟨rfl, rfl⟩
    exact consumes_pure ⟨[], [], rfl, rfl, .inl ⟨rfl, rfl, rfl⟩, clauseless_nil⟩
  · rintro rfl
    refine (consumes_operandList).bind ?_
    rintro tokens operands _ ⟨hoperands, hsealed⟩
    refine (consumes_expectSymbol (by simp)).bind ?_
    rintro _ _ _ ⟨rfl, rfl⟩
    exact consumes_pure ⟨tokens, operands, by simp [bracketTokens], rfl,
      .inr hoperands, hsealed.clauseless⟩

/-- The condition on the column in front of some tokens. -/
def OnColumn (used : List Token) (n : Nat) (f : Filter) (m : Nat) : Prop :=
  ∃ column name more, used = column ++ more ∧ ColumnPath column name ∧
    columnFilter.Reads [] used n f m ∧ Sealed used

theorem consumes_columnFilter :
    columnFilter.Consumes n fun used f m => OnColumn used n f m := by
  refine (consumes_of_inverts inverts_columnName unnumbered_columnName).bind ?_
  rintro column name _ ⟨hcolumn, rfl⟩
  have hcompare (operator : Operator) {used : List Token} {o : Operand} {m : Nat}
      (ho : ValueItem used n o m) : OnColumn (column ++ (operator.tokens ++ used))
        n (.compare name operator o) m := by
    obtain ⟨t, rfl, ht, hlast⟩ := ho
    exact ⟨column, name, _, rfl, hcolumn, reads_compare hcolumn operator ht,
      ((sealed_singleton hlast).behind (clauseless_operator operator)).behind
        hcolumn.clauseless⟩
  refine (consumes_next).bind ?_
  rintro _ ⟨t, span⟩ _ ⟨rfl, rfl⟩
  dsimp only
  split
  · refine (consumes_operand).bind fun used o m ho => consumes_pure ?_
    simpa [Operator.tokens] using hcompare .like ho
  · refine (consumes_eatKeyword _).bind ?_
    rintro _ found _ ⟨rfl, rfl⟩
    refine (consumes_operand).bind fun used o m ho => consumes_pure ?_
    cases found with
    | true => simpa [Operator.tokens] using hcompare .containsKey ho
    | false => simpa [Operator.tokens] using hcompare .contains ho
  · refine (consumes_memberList name false).imp ?_
    rintro _ _ _ ⟨tokens, operands, rfl, rfl, hmembers, hclauseless⟩
    refine ⟨column, name, _, rfl, hcolumn, reads_member hcolumn hmembers, ?_⟩
    exact ((sealed_bracket hclauseless).behind (.cons rfl clauseless_nil)).behind
      hcolumn.clauseless
  · refine (consumes_expectKeyword _).bind ?_
    rintro _ _ _ ⟨rfl, rfl⟩
    refine (consumes_memberList name true).imp ?_
    rintro _ _ _ ⟨tokens, operands, rfl, rfl, hmembers, hclauseless⟩
    refine ⟨column, name, _, rfl, hcolumn, reads_notMember hcolumn hmembers, ?_⟩
    exact ((sealed_bracket hclauseless).behind
        (.cons rfl (.cons rfl clauseless_nil))).behind hcolumn.clauseless
  · refine (consumes_eatKeyword _).bind ?_
    rintro _ negated _ ⟨rfl, rfl⟩
    refine (consumes_expectKeyword _).bind ?_
    rintro _ _ _ ⟨rfl, rfl⟩
    have hnull : Sealed [.keyword .null] := sealed_singleton rfl
    cases negated with
    | true =>
      refine consumes_pure
        ⟨column, name, _, rfl, hcolumn, reads_notNull hcolumn n, ?_⟩
      exact (hnull.behind (.cons rfl (.cons rfl clauseless_nil))).behind
        hcolumn.clauseless
    | false =>
      refine consumes_pure
        ⟨column, name, _, rfl, hcolumn, reads_isNull hcolumn n, ?_⟩
      exact (hnull.behind (.cons rfl clauseless_nil)).behind hcolumn.clauseless
  · split
    · next operator hoperator =>
      refine (consumes_operand).bind fun used o m ho => consumes_pure ?_
      have hread := hcompare operator ho
      rw [tokens_of_comparison hoperator] at hread
      simpa using hread
    · exact consumes_fail _ _ _

/-- A comparison of partition tokens is a term whatever is read between brackets. -/
theorem consumes_tokenFilter : tokenFilter.Consumes n fun used f m =>
    (∀ inner, (term inner).Reads [] (.keyword .token :: used) n f m) ∧
        Sealed used := by
  refine (consumes_expectSymbol (by simp)).bind ?_
  rintro _ _ _ ⟨rfl, rfl⟩
  refine (consumes_of_inverts inverts_columnList unnumbered_columnList).bind ?_
  rintro columnTokens names _ ⟨hcolumns, rfl⟩
  refine (consumes_expectSymbol (by simp)).bind ?_
  rintro _ _ _ ⟨rfl, rfl⟩
  refine (consumes_comparison).bind ?_
  rintro _ operator _ ⟨⟨t, rfl, ht⟩, rfl⟩
  refine (consumes_expectKeyword _).bind ?_
  rintro _ _ _ ⟨rfl, rfl⟩
  refine (consumes_expectSymbol (by simp)).bind ?_
  rintro _ _ _ ⟨rfl, rfl⟩
  refine (consumes_operandList).bind ?_
  rintro valueTokens operands _ ⟨hvalues, hsealed⟩
  refine (consumes_expectSymbol (by simp)).bind ?_
  rintro _ _ _ ⟨rfl, rfl⟩
  refine consumes_pure ⟨fun inner => ?_, ?_⟩
  · simpa using reads_token hcolumns ht hvalues inner
  · have hfront : Clauseless (.symbol .leftParen ::
        (columnTokens ++ .symbol .rightParen :: t :: [.keyword .token])) :=
      .cons rfl (hcolumns.clauseless.append (.cons rfl
        ((clauseless_comparison ht).append (.cons rfl clauseless_nil))))
    simpa [bracketTokens] using (sealed_bracket hsealed.clauseless).behind hfront

/-! ## Filters -/

/-- A term whose brackets are nested no deeper than it has tokens. -/
def TermItem (used : List Token) (n : Nat) (f : Filter) (m : Nat) : Prop :=
  TermAt used.length used n f m ∧ Sealed used

/-- A filter whose brackets are nested no deeper than it has tokens. -/
def FilterItem (used : List Token) (n : Nat) (f : Filter) (m : Nat) : Prop :=
  (∃ blocks, f = filterOf blocks ∧ Blocks used.length used n blocks m) ∧ Sealed used

/-- Fuel for every item alone is fuel for the chain, since no item is longer. -/
theorem terms_of_chain {tokens : List Token} {m : Nat} {terms : List Filter}
    (h : Chain TermItem (.keyword .and) tokens n terms m) :
    Terms tokens.length tokens n terms m := by
  induction h with
  | one h => exact .one h.1
  | @more tokens rest n m k f others h _ ih =>
    exact .more (h.1.mono (by simp)) (Terms.mono ih (by simp; omega))

/-- The terms of an alternative. -/
def BlockItem (used : List Token) (n : Nat) (f : Filter) (m : Nat) : Prop :=
  ∃ terms, f = conjunction terms ∧ Chain TermItem (.keyword .and) used n terms m

theorem blocks_of_chain {tokens : List Token} {m : Nat} {values : List Filter}
    (h : Chain BlockItem (.keyword .or) tokens n values m) :
    ∃ blocks, values = blocks.map conjunction ∧
      Blocks tokens.length tokens n blocks m := by
  induction h with
  | one h =>
    obtain ⟨terms, rfl, hterms⟩ := h
    exact ⟨[terms], rfl, .one (terms_of_chain hterms)⟩
  | @more tokens rest n m k f others h _ ih =>
    obtain ⟨terms, rfl, hterms⟩ := h
    obtain ⟨blocks, rfl, hblocks⟩ := ih
    exact ⟨terms :: blocks, rfl, .more ((terms_of_chain hterms).mono (by simp))
      (Blocks.mono hblocks (by simp; omega))⟩

theorem BlockItem.sealed {used : List Token} {m : Nat} {f : Filter}
    (h : BlockItem used n f m) : Sealed used := by
  obtain ⟨terms, -, hterms⟩ := h
  exact sealed_of_chain hterms rfl fun _ _ _ _ => And.right

theorem consumes_term {inner : Parser Filter}
    (h : ∀ n, inner.Consumes n fun used f m => FilterItem used n f m) :
    (term inner).Consumes n fun used f m => TermItem used n f m := by
  refine (consumes_eatSymbol (by simp)).bind ?_
  rintro _ found _ ⟨rfl, rfl⟩
  refine consumes_ite ?_ ?_
  · rintro rfl
    refine (h n).bind ?_
    rintro used _ _ ⟨⟨blocks, rfl, hblocks⟩, hsealed⟩
    refine (consumes_expectSymbol (by simp)).bind ?_
    rintro _ _ _ ⟨rfl, rfl⟩
    refine consumes_pure ?_
    rw [List.append_nil]
    exact ⟨(termAt_bracket hblocks).mono (by simp),
      sealed_bracket hsealed.clauseless⟩
  · rintro rfl
    refine (consumes_eatKeyword _).bind ?_
    rintro _ found _ ⟨rfl, rfl⟩
    refine consumes_ite ?_ ?_
    · rintro rfl
      refine (consumes_tokenFilter).imp fun used f m hterm => ?_
      exact ⟨fun fuel _ => hterm.1 _, hterm.2.behind (.cons rfl clauseless_nil)⟩
    · rintro rfl
      refine (consumes_columnFilter).imp ?_
      rintro _ f m ⟨column, name, more, rfl, hcolumn, hreads, hsealed⟩
      show TermItem (column ++ more) n f m
      exact ⟨fun fuel _ => reads_term_column hcolumn hreads, hsealed⟩

/-- A filter takes alternatives of terms, whatever the fuel it is run with. -/
theorem consumes_filterWithin (fuel : Nat) :
    (filterWithin fuel).Consumes n fun used f m => FilterItem used n f m := by
  induction fuel generalizing n with
  | zero => exact consumes_get fun c => consumes_fail _ _ _
  | succ fuel ih =>
    have hblock (n : Nat) : (conjunctionWithin fuel).Consumes n fun used f m =>
        BlockItem used n f m := by
      refine (Consumes.separated (fun n => consumes_term fun _ => ih)
          (by simp)).bind ?_
      intro used terms m hterms
      refine consumes_pure ⟨terms, rfl, ?_⟩
      rwa [List.append_nil]
    rw [filterWithin_succ]
    refine (Consumes.separated hblock (by simp)).bind fun used values m hchain => ?_
    obtain ⟨blocks, rfl, hblocks⟩ := blocks_of_chain hchain
    refine consumes_pure ?_
    rw [List.append_nil]
    exact ⟨⟨blocks, rfl, hblocks⟩,
      sealed_of_chain hchain rfl fun _ _ _ _ => BlockItem.sealed⟩

/-- The tokens that a filter takes are read as that filter wherever they stand,
unless a connector comes behind them. -/
theorem consumes_filter : filter.Consumes n fun used f m =>
    filter.Reads [.keyword .or, .keyword .and] used n f m ∧ Sealed used := by
  refine consumes_get fun c => (consumes_filterWithin _).imp ?_
  rintro used _ m ⟨⟨blocks, rfl, hblocks⟩, hsealed⟩
  exact ⟨reads_filter hblocks (Nat.le_refl _), hsealed⟩

end Parser

end EntityMapper
