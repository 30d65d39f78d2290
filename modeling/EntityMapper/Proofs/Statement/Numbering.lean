import EntityMapper.Proofs.Statement.Acceptance
import EntityMapper.Proofs.Statement.Scanning
import EntityMapper.Proofs.Statement.Statements

/-!
# How the parser numbers placeholders

The values of a statement, in the order in which its text has them, refer to the
parameters one after the other: the first placeholder is parameter zero, and
none is left out or met twice. A parser *numbers* its placeholders if a
successful run meets exactly the placeholders among the tokens it takes, and its
result refers to them in order. Every production takes its tokens through a
handful of steps, of which all but the one that reads a value refuse a
placeholder, so the property goes through the grammar production by production.
-/

namespace EntityMapper

/-- The parameter an operand refers to. -/
def Operand.index? : Operand → Option Nat
  | .param index => some index
  | .literal _ => none

/-- The parameters that operands refer to, in order. -/
def Operand.indices (operands : List Operand) : List Nat :=
  operands.filterMap Operand.index?

@[simp]
theorem Operand.indices_nil : Operand.indices [] = [] := rfl

@[simp]
theorem Operand.indices_append (first second : List Operand) :
    Operand.indices (first ++ second) =
      Operand.indices first ++ Operand.indices second :=
  List.filterMap_append

theorem Operand.mem_indices {operands : List Operand} {i : Nat} :
    i ∈ Operand.indices operands ↔ Operand.param i ∈ operands := by
  rw [Operand.indices, List.mem_filterMap]
  constructor
  · rintro ⟨o, ho, hindex⟩
    cases o with
    | param j => exact Option.some.inj hindex ▸ ho
    | literal value => simp [Operand.index?] at hindex
  · intro h
    exact ⟨.param i, h, rfl⟩

mutual

/-- The operands of a filter from left to right. -/
def Filter.operands : Filter → List Operand
  | .all terms => Filter.operandsOf terms
  | .any terms => Filter.operandsOf terms
  | .compare _ _ operand => [operand]
  | .member _ _ operands => operands
  | .isNull _ _ => []
  | .token _ _ operands => operands

def Filter.operandsOf : List Filter → List Operand
  | [] => []
  | term :: rest => term.operands ++ Filter.operandsOf rest

end

theorem Filter.operandsOf_eq_flatMap (terms : List Filter) :
    Filter.operandsOf terms = terms.flatMap Filter.operands := by
  induction terms with
  | nil => simp [Filter.operandsOf]
  | cons term rest ih => rw [Filter.operandsOf, ih, List.flatMap_cons]

/-- The operands of a clause that may be missing. -/
def Filter.optionalOperands (filter : Option Filter) : List Operand :=
  filter.elim [] Filter.operands

/-- The operands of a statement in the order of its text. -/
def Statement.operands : Statement → List Operand
  | .select s => Filter.optionalOperands s.filter
  | .insert s => s.values
  | .update s =>
    s.assignments.map Prod.snd ++
      (Filter.optionalOperands s.filter ++ Filter.optionalOperands s.conditions)
  | .delete s =>
    Filter.optionalOperands s.filter ++ Filter.optionalOperands s.conditions

/-- The parameters a statement refers to in the order of its text. -/
def Statement.params (s : Statement) : List Nat := Operand.indices s.operands

/-- The placeholders ahead of a parser. -/
def Cursor.placeholdersAhead (c : Cursor) : Nat := c.ahead.count (.symbol .param)

namespace Parser

variable {α β : Type}

/-- A successful run meets the placeholders among the tokens it takes, and the
parameters that it gives them stand to the result as `Q` says. -/
def Numbers (p : Parser α) (Q : List Nat → α → Prop) : Prop :=
  ∀ c a d, p.run c = .ok (a, d) →
    ∃ k, c.placeholdersAhead = d.placeholdersAhead + k ∧
      d.placeholders = c.placeholders + k ∧ Q (List.range' c.placeholders k) a

/-- A successful run meets no placeholder. -/
def Unnumbered (p : Parser α) : Prop := p.Numbers fun met _ => met = []

/-! ## Steps -/

theorem Numbers.imp {p : Parser α} {Q R : List Nat → α → Prop} (h : p.Numbers Q)
    (himp : ∀ met a, Q met a → R met a) : p.Numbers R := by
  intro c a d hrun
  obtain ⟨k, hahead, hcount, hQ⟩ := h c a d hrun
  exact ⟨k, hahead, hcount, himp _ a hQ⟩

/-- The second of two steps numbers on where the first one stopped. -/
theorem Numbers.bind {p : Parser α} {f : α → Parser β} {Q : List Nat → α → Prop}
    {R : List Nat → β → Prop} (hp : p.Numbers Q)
    (hf : ∀ met a, Q met a → (f a).Numbers fun more b => R (met ++ more) b) :
    (p >>= f).Numbers R := by
  intro c b e hrun
  obtain ⟨a, d, hfirst, hsecond⟩ := exists_of_run_bind hrun
  obtain ⟨j, hahead, hcount, hQ⟩ := hp c a d hfirst
  obtain ⟨k, hmore, hend, hR⟩ := hf _ a hQ d b e hsecond
  refine ⟨j + k, by omega, by omega, ?_⟩
  rwa [hcount, List.range'_append_1] at hR

theorem Unnumbered.bind {p : Parser α} {f : α → Parser β} {R : List Nat → β → Prop}
    (hp : p.Unnumbered) (hf : ∀ a, (f a).Numbers R) : (p >>= f).Numbers R := by
  refine Numbers.bind hp ?_
  rintro met a rfl
  exact hf a

theorem numbers_pure {a : α} {Q : List Nat → α → Prop} (h : Q [] a) :
    (pure a : Parser α).Numbers Q := by
  intro c b d hrun
  obtain ⟨rfl, rfl⟩ := Prod.mk.inj (Except.ok.inj hrun)
  exact ⟨0, rfl, rfl, h⟩

theorem unnumbered_pure (a : α) : (pure a : Parser α).Unnumbered := numbers_pure rfl

theorem numbers_fail (fault : SyntaxFault) (span : Span) (Q : List Nat → α → Prop) :
    (fail fault span : Parser α).Numbers Q := by
  intro c a d hrun
  have herror : (fail fault span : Parser α).run c = .error ⟨fault, span⟩ := rfl
  rw [herror] at hrun
  cases hrun

theorem numbers_get {f : Cursor → Parser β} {Q : List Nat → β → Prop}
    (h : ∀ c, (f c).Numbers Q) : (get >>= f).Numbers Q :=
  fun c b d hrun => h c c b d hrun

theorem numbers_ite {b : Bool} {p q : Parser α} {Q : List Nat → α → Prop}
    (hp : p.Numbers Q) (hq : q.Numbers Q) :
    (if b = true then p else q).Numbers Q := by
  cases b with
  | true => exact hp
  | false => exact hq

/-- A step on the next token, given what becomes of a placeholder that is taken
there. -/
theorem numbers_next {f : SpannedToken → Parser β} {Q : List Nat → β → Prop}
    (hparam : ∀ span c b d, (f ⟨.symbol .param, span⟩).run c = .ok (b, d) →
      c.placeholdersAhead = d.placeholdersAhead ∧
        d.placeholders = c.placeholders + 1 ∧ Q [c.placeholders] b)
    (hother : ∀ next, next.token ≠ .symbol .param → (f next).Numbers Q) :
    (nextToken >>= f).Numbers Q := by
  intro c b e hrun
  obtain ⟨next, d, hnext, hrest⟩ := exists_of_run_bind hrun
  rcases htokens : c.tokens with _ | ⟨first, rest⟩
  · simp [StateT.run, nextToken, htokens] at hnext
  simp only [StateT.run, nextToken, htokens] at hnext
  obtain ⟨rfl, rfl⟩ := Prod.mk.inj (Except.ok.inj hnext)
  have hahead : c.placeholdersAhead =
      (⟨rest, c.placeholders, c.size⟩ : Cursor).placeholdersAhead +
        if first.token = .symbol .param then 1 else 0 := by
    simp [Cursor.placeholdersAhead, Cursor.ahead, htokens, List.count_cons]
  by_cases hfirst : first.token = .symbol .param
  · obtain ⟨token, span⟩ := first
    subst hfirst
    obtain ⟨hsame, hcount, hQ⟩ := hparam span _ b e hrest
    exact ⟨1, by rw [hahead, hsame, if_pos rfl], hcount, hQ⟩
  · rw [if_neg hfirst] at hahead
    obtain ⟨k, hmore, hcount, hQ⟩ := hother first hfirst _ b e hrest
    exact ⟨k, by omega, hcount, hQ⟩

/-- A step that refuses a placeholder. -/
theorem numbers_next_other {f : SpannedToken → Parser β} {Q : List Nat → β → Prop}
    (hparam : ∀ span, ∃ fault, f ⟨.symbol .param, span⟩ = fail fault span)
    (hother : ∀ next, next.token ≠ .symbol .param → (f next).Numbers Q) :
    (nextToken >>= f).Numbers Q := by
  refine numbers_next (fun span c b d hrun => ?_) hother
  obtain ⟨fault, hfail⟩ := hparam span
  rw [hfail] at hrun
  cases hrun

theorem unnumbered_eat {t : Token} (ht : t ≠ .symbol .param) :
    (eat t).Unnumbered := by
  intro c found d hrun
  rcases htokens : c.tokens with _ | ⟨next, rest⟩
  · simp only [StateT.run, eat, htokens] at hrun
    obtain ⟨rfl, rfl⟩ := Prod.mk.inj (Except.ok.inj hrun)
    exact ⟨0, rfl, rfl, rfl⟩
  · simp only [StateT.run, eat, htokens] at hrun
    split at hrun
    · next hnext =>
      obtain ⟨rfl, rfl⟩ := Prod.mk.inj (Except.ok.inj hrun)
      refine ⟨0, ?_, rfl, rfl⟩
      simp [Cursor.placeholdersAhead, Cursor.ahead, htokens, hnext, ht]
    · obtain ⟨rfl, rfl⟩ := Prod.mk.inj (Except.ok.inj hrun)
      exact ⟨0, rfl, rfl, rfl⟩

theorem unnumbered_check (t : Token) : (check t).Unnumbered := by
  intro c found d hrun
  rcases htokens : c.tokens with _ | ⟨next, rest⟩
  all_goals
    simp only [StateT.run, check, htokens] at hrun
    obtain ⟨-, rfl⟩ := Prod.mk.inj (Except.ok.inj hrun)
    exact ⟨0, rfl, rfl, rfl⟩

theorem unnumbered_atCount : atCount.Unnumbered := by
  intro c found d hrun
  rcases htokens : c.tokens with _ | ⟨first, _ | ⟨second, rest⟩⟩
  all_goals
    simp only [StateT.run, atCount, htokens] at hrun
    obtain ⟨-, rfl⟩ := Prod.mk.inj (Except.ok.inj hrun)
    exact ⟨0, rfl, rfl, rfl⟩

theorem unnumbered_expect {t : Token} (ht : t ≠ .symbol .param) :
    (expect t).Unnumbered := by
  refine numbers_next_other (fun span => ⟨_, if_neg ht.symm⟩) fun next _ => ?_
  split
  · exact unnumbered_pure next
  · exact numbers_fail _ _ _

theorem Unnumbered.discard {p : Parser α} (h : p.Unnumbered) :
    (discard p).Unnumbered := by
  rw [discard_eq]
  exact h.bind fun _ => unnumbered_pure _

theorem unnumbered_expectSymbol {s : Symbol} (hs : s ≠ .param) :
    (expectSymbol s).Unnumbered :=
  (unnumbered_expect (by simpa using hs)).discard

theorem unnumbered_expectKeyword (k : Keyword) : (expectKeyword k).Unnumbered :=
  (unnumbered_expect (by simp)).discard

theorem unnumbered_expectName : expectName.Unnumbered := by
  refine numbers_next_other (fun span => ⟨_, rfl⟩) fun next _ => ?_
  split
  · exact unnumbered_pure _
  · exact numbers_fail _ _ _

theorem unnumbered_expectCount : expectCount.Unnumbered := by
  refine numbers_next_other (fun span => ⟨_, rfl⟩) fun next _ => ?_
  split
  · split
    · exact unnumbered_pure _
    · exact numbers_fail _ _ _
  · exact numbers_fail _ _ _

/-! ## Lists -/

/-- Parsers of parts whose operands come one after the other. -/
def Lists (operands : α → List Operand) (p : Parser α) : Prop :=
  p.Numbers fun met a => Operand.indices (operands a) = met

variable {operands : α → List Operand} {separator : Token}

theorem lists_moreItems {p : Parser α} (h : p.Lists operands)
    (hseparator : separator ≠ .symbol .param) (fuel : Nat) :
    (moreItems separator p fuel).Lists (List.flatMap operands) := by
  induction fuel with
  | zero => exact numbers_pure rfl
  | succ fuel ih =>
    refine (unnumbered_eat hseparator).bind
      fun found => numbers_ite ?_ (numbers_pure rfl)
    apply h.bind
    rintro _ first rfl
    apply ih.bind
    rintro _ rest rfl
    exact numbers_pure (by simp)

theorem Lists.separated {p : Parser α} (h : p.Lists operands)
    (hseparator : separator ≠ .symbol .param) :
    (separated separator p).Lists (List.flatMap operands) := by
  apply h.bind
  rintro _ first rfl
  refine numbers_get fun c => (lists_moreItems h hseparator _).bind ?_
  rintro _ rest rfl
  exact numbers_pure (by simp)

/-- Items without operands. -/
theorem Unnumbered.separated {p : Parser α} (h : p.Unnumbered)
    (hseparator : separator ≠ .symbol .param) :
    (Parser.separated separator p).Unnumbered := by
  have hlists : p.Lists fun _ => [] := h.imp fun met a hmet => hmet.symm
  refine (hlists.separated hseparator).imp fun met values hmet => ?_
  rw [← hmet, List.flatMap_eq_nil_iff.mpr fun _ _ => rfl]
  rfl

/-! ## Names -/

theorem unnumbered_tableTail (fuel : Nat) (name : String) :
    (tableTail fuel name).Unnumbered := by
  induction fuel generalizing name with
  | zero => exact unnumbered_pure name
  | succ fuel ih =>
    refine (unnumbered_eat (by simp)).bind
      fun found => numbers_ite ?_ (unnumbered_pure name)
    exact unnumbered_expectName.bind ih

theorem unnumbered_tableName : tableName.Unnumbered :=
  unnumbered_expectName.bind
    fun name => numbers_get fun _ => unnumbered_tableTail _ name

theorem unnumbered_columnTail (fuel : Nat) (name : String) :
    (columnTail fuel name).Unnumbered := by
  induction fuel generalizing name with
  | zero => exact unnumbered_pure name
  | succ fuel ih =>
    refine (unnumbered_eat (by simp)).bind
      fun found => numbers_ite ?_ (unnumbered_pure name)
    refine (unnumbered_eat (by simp)).bind
      fun star => numbers_ite (unnumbered_pure _) ?_
    exact unnumbered_expectName.bind ih

theorem unnumbered_columnName : columnName.Unnumbered := by
  refine (unnumbered_eat (by simp)).bind
    fun star => numbers_ite (unnumbered_pure _) ?_
  exact unnumbered_expectName.bind
    fun name => numbers_get fun _ => unnumbered_columnTail _ name

theorem unnumbered_columnList : columnList.Unnumbered :=
  unnumbered_columnName.separated (by simp)

/-! ## Values -/

theorem lists_operand : operand.Lists fun o => [o] := by
  refine numbers_next (fun span c o d hrun => ?_) ?_
  · obtain ⟨rfl, rfl⟩ := Prod.mk.inj (Except.ok.inj hrun)
    exact ⟨rfl, rfl, rfl⟩
  rintro ⟨t, span⟩ hother
  have hliteral (value : Value) : (pure (.literal value) : Parser Operand).Numbers
      fun met o => Operand.indices [o] = met :=
    numbers_pure rfl
  cases t with
  | int n => exact hliteral _
  | float x => exact hliteral _
  | string text => exact hliteral _
  | keyword k =>
    cases k with
    | trueLiteral | falseLiteral | null => exact hliteral _
    | _ => exact numbers_fail _ _ _
  | symbol s =>
    cases s with
    | param => exact absurd rfl hother
    | _ => exact numbers_fail _ _ _
  | name _ => exact numbers_fail _ _ _
  | quotedName _ => exact numbers_fail _ _ _

theorem lists_operandList : operandList.Lists id := by
  refine (lists_operand.separated (by simp)).imp fun met values hmet => ?_
  simpa using hmet

/-! ## Filters -/

theorem unnumbered_comparison : comparison.Unnumbered := by
  refine numbers_next_other (fun span => ⟨_, rfl⟩) fun next _ => ?_
  split
  · exact unnumbered_pure _
  · exact numbers_fail _ _ _

theorem lists_memberList (column : String) (negated : Bool) :
    (memberList column negated).Lists Filter.operands := by
  refine (unnumbered_expectSymbol (by simp)).bind fun _ => ?_
  refine (unnumbered_check _).bind fun closed => ?_
  have hclose (operands : List Operand) : (do
      expectSymbol .rightParen
      return .member column negated operands : Parser Filter).Numbers fun more f =>
        Operand.indices f.operands = Operand.indices operands ++ more := by
    refine (unnumbered_expectSymbol (by simp)).bind fun _ => numbers_pure ?_
    simp [Filter.operands]
  rw [← ite_bind]
  refine (numbers_ite (Q := fun met values => Operand.indices values = met)
      ?_ ?_).bind ?_
  · exact numbers_pure rfl
  · exact lists_operandList
  · rintro _ values rfl
    exact hclose values

theorem lists_tokenFilter : tokenFilter.Lists Filter.operands := by
  refine (unnumbered_expectSymbol (by simp)).bind fun _ => ?_
  refine unnumbered_columnList.bind fun columns => ?_
  refine (unnumbered_expectSymbol (by simp)).bind fun _ => ?_
  refine unnumbered_comparison.bind fun operator => ?_
  refine (unnumbered_expectKeyword _).bind fun _ => ?_
  refine (unnumbered_expectSymbol (by simp)).bind fun _ => ?_
  apply lists_operandList.bind
  rintro _ values rfl
  refine (unnumbered_expectSymbol (by simp)).bind fun _ => numbers_pure ?_
  simp [Filter.operands]

theorem lists_columnFilter : columnFilter.Lists Filter.operands := by
  have hcompare (column : String) (operator : Operator) :
      (do return .compare column operator (← operand) : Parser Filter).Lists
        Filter.operands := by
    apply lists_operand.bind
    rintro _ o rfl
    exact numbers_pure (by simp [Filter.operands])
  refine unnumbered_columnName.bind fun column => ?_
  refine numbers_next_other (fun span => ⟨_, rfl⟩) fun next _ => ?_
  split
  · exact hcompare column .like
  · refine (unnumbered_eat (by simp)).bind fun found => ?_
    exact hcompare column _
  · exact lists_memberList column false
  · exact (unnumbered_expectKeyword _).bind fun _ => lists_memberList column true
  · refine (unnumbered_eat (by simp)).bind fun negated => ?_
    refine (unnumbered_expectKeyword _).bind fun _ => numbers_pure ?_
    simp [Filter.operands]
  · split
    · exact hcompare column _
    · exact numbers_fail _ _ _

theorem operands_conjunction (terms : List Filter) :
    (conjunction terms).operands = terms.flatMap Filter.operands := by
  unfold conjunction
  split
  · simp
  · rw [Filter.operands, Filter.operandsOf_eq_flatMap]

theorem operands_disjunction (terms : List Filter) :
    (disjunction terms).operands = terms.flatMap Filter.operands := by
  unfold disjunction
  split
  · simp
  · rw [Filter.operands, Filter.operandsOf_eq_flatMap]

theorem lists_term {inner : Parser Filter} (h : inner.Lists Filter.operands) :
    (term inner).Lists Filter.operands := by
  refine (unnumbered_eat (by simp)).bind fun bracket => numbers_ite ?_ ?_
  · apply h.bind
    rintro _ f rfl
    refine (unnumbered_expectSymbol (by simp)).bind fun _ => numbers_pure (by simp)
  · refine (unnumbered_eat (by simp)).bind fun word => ?_
    exact numbers_ite lists_tokenFilter lists_columnFilter

theorem lists_filterWithin (fuel : Nat) :
    (filterWithin fuel).Lists Filter.operands := by
  induction fuel with
  | zero => exact numbers_get fun c => numbers_fail _ _ _
  | succ fuel ih =>
    have hblock : (conjunctionWithin fuel).Lists Filter.operands := by
      apply ((lists_term ih).separated (by simp)).bind
      rintro _ terms rfl
      exact numbers_pure (by simp [operands_conjunction])
    rw [filterWithin_succ]
    apply (hblock.separated (by simp)).bind
    rintro _ alternatives rfl
    exact numbers_pure (by simp [operands_disjunction])

theorem lists_filter : filter.Lists Filter.operands :=
  numbers_get fun _ => lists_filterWithin _

theorem lists_filterAfter (k : Keyword) :
    (filterAfter k).Lists Filter.optionalOperands := by
  refine (unnumbered_eat (by simp)).bind
    fun found => numbers_ite ?_ (numbers_pure rfl)
  apply lists_filter.bind
  rintro _ f rfl
  exact numbers_pure (by simp [Filter.optionalOperands])

/-! ## Statements -/

theorem unnumbered_countAfter (k : Keyword) : (countAfter k).Unnumbered := by
  refine (unnumbered_eat (by simp)).bind
    fun found => numbers_ite ?_ (unnumbered_pure none)
  exact unnumbered_expectCount.bind fun n => unnumbered_pure (some n)

theorem unnumbered_ttl : ttl.Unnumbered := by
  refine (unnumbered_eat (by simp)).bind
    fun found => numbers_ite ?_ (unnumbered_pure none)
  refine (unnumbered_expectKeyword _).bind fun _ => ?_
  exact unnumbered_expectCount.bind fun n => unnumbered_pure (some n)

theorem unnumbered_projectedColumn : projectedColumn.Unnumbered := by
  refine unnumbered_columnName.bind fun name => ?_
  split
  · exact unnumbered_pure none
  · refine (unnumbered_eat (by simp)).bind fun found => ?_
    rw [← ite_bind]
    refine Unnumbered.bind (numbers_ite ?_ (unnumbered_pure none))
      fun label => unnumbered_pure _
    rw [map_eq_pure_bind]
    exact unnumbered_expectName.bind fun label => unnumbered_pure _

theorem unnumbered_projection : projection.Unnumbered := by
  refine (unnumbered_eat (by simp)).bind
    fun star => numbers_ite (unnumbered_pure _) ?_
  refine unnumbered_atCount.bind fun count => numbers_ite ?_ ?_
  · refine (unnumbered_expectKeyword _).bind fun _ => ?_
    refine (unnumbered_expectSymbol (by simp)).bind fun _ => ?_
    refine (unnumbered_expectSymbol (by simp)).bind fun _ => ?_
    exact (unnumbered_expectSymbol (by simp)).bind fun _ => unnumbered_pure _
  · refine (unnumbered_projectedColumn.separated (by simp)).bind fun columns => ?_
    exact numbers_ite (unnumbered_pure _) (unnumbered_pure _)

theorem unnumbered_orderItem : orderItem.Unnumbered := by
  refine unnumbered_columnName.bind fun column => ?_
  refine (unnumbered_eat (by simp)).bind
    fun down => numbers_ite (unnumbered_pure _) ?_
  exact (unnumbered_eat (by simp)).discard.bind fun _ => unnumbered_pure _

theorem unnumbered_groupColumns : groupColumns.Unnumbered := by
  refine (unnumbered_eat (by simp)).bind
    fun found => numbers_ite ?_ (unnumbered_pure _)
  exact (unnumbered_expectKeyword _).bind fun _ => unnumbered_columnList

theorem unnumbered_orderItems : orderItems.Unnumbered := by
  refine (unnumbered_eat (by simp)).bind
    fun found => numbers_ite ?_ (unnumbered_pure _)
  exact (unnumbered_expectKeyword _).bind
    fun _ => unnumbered_orderItem.separated (by simp)

theorem unnumbered_filteringAllowed : filteringAllowed.Unnumbered := by
  refine (unnumbered_eat (by simp)).bind
    fun found => numbers_ite ?_ (unnumbered_pure _)
  exact (unnumbered_expectKeyword _).bind fun _ => unnumbered_pure true

theorem lists_select : select.Lists fun s => Filter.optionalOperands s.filter := by
  rw [select_eq]
  refine unnumbered_projection.bind fun projection => ?_
  refine (unnumbered_expectKeyword _).bind fun _ => ?_
  refine unnumbered_tableName.bind fun table => ?_
  apply (lists_filterAfter .where).bind
  rintro _ filter rfl
  refine unnumbered_groupColumns.bind fun groupBy => ?_
  refine unnumbered_orderItems.bind fun orderBy => ?_
  refine (unnumbered_countAfter _).bind fun limit => ?_
  refine (unnumbered_countAfter _).bind fun offset => ?_
  exact unnumbered_filteringAllowed.bind fun allow => numbers_pure (by simp)

theorem unnumbered_ifAbsent : ifAbsent.Unnumbered := by
  refine (unnumbered_eat (by simp)).bind fun found => numbers_ite ?_ ?_
  · refine (unnumbered_expectKeyword _).bind fun _ => ?_
    exact (unnumbered_expectKeyword _).bind fun _ => unnumbered_pure true
  · refine (unnumbered_eat (by simp)).bind
      fun found => numbers_ite ?_ (unnumbered_pure false)
    refine (unnumbered_expectKeyword _).bind fun _ => ?_
    refine (unnumbered_expectKeyword _).bind fun _ => ?_
    exact (unnumbered_expectKeyword _).bind fun _ => unnumbered_pure true

theorem lists_insert : insert.Lists InsertStatement.values := by
  refine (unnumbered_expectKeyword _).bind fun _ => ?_
  refine unnumbered_tableName.bind fun table => ?_
  refine (unnumbered_expectSymbol (by simp)).bind fun _ => ?_
  refine unnumbered_columnList.bind fun columns => ?_
  refine (unnumbered_expectSymbol (by simp)).bind fun _ => ?_
  refine (unnumbered_expectKeyword _).bind fun _ => ?_
  refine (unnumbered_expectSymbol (by simp)).bind fun _ => ?_
  apply lists_operandList.bind
  rintro _ values rfl
  refine (unnumbered_expect (by simp)).bind fun close => ?_
  have hend : (do
      let ifNotExists ← ifAbsent
      let ttl ← ttl
      return { table, columns, values, ifNotExists, ttl } :
        Parser InsertStatement).Numbers
      fun more s => Operand.indices s.values = Operand.indices values ++ more := by
    refine unnumbered_ifAbsent.bind fun ifNotExists => ?_
    exact unnumbered_ttl.bind fun ttl => numbers_pure (by simp)
  split
  · exact Numbers.bind (numbers_fail _ _ fun _ _ => False) fun _ _ => False.elim
  · exact hend

theorem lists_assignment : assignment.Lists fun a => [a.2] := by
  refine unnumbered_columnName.bind fun column => ?_
  refine (unnumbered_expectSymbol (by simp)).bind fun _ => ?_
  apply lists_operand.bind
  rintro _ o rfl
  exact numbers_pure (by simp)

theorem lists_update : update.Lists fun s => (Statement.update s).operands := by
  refine unnumbered_tableName.bind fun table => ?_
  refine unnumbered_ttl.bind fun ttl => ?_
  refine (unnumbered_expectKeyword _).bind fun _ => ?_
  apply (lists_assignment.separated (by simp)).bind
  rintro _ assignments rfl
  apply (lists_filterAfter .where).bind
  rintro _ filter rfl
  apply (lists_filterAfter .if).bind
  rintro _ conditions rfl
  refine numbers_pure ?_
  simp [Statement.operands, ← List.map_eq_flatMap]

theorem unnumbered_deletedColumns : deletedColumns.Unnumbered :=
  (unnumbered_check _).bind
    fun _ => numbers_ite (unnumbered_pure []) unnumbered_columnList

theorem lists_delete : delete.Lists fun s => (Statement.delete s).operands := by
  rw [delete_eq]
  refine unnumbered_deletedColumns.bind fun columns => ?_
  refine (unnumbered_expectKeyword _).bind fun _ => ?_
  refine unnumbered_tableName.bind fun table => ?_
  apply (lists_filterAfter .where).bind
  rintro _ filter rfl
  apply (lists_filterAfter .if).bind
  rintro _ conditions rfl
  exact numbers_pure (by simp [Statement.operands])

theorem lists_statement : statement.Lists Statement.operands := by
  refine numbers_next_other (fun span => ⟨_, rfl⟩) fun first _ => ?_
  split
  · apply lists_select.bind
    rintro _ s rfl
    exact numbers_pure (by simp [Statement.operands])
  · apply lists_insert.bind
    rintro _ s rfl
    exact numbers_pure (by simp [Statement.operands])
  · apply lists_update.bind
    rintro _ s rfl
    exact numbers_pure (by simp)
  · apply lists_delete.bind
    rintro _ s rfl
    exact numbers_pure (by simp)
  · exact numbers_fail _ _ _

theorem unnumbered_finish : finish.Unnumbered := by
  refine (unnumbered_eat (by simp)).discard.bind fun _ => numbers_get fun c => ?_
  split
  · exact unnumbered_pure ()
  · exact numbers_fail _ _ _

/-- No tokens are left behind a command. -/
theorem tokens_of_finish {c d : Cursor} {u : Unit} (h : finish.run c = .ok (u, d)) :
    d.tokens = [] := by
  obtain ⟨_, b, -, hrest⟩ := exists_of_run_bind h
  obtain ⟨_, e, hget, hmatch⟩ := exists_of_run_bind hrest
  obtain ⟨rfl, rfl⟩ := Prod.mk.inj (Except.ok.inj hget)
  split at hmatch
  · next hnil =>
    obtain ⟨-, rfl⟩ := Prod.mk.inj (Except.ok.inj hmatch)
    exact hnil
  · cases hmatch

end Parser

/-- The parser counts the placeholders that the scan of the text counts, and the
statement refers to each of them once, in the order of its text. -/
theorem ParsedCommand.params_of_parse {source : String} {command : ParsedCommand}
    (h : ParsedCommand.parse source = .ok command) :
    command.placeholders = countPlaceholders source ∧
      command.statement.params = List.range command.placeholders := by
  obtain ⟨tokens, d, hread, hcommand⟩ := exists_of_parse h
  obtain ⟨s, b, hstatement, hrest⟩ := Parser.exists_of_run_bind hcommand
  obtain ⟨_, e, hfinish, hend⟩ := Parser.exists_of_run_bind hrest
  obtain ⟨rfl, rfl⟩ := Prod.mk.inj (Except.ok.inj hend)
  obtain ⟨k, hahead, hcount, hparams⟩ := Parser.lists_statement _ s b hstatement
  obtain ⟨j, hlast, hsame, hnone⟩ := Parser.unnumbered_finish b _ e hfinish
  obtain rfl : j = 0 := by simpa using hnone
  have hempty : e.placeholdersAhead = 0 := by
    simp [Cursor.placeholdersAhead, Cursor.ahead, Parser.tokens_of_finish hfinish]
  have hscan : countPlaceholders source = k := by
    have hlexes := Token.read_eq_ok_iff.mp ⟨tokens, hread, rfl⟩
    rw [countPlaceholders, hlexes.countPlaceholders_eq]
    simp only [Cursor.placeholdersAhead, Cursor.ahead] at hahead hlast hempty
    omega
  have htotal : e.placeholders = k := by simp [hsame, hcount]
  refine ⟨htotal.trans hscan.symm, ?_⟩
  rw [htotal, List.range_eq_range']
  exact hparams

end EntityMapper
