import EntityMapper.Proofs.Statement.Reading

/-!
# What the filter parser reads

A filter is a chain of alternatives between ORs, and each of them a chain of
terms between ANDs. What a term reads does not depend on what comes behind it,
so chains are put together from terms and from chains: between two chains an OR
keeps all alternatives apart, and an AND joins the last alternative on its left
with the first one on its right. Brackets make a term of a filter; the fuel of
the parser bounds how deep they are nested.
-/

namespace EntityMapper.Parser

/-- One term of a filter, given how a filter between brackets is read. -/
def term (inner : Parser Filter) : Parser Filter := do
  if ← eatSymbol .leftParen then
    let filter ← inner
    expectSymbol .rightParen
    return filter
  else if ← eatKeyword .token then tokenFilter
  else columnFilter

/-- A block of a filter: the terms between ANDs outside brackets. -/
def conjunctionWithin (fuel : Nat) : Parser Filter := do
  return conjunction (← separated (.keyword .and) (term (filterWithin fuel)))

/-- The alternatives of a filter: what stands between the ORs outside brackets. -/
def alternativesWithin (fuel : Nat) : Parser (List Filter) :=
  separated (.keyword .or) do
    return conjunction (← separated (.keyword .and) (term (filterWithin fuel)))

theorem filterWithin_succ (fuel : Nat) :
    filterWithin (fuel + 1) = do return disjunction (← alternativesWithin fuel) :=
  rfl

/-- The alternatives of a filter, with the fuel that a filter has. -/
def alternatives : Parser (List Filter) :=
  do alternativesWithin (← get).tokens.length

theorem filter_eq_map_alternatives :
    filter = do return disjunction (← alternatives) := by
  rw [alternatives, bind_assoc]
  rfl

/-! ## Terms on one column -/

variable {β : Type} {column : List Token} {name : String} {n m : Nat}

/-- A term that begins with a column is a condition on it. -/
theorem reads_term_column {inner : Parser Filter} {more : List Token}
    {f : Filter} (h : ColumnPath column name)
    (hfilter : columnFilter.Reads [] (column ++ more) n f m) :
    (term inner).Reads [] (column ++ more) n f m := by
  intro rest hrest
  have htakes := hfilter rest hrest
  rw [List.append_assoc] at htakes ⊢
  apply (h.takes_eat rfl (by simp) _ n).bind
  exact (h.takes_eat rfl (by simp) _ n).bind htakes

theorem reads_compare (h : ColumnPath column name) (operator : Operator)
    {t : Token} {o : Operand} (ho : OperandAt t n o m) :
    columnFilter.Reads [] (column ++ (operator.tokens ++ [t])) n
      (.compare name operator o) m := by
  intro rest _
  have hvalue (op : Operator) : (do return Filter.compare name op (← operand) :
        Parser Filter).Takes (t :: rest) n (.compare name op o) rest m :=
    (ho.takes rest).bind (takes_pure _ _ _)
  have hnokey : (eatKeyword .key).Takes (t :: rest) n false (t :: rest) n :=
    takes_eat_none n (by simpa using ho.not_key)
  rw [List.append_assoc]
  cases operator with
  | containsKey =>
    refine (takes_columnName h (by simp) _ n).bind (takes_next fun span => ?_)
    exact (takes_eat _ _ _).bind (hvalue .containsKey)
  | contains =>
    refine (takes_columnName h (by simp) _ n).bind (takes_next fun span => ?_)
    exact hnokey.bind (hvalue .contains)
  | _ =>
    refine (takes_columnName h (by simp) _ n).bind (takes_next fun span => ?_)
    exact hvalue _

theorem reads_isNull (h : ColumnPath column name) (n : Nat) :
    columnFilter.Reads [] (column ++ [.keyword .is, .keyword .null]) n
      (.isNull name false) n := by
  intro rest _
  rw [List.append_assoc]
  refine (takes_columnName h (by simp) _ n).bind (takes_next fun span => ?_)
  apply (takes_eat_none n (by simp)).bind
  exact (takes_expectKeyword _ _ _).bind (takes_pure _ _ _)

theorem reads_notNull (h : ColumnPath column name) (n : Nat) :
    columnFilter.Reads [] (column ++ [.keyword .is, .keyword .not, .keyword .null])
      n (.isNull name true) n := by
  intro rest _
  rw [List.append_assoc]
  refine (takes_columnName h (by simp) _ n).bind (takes_next fun span => ?_)
  apply (takes_eat _ _ _).bind
  exact (takes_expectKeyword _ _ _).bind (takes_pure _ _ _)

/-! ## Lists of values -/

/-- Values between brackets; there may be none. -/
def Members (tokens : List Token) (n : Nat) (operands : List Operand)
    (m : Nat) : Prop :=
  (tokens = [] ∧ operands = [] ∧ n = m) ∨ Operands tokens n operands m

theorem members_placeholders (xs : List β) (n : Nat) :
    Members (Token.placeholders xs) n ((List.range' n xs.length).map .param)
      (n + xs.length) := by
  cases xs with
  | nil => exact .inl ⟨rfl, rfl, rfl⟩
  | cons x xs => exact .inr (operands_placeholders (List.cons_ne_nil x xs) n)

theorem takes_memberList {tokens : List Token} {operands : List Operand}
    (negated : Bool) (h : Members tokens n operands m) (rest : List Token) :
    (memberList name negated).Takes
      (.symbol .leftParen :: (tokens ++ .symbol .rightParen :: rest)) n
      (.member name negated operands) rest m := by
  apply (takes_expectSymbol _ _ _).bind
  rcases h with ⟨rfl, rfl, rfl⟩ | h
  · apply (takes_check _ _ _).bind
    apply (takes_pure [] _ _).bind
    exact (takes_expectSymbol _ _ _).bind (takes_pure _ _ _)
  · apply (takes_check _ _ _).bind
    rw [decide_eq_false (h.head _)]
    apply (reads_operands h _ (by simp)).bind
    exact (takes_expectSymbol _ _ _).bind (takes_pure _ _ _)

theorem reads_member (h : ColumnPath column name) {tokens : List Token}
    {operands : List Operand} (hmembers : Members tokens n operands m) :
    columnFilter.Reads [] (column ++
        (.keyword .in :: .symbol .leftParen :: (tokens ++ [.symbol .rightParen])))
      n (.member name false operands) m := by
  intro rest _
  rw [List.append_assoc]
  refine (takes_columnName h (by simp) _ n).bind (takes_next fun span => ?_)
  simpa using takes_memberList false hmembers rest

theorem reads_notMember (h : ColumnPath column name) {tokens : List Token}
    {operands : List Operand} (hmembers : Members tokens n operands m) :
    columnFilter.Reads []
      (column ++ (.keyword .not :: .keyword .in :: .symbol .leftParen ::
        (tokens ++ [.symbol .rightParen]))) n
      (.member name true operands) m := by
  intro rest _
  rw [List.append_assoc]
  refine (takes_columnName h (by simp) _ n).bind (takes_next fun span => ?_)
  apply (takes_expectKeyword _ _ _).bind
  simpa using takes_memberList true hmembers rest

theorem takes_comparison {t : Token} {operator : Operator}
    (h : comparison? t = some operator) (rest : List Token) (n : Nat) :
    comparison.Takes (t :: rest) n operator rest n := by
  apply takes_next
  intro span
  simp only [h]
  exact takes_pure _ rest n

theorem exists_comparison {operator : Operator} (h : operator.isComparison = true) :
    ∃ t, operator.tokens = [t] ∧ comparison? t = some operator := by
  cases operator with
  | like | contains | containsKey => simp [Operator.isComparison] at h
  | _ => exact ⟨_, rfl, rfl⟩

/-- One column on its own. -/
def ColumnItem (tokens : List Token) (n : Nat) (name : String) (m : Nat) : Prop :=
  ColumnPath tokens name ∧ n = m

/-- Columns with commas between them. -/
def Columns (tokens : List Token) (names : List String) : Prop :=
  ∀ n, Chain ColumnItem (.symbol .comma) tokens n names n

theorem columns_map {columns : List β} {tokens : β → List Token}
    {names : β → String} (hsome : columns ≠ [])
    (h : ∀ c ∈ columns, ColumnPath (tokens c) (names c)) :
    Columns (Token.commas (columns.map tokens)) (columns.map names) :=
  fun n => chain_map hsome (fun c hc _ => ⟨h c hc, rfl⟩) n

theorem Columns.reads {tokens : List Token} {names : List String}
    (h : Columns tokens names) (n : Nat) :
    columnList.Reads [.symbol .comma, .symbol .dot] tokens n names n := by
  have hchain : Chain (columnName.Reads [.symbol .dot])
      (.symbol .comma) tokens n (names.map id) n := by
    refine Chain.map (h n) id ?_
    rintro tokens n name m ⟨hpath, rfl⟩
    exact reads_columnName hpath n
  rw [List.map_id] at hchain
  exact reads_separated hchain (by simp)

theorem reads_columnList {columns : List β} {tokens : β → List Token}
    {names : β → String} (hsome : columns ≠ [])
    (h : ∀ c ∈ columns, Path (tokens c) (names c)) (n : Nat) :
    columnList.Reads [.symbol .comma, .symbol .dot]
      (Token.commas (columns.map tokens)) n (columns.map names) n :=
  (columns_map hsome fun c hc => (h c hc).column).reads n

theorem reads_token {columnTokens valueTokens : List Token}
    {names : List String} {t : Token} {operator : Operator}
    {operands : List Operand} (hcolumns : Columns columnTokens names)
    (hoperator : comparison? t = some operator)
    (hoperands : Operands valueTokens n operands m) (inner : Parser Filter) :
    (term inner).Reads [] (.keyword .token :: .symbol .leftParen ::
        (columnTokens ++ .symbol .rightParen :: t :: .keyword .token ::
          .symbol .leftParen :: (valueTokens ++ [.symbol .rightParen])))
      n (.token names operator operands) m := by
  intro rest _
  simp only [List.cons_append, List.append_assoc]
  refine (takes_eat_none n (by simp)).bind ((takes_eat _ _ _).bind ?_)
  apply (takes_expectSymbol _ _ _).bind
  apply (hcolumns.reads n _ (by simp)).bind
  apply (takes_expectSymbol _ _ _).bind
  apply (takes_comparison hoperator _ n).bind
  apply (takes_expectKeyword _ _ _).bind
  apply (takes_expectSymbol _ _ _).bind
  apply (reads_operands hoperands _ (by simp)).bind
  exact (takes_expectSymbol _ _ _).bind (takes_pure _ _ _)

/-! ## Chains of terms -/

/-- The tokens of one term, read by every parser with at least the fuel `k`. -/
def TermAt (k : Nat) (tokens : List Token) (n : Nat) (f : Filter) (m : Nat) :
    Prop :=
  ∀ fuel, k ≤ fuel → (term (filterWithin fuel)).Reads [] tokens n f m

/-- Terms with ANDs between them. -/
def Terms (k : Nat) : List Token → Nat → List Filter → Nat → Prop :=
  Chain (TermAt k) (.keyword .and)

/-- Alternatives with ORs between them, each a list of terms. -/
def Blocks (k : Nat) : List Token → Nat → List (List Filter) → Nat → Prop :=
  Chain (Terms k) (.keyword .or)

/-- The filter of alternatives. -/
def filterOf (blocks : List (List Filter)) : Filter :=
  disjunction (blocks.map conjunction)

theorem TermAt.mono {k j : Nat} {tokens : List Token} {f : Filter}
    (h : TermAt k tokens n f m) (hle : k ≤ j) : TermAt j tokens n f m :=
  fun fuel hfuel => h fuel (Nat.le_trans hle hfuel)

theorem Terms.mono {k j : Nat} {tokens : List Token} {terms : List Filter}
    (h : Terms k tokens n terms m) (hle : k ≤ j) : Terms j tokens n terms m := by
  have hmap := Chain.map h id fun _ _ _ _ hterm => hterm.mono hle
  rwa [List.map_id] at hmap

theorem Blocks.mono {k j : Nat} {tokens : List Token} {blocks : List (List Filter)}
    (h : Blocks k tokens n blocks m) (hle : k ≤ j) :
    Blocks j tokens n blocks m := by
  have hmap := Chain.map h id fun _ _ _ _ hterms => hterms.mono hle
  rwa [List.map_id] at hmap

theorem reads_conjunction {k fuel : Nat} {tokens : List Token} {terms : List Filter}
    (h : Terms k tokens n terms m) (hfuel : k ≤ fuel) :
    (conjunctionWithin fuel).Reads [.keyword .and] tokens n
      (conjunction terms) m := by
  intro rest hrest
  have hterms : Chain ((term (filterWithin fuel)).Reads []) (.keyword .and) tokens n
      (terms.map id) m := Chain.map h id fun _ _ _ _ hterm => hterm fuel hfuel
  rw [List.map_id] at hterms
  exact (reads_separated hterms (by simp) rest hrest).bind (takes_pure _ _ _)

theorem reads_alternativesWithin {k fuel : Nat} {tokens : List Token}
    {blocks : List (List Filter)} (h : Blocks k tokens n blocks m)
    (hfuel : k ≤ fuel) :
    (alternativesWithin fuel).Reads [.keyword .or, .keyword .and] tokens n
      (blocks.map conjunction) m :=
  reads_separated (Chain.map h conjunction
      fun _ _ _ _ hterms => reads_conjunction hterms hfuel) (by simp)

theorem reads_filterWithin {k fuel : Nat} {tokens : List Token}
    {blocks : List (List Filter)} (h : Blocks k tokens n blocks m)
    (hfuel : k ≤ fuel) :
    (filterWithin (fuel + 1)).Reads [.keyword .or, .keyword .and] tokens n
      (filterOf blocks) m := by
  intro rest hrest
  rw [filterWithin_succ]
  exact (reads_alternativesWithin h hfuel rest hrest).bind (takes_pure _ _ _)

theorem reads_alternatives {k : Nat} {tokens : List Token}
    {blocks : List (List Filter)} (h : Blocks k tokens n blocks m)
    (hk : k ≤ tokens.length) :
    alternatives.Reads [.keyword .or, .keyword .and] tokens n
      (blocks.map conjunction) m := by
  intro rest hrest
  apply takes_get
  intro c hlength
  rw [hlength, List.length_append]
  exact reads_alternativesWithin h
    (Nat.le_trans hk (Nat.le_add_right ..)) rest hrest

theorem reads_filter {k : Nat} {tokens : List Token} {blocks : List (List Filter)}
    (h : Blocks k tokens n blocks m) (hk : k ≤ tokens.length) :
    filter.Reads [.keyword .or, .keyword .and] tokens n (filterOf blocks) m := by
  intro rest hrest
  rw [filter_eq_map_alternatives]
  exact (reads_alternatives h hk rest hrest).bind (takes_pure _ _ _)

/-- A filter between brackets is a term, one level deeper. -/
theorem termAt_bracket {k : Nat} {tokens : List Token}
    {blocks : List (List Filter)} (h : Blocks k tokens n blocks m) :
    TermAt (k + 1) (.symbol .leftParen :: (tokens ++ [.symbol .rightParen])) n
      (filterOf blocks) m := by
  intro fuel hfuel rest _
  obtain ⟨fuel, rfl⟩ : ∃ j, fuel = j + 1 := ⟨fuel - 1, by omega⟩
  rw [List.cons_append, List.append_assoc]
  apply (takes_eat _ _ _).bind
  apply (reads_filterWithin h (Nat.le_of_succ_le_succ hfuel) _ (by simp)).bind
  exact (takes_expectSymbol _ _ _).bind (takes_pure _ _ _)

/-- Join the last block on the left with the first one on the right. -/
def glue : List (List Filter) → List (List Filter) → List (List Filter)
  | [], blocks => blocks
  | [block], [] => [block]
  | [block], first :: blocks => (block ++ first) :: blocks
  | block :: next :: more, blocks => block :: glue (next :: more) blocks

theorem Terms.blocks {k : Nat} {tokens : List Token} {terms : List Filter}
    (h : Terms k tokens n terms m) : Blocks k tokens n [terms] m := Chain.one h

/-- Blocks behind an OR stay apart from those before it. -/
theorem Blocks.or {k : Nat} {first second : List Token} {l : Nat}
    {blocks others : List (List Filter)} (hfirst : Blocks k first n blocks m)
    (hsecond : Blocks k second m others l) :
    Blocks k (first ++ .keyword .or :: second) n (blocks ++ others) l :=
  Chain.append hfirst hsecond

/-- Terms in front of an AND join the first block behind it. -/
theorem Terms.and_blocks {k : Nat} {first second : List Token} {l : Nat}
    {terms : List Filter} {blocks : List (List Filter)}
    (hfirst : Terms k first n terms m) (hsecond : Blocks k second m blocks l) :
    Blocks k (first ++ .keyword .and :: second) n (glue [terms] blocks) l := by
  cases hsecond with
  | one hterms => exact .one (Chain.append hfirst hterms)
  | more hterms hrest =>
    have hjoined := Chain.more (Chain.append hfirst hterms) hrest
    rwa [List.append_assoc, List.cons_append] at hjoined

/-- An AND joins the blocks on its two sides. -/
theorem Blocks.and {k : Nat} {first second : List Token} {l : Nat}
    {blocks others : List (List Filter)} (hfirst : Blocks k first n blocks m)
    (hsecond : Blocks k second m others l) :
    Blocks k (first ++ .keyword .and :: second) n (glue blocks others) l := by
  induction hfirst with
  | one hterms => exact Terms.and_blocks hterms hsecond
  | more hterms hrest ih =>
    have hjoined := Chain.more hterms (ih hsecond)
    have hglue : ∀ (block : List Filter) (more : List (List Filter)), more ≠ [] →
        glue (block :: more) others = block :: glue more others := by
      intro block more hmore
      cases more with
      | nil => exact absurd rfl hmore
      | cons next more => rfl
    rw [List.append_assoc, List.cons_append, hglue _ _ (Chain.values_ne_nil hrest)]
    exact hjoined

end EntityMapper.Parser
