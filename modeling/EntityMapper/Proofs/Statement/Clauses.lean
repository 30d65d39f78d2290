import EntityMapper.Proofs.Statement.Filters
import EntityMapper.Proofs.Statement.Lexing

/-!
# What the statement parsers read

The clauses of a statement stand one behind the other, and each but the first
few may be missing. A clause that is there begins with a keyword of its own, and
one that is missing is read as nothing as long as its keyword does not come
next. Since the keywords of the clauses differ, a statement is read clause by
clause whichever of them are there.
-/

namespace EntityMapper

namespace Parser

variable {α β : Type}

/-! ## Clauses -/

/-- The tokens are none, or begin with one of `heads`. -/
def HeadIn (heads tokens : List Token) : Prop := ∀ t ∈ tokens.head?, t ∈ heads

theorem headIn_nil (heads : List Token) : HeadIn heads [] := by simp [HeadIn]

theorem headIn_cons {heads : List Token} {t : Token} (h : t ∈ heads)
    (rest : List Token) : HeadIn heads (t :: rest) := by simpa [HeadIn] using h

theorem HeadIn.append {heads others first second : List Token}
    (hfirst : HeadIn heads first) (hsecond : HeadIn others second) :
    HeadIn (heads ++ others) (first ++ second) := by
  intro t ht
  cases first with
  | nil => exact List.mem_append_right heads (hsecond t ht)
  | cons s first => exact List.mem_append_left others (hfirst t ht)

theorem HeadIn.not_mem {heads stops tokens : List Token} (h : HeadIn heads tokens)
    (hdisjoint : ∀ t ∈ heads, t ∉ stops) : ∀ t ∈ tokens.head?, t ∉ stops :=
  fun t ht => hdisjoint t (h t ht)

/-- An optional clause: the parser reads the tokens, which are none or begin
with `head`. -/
structure Clause (p : Parser α) (head : Token) (stops used : List Token)
    (n : Nat) (a : α) (m : Nat) : Prop where
  reads : p.Reads (head :: stops) used n a m
  headIn : HeadIn [head] used

/-- A parser that goes on if its token is there. -/
theorem clause_some {p q : Parser α} {head : Token} {stops used : List Token}
    {n m : Nat} {a : α} (h : p.Reads stops used n a m) :
    Clause (do if ← eat head then p else q) head stops (head :: used) n a m := by
  refine ⟨?_, headIn_cons (List.mem_singleton_self _) used⟩
  intro rest hrest
  apply (takes_eat head _ n).bind
  exact h rest fun t ht hmem => hrest t ht (List.mem_cons_of_mem head hmem)

theorem clause_none {p : Parser α} {head : Token} (stops : List Token) (n : Nat)
    (a : α) : Clause (do if ← eat head then p else pure a) head stops [] n a n := by
  refine ⟨?_, headIn_nil _⟩
  intro rest hrest
  have hne : ∀ t ∈ rest.head?, t ≠ head :=
    fun t ht heq => hrest t ht (by simp [heq])
  exact (takes_eat_none n hne).bind (takes_pure a rest n)

theorem Reads.map {p : Parser α} {stops used : List Token} {n m : Nat} {a : α}
    (h : p.Reads stops used n a m) (f : α → β) :
    (do return f (← p) : Parser β).Reads stops used n (f a) m :=
  fun rest hrest => (h rest hrest).bind (takes_pure _ _ _)

theorem clause_filter {k : Keyword} {used : List Token} {n m : Nat} {f : Filter}
    (h : filter.Reads [.keyword .or, .keyword .and] used n f m) :
    Clause (filterAfter k) (.keyword k) [.keyword .or, .keyword .and]
      (.keyword k :: used) n (some f) m :=
  clause_some (h.map some)

theorem clause_noFilter (k : Keyword) (n : Nat) :
    Clause (filterAfter k) (.keyword k) [.keyword .or, .keyword .and] [] n none n :=
  clause_none _ n none

theorem reads_count {value : Int64} (h : 0 ≤ value.toInt) (n : Nat) :
    expectCount.Reads [] [.int value] n value.toInt.toNat n := by
  intro rest _
  apply takes_next
  intro span
  simp only [if_pos h]
  exact takes_pure _ _ _

theorem clause_count (k : Keyword) (value : Int64) (h : 0 ≤ value.toInt) (n : Nat) :
    Clause (countAfter k) (.keyword k) [] [.keyword k, .int value] n
      (some value.toInt.toNat) n :=
  clause_some ((reads_count h n).map some)

theorem clause_noCount (k : Keyword) (n : Nat) :
    Clause (countAfter k) (.keyword k) [] [] n none n :=
  clause_none [] n none

theorem clause_ttl (value : Int64) (h : 0 ≤ value.toInt) (n : Nat) :
    Clause ttl (.keyword .using) [] [.keyword .using, .keyword .ttl, .int value] n
      (some value.toInt.toNat) n := by
  refine clause_some fun rest hrest => ?_
  exact (takes_expectKeyword _ _ _).bind (((reads_count h n).map some) rest hrest)

theorem clause_noTtl (n : Nat) : Clause ttl (.keyword .using) [] [] n none n :=
  clause_none [] n none

/-! ## Clauses of a query -/

/-- The grouping of a query. -/
def groupColumns : Parser (List String) := do
  if ← eatKeyword .group then
    expectKeyword .by
    columnList
  else pure []

/-- The ordering of a query. -/
def orderItems : Parser (List (String × Direction)) := do
  if ← eatKeyword .order then
    expectKeyword .by
    commaSeparated orderItem
  else pure []

/-- The permission to filter. -/
def filteringAllowed : Parser Bool := do
  if ← eatKeyword .allow then
    expectKeyword .filtering
    pure true
  else pure false

theorem ite_bind {b : Bool} (p q : Parser α) (f : α → Parser β) :
    (if b = true then p else q) >>= f = if b = true then p >>= f else q >>= f := by
  cases b <;> rfl

/-- A query is read clause by clause. -/
theorem select_eq : select = (do
    let projection ← projection
    expectKeyword .from
    let table ← tableName
    let filter ← filterAfter .where
    let groupBy ← groupColumns
    let orderBy ← orderItems
    let limit ← countAfter .limit
    let offset ← countAfter .offset
    let allowFiltering ← filteringAllowed
    return {
      table, projection, filter, groupBy, orderBy, limit, offset,
      allowFiltering }) := by
  simp only [select, groupColumns, orderItems, filteringAllowed,
    bind_assoc, ite_bind]

theorem clause_group {columns : List β} {tokens : β → List Token}
    {names : β → String} (hsome : columns ≠ [])
    (h : ∀ c ∈ columns, Path (tokens c) (names c)) (n : Nat) :
    Clause groupColumns (.keyword .group) [.symbol .comma, .symbol .dot]
      (.keyword .group :: .keyword .by :: Token.commas (columns.map tokens)) n
      (columns.map names) n := by
  refine clause_some fun rest hrest => ?_
  exact (takes_expectKeyword _ _ _).bind (reads_columnList hsome h n rest hrest)

theorem clause_noGroup (n : Nat) :
    Clause groupColumns
      (.keyword .group) [.symbol .comma, .symbol .dot] [] n [] n :=
  clause_none _ n []

/-- The keyword of a direction. -/
def directionToken : Direction → Token
  | .asc => .keyword .asc
  | .desc => .keyword .desc

theorem reads_orderItem {column : List Token} {name : String}
    (h : Path column name) (direction : Direction) (n : Nat) :
    orderItem.Reads [] (column ++ [directionToken direction]) n
      (name, direction) n := by
  intro rest _
  rw [List.append_assoc]
  cases direction with
  | desc =>
    apply (takes_columnName h.column (by simp [directionToken]) _ n).bind
    exact (takes_eat _ _ _).bind (takes_pure _ _ _)
  | asc =>
    apply (takes_columnName h.column (by simp [directionToken]) _ n).bind
    apply (takes_eat_none n (by simp [directionToken])).bind
    have hasc : (discard (eatKeyword .asc)).Takes (.keyword .asc :: rest) n
        () rest n := by
      rw [discard_eq]
      exact (takes_eat _ _ _).bind (takes_pure _ _ _)
    exact hasc.bind (takes_pure _ _ _)

theorem clause_order {orders : List β} {tokens : β → List Token}
    {names : β → String} {direction : β → Direction} (hsome : orders ≠ [])
    (h : ∀ o ∈ orders, Path (tokens o) (names o)) (n : Nat) :
    Clause orderItems (.keyword .order) [.symbol .comma]
      (.keyword .order :: .keyword .by :: Token.commas
          (orders.map fun o => tokens o ++ [directionToken (direction o)]))
      n (orders.map fun o => (names o, direction o)) n := by
  refine clause_some fun rest hrest => ?_
  have hchain : Chain (orderItem.Reads []) (.symbol .comma) (Token.commas
        (orders.map fun o => tokens o ++ [directionToken (direction o)]))
      n (orders.map fun o => (names o, direction o)) n :=
    chain_map hsome (fun o ho n => reads_orderItem (h o ho) (direction o) n) n
  exact (takes_expectKeyword _ _ _).bind
    (reads_separated hchain (by simp) rest hrest)

theorem clause_noOrder (n : Nat) :
    Clause orderItems (.keyword .order) [.symbol .comma] [] n [] n :=
  clause_none _ n []

theorem clause_allow (n : Nat) :
    Clause filteringAllowed
      (.keyword .allow) [] [.keyword .allow, .keyword .filtering] n true n := by
  refine clause_some fun rest _ => ?_
  exact (takes_expectKeyword _ _ _).bind (takes_pure _ _ _)

theorem clause_noAllow (n : Nat) :
    Clause filteringAllowed (.keyword .allow) [] [] n false n :=
  clause_none [] n false

/-! ## Select lists -/

/-- The tokens of a selected column with its label. -/
inductive Selected : List Token → ProjectedColumn → Prop
  | plain {tokens : List Token} {name : String} (h : Path tokens name)
      (hstar : name ≠ "*") : Selected tokens ⟨name, none⟩
  | labelled {tokens : List Token} {name label : String} {t : Token}
      (h : Path tokens name) (hstar : name ≠ "*")
      (hlabel : nameOf? t = some label) :
      Selected (tokens ++ [.keyword .as, t]) ⟨name, some label⟩

theorem reads_projectedColumn {tokens : List Token} {c : ProjectedColumn}
    (h : Selected tokens c) (n : Nat) :
    projectedColumn.Reads [.symbol .dot, .keyword .as] tokens n (some c) n := by
  intro rest hrest
  cases h with
  | plain hpath hstar =>
    have hdot : ∀ t ∈ rest.head?, t ∉ [Token.symbol .dot] := fun t ht hmem =>
      hrest t ht (List.mem_cons.mpr (.inl (List.mem_singleton.mp hmem)))
    have has : ∀ t ∈ rest.head?, t ≠ .keyword .as := fun t ht heq =>
      hrest t ht (by simp [heq])
    apply (reads_columnName hpath.column n rest hdot).bind
    rw [if_neg hstar]
    apply (takes_eat_none n has).bind
    exact (takes_pure none rest n).bind (takes_pure _ rest n)
  | labelled hpath hstar hlabel =>
    rw [List.append_assoc]
    apply (takes_columnName hpath.column (by simp) _ n).bind
    rw [if_neg hstar]
    apply (takes_eat _ _ _).bind
    exact ((takes_expectName hlabel rest n).map some).bind (takes_pure _ rest n)

theorem takes_atCount_none {t s : Token} {rest : List Token} (n : Nat)
    (hs : s ≠ .symbol .leftParen) :
    atCount.Takes (t :: s :: rest) n false (t :: s :: rest) n := by
  intro c htokens hcount
  refine ⟨c, ?_, htokens, hcount⟩
  rcases hc : c.tokens with _ | ⟨first, _ | ⟨second, more⟩⟩
  · simp [hc] at htokens
  · simp [hc] at htokens
  · simp only [hc, List.map_cons, List.cons.injEq] at htokens
    obtain ⟨-, rfl, -⟩ := htokens
    simp [StateT.run, atCount, hc, hs]

theorem takes_atCount (rest : List Token) (n : Nat) :
    atCount.Takes (.keyword .count :: .symbol .leftParen :: rest) n true
      (.keyword .count :: .symbol .leftParen :: rest) n := by
  intro c htokens hcount
  refine ⟨c, ?_, htokens, hcount⟩
  rcases hc : c.tokens with _ | ⟨first, _ | ⟨second, more⟩⟩
  · simp [hc] at htokens
  · simp [hc] at htokens
  · simp only [hc, List.map_cons, List.cons.injEq] at htokens
    obtain ⟨hfirst, hsecond, -⟩ := htokens
    simp [StateT.run, atCount, hc, hfirst, hsecond]

theorem takes_star (rest : List Token) (n : Nat) :
    projection.Takes (.symbol .star :: rest) n .all rest n :=
  (takes_eat _ _ _).bind (takes_pure _ _ _)

theorem takes_countStar (rest : List Token) (n : Nat) :
    projection.Takes (.keyword .count :: .symbol .leftParen :: .symbol .star ::
        .symbol .rightParen :: rest) n .count rest n := by
  apply (takes_eat_none n (by simp)).bind
  apply (takes_atCount _ n).bind
  apply (takes_expectKeyword _ _ _).bind
  apply (takes_expectSymbol _ _ _).bind
  apply (takes_expectSymbol _ _ _).bind
  exact (takes_expectSymbol _ _ _).bind (takes_pure _ _ _)

/-- A selected column begins with a name, and no bracket stands behind it. -/
theorem Selected.exists_first {tokens : List Token} {c : ProjectedColumn}
    (h : Selected tokens c) :
    ∃ t name rest, nameOf? t = some name ∧ tokens = t :: rest ∧
      ∀ s ∈ rest.head?, s ≠ .symbol .leftParen := by
  have hpath {tokens : List Token} {name : String} (h : Path tokens name)
      (more : List Token) (hmore : ∀ s ∈ more.head?, s ≠ .symbol .leftParen) :
      ∃ t first rest, nameOf? t = some first ∧ tokens ++ more = t :: rest ∧
        ∀ s ∈ rest.head?, s ≠ .symbol .leftParen := by
    obtain ⟨t, first, rest, hname, rfl, ⟨rfl, -⟩ | ⟨others, rfl, -⟩⟩ :=
      h.exists_first
    · exact ⟨t, first, more, hname, rfl, hmore⟩
    · exact ⟨t, first, _, hname, rfl, by simp⟩
  cases h with
  | plain h _ => simpa using hpath h [] (by simp)
  | labelled h _ _ => exact hpath h _ (by simp)

theorem takes_columns {columns : List β} {tokens : β → List Token}
    {image : β → ProjectedColumn} (hsome : columns ≠ [])
    (h : ∀ c ∈ columns, Selected (tokens c) (image c))
    (rest : List Token) (n : Nat) :
    projection.Takes (Token.commas (columns.map tokens) ++ .keyword .from :: rest)
      n (.columns (columns.map image)) (.keyword .from :: rest) n := by
  have hchain : Chain (projectedColumn.Reads [.symbol .dot, .keyword .as])
      (.symbol .comma) (Token.commas (columns.map tokens)) n
      (columns.map fun c => some (image c)) n :=
    chain_map hsome (fun c hc n => reads_projectedColumn (h c hc) n) n
  have hlist := reads_separated hchain (by simp) (.keyword .from :: rest) (by simp)
  have hany : (columns.map fun c => some (image c)).any Option.isNone = false := by
    simp [List.any_map, Function.comp_def]
  have hall : (columns.map fun c => some (image c)).filterMap id =
      columns.map image := by
    simp [List.filterMap_map]
  -- The first two tokens decide that this is neither a star nor a count.
  obtain ⟨c, columns, rfl⟩ := List.exists_cons_of_ne_nil hsome
  obtain ⟨t, name, tail, hname, htokens, hparen⟩ :=
    (h c (List.mem_cons_self ..)).exists_first
  have hfollow : ∃ u follow,
      Token.commas ((c :: columns).map tokens) ++ .keyword .from :: rest =
          tokens c ++ u :: follow ∧ u ≠ .symbol .leftParen := by
    cases columns with
    | nil => exact ⟨.keyword .from, rest, by simp, by simp⟩
    | cons d columns =>
      refine ⟨.symbol .comma,
        Token.commas ((d :: columns).map tokens) ++ .keyword .from :: rest, ?_,
        by simp⟩
      simp
  obtain ⟨u, follow, hfollow, hu⟩ := hfollow
  have hfront : ∃ s behind, tokens c ++ u :: follow = t :: s :: behind ∧
      s ≠ .symbol .leftParen := by
    rw [htokens]
    cases tail with
    | nil => exact ⟨u, follow, rfl, hu⟩
    | cons s tail => exact ⟨s, tail ++ u :: follow, rfl, hparen s rfl⟩
  obtain ⟨s, behind, hfront, hs⟩ := hfront
  rw [hfollow, hfront] at hlist ⊢
  have hstar : ∀ u ∈ (t :: s :: behind).head?, u ≠ .symbol .star := by
    simpa using ne_symbol_of_nameOf hname .star
  apply (takes_eat_none n hstar).bind
  apply (takes_atCount_none n hs).bind
  apply hlist.bind
  rw [hany, hall]
  exact takes_pure _ _ _

end Parser

end EntityMapper
