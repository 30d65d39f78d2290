import Mathlib.Data.List.Basic
import EntityMapper.Proofs.Statement.Consumption
import EntityMapper.Proofs.Statement.Refusal

/-!
# The clauses behind a filter

Where the filter of an accepted query ends is decided by what stands behind it,
for every token has to be taken by some clause. The clauses behind a filter have
no values in them but numbers, and no connectors and no closing brackets; a
filter has none of their keywords. So if a text is known to end as filters do,
and what follows it is written as clauses are, then the filter ends just there.
The clauses are found from their keywords in the same way: nothing that stands
in front of the direction of the last ordering limits a query.
-/

namespace EntityMapper

/-- A token that a filter may have and no clause behind it has. -/
def Token.filterOnly : Token → Bool
  | .symbol .param | .symbol .rightParen => true
  | .keyword .null | .keyword .and | .keyword .or => true
  | _ => false

/-- The tokens may stand in a clause behind a filter. -/
def FilterFree (tokens : List Token) : Prop := ∀ t ∈ tokens, t.filterOnly = false

theorem filterFree_nil : FilterFree [] := List.forall_mem_nil _

theorem FilterFree.cons {t : Token} {tokens : List Token}
    (ht : t.filterOnly = false) (h : FilterFree tokens) :
    FilterFree (t :: tokens) := List.forall_mem_cons.mpr ⟨ht, h⟩

theorem FilterFree.append {first second : List Token} (hfirst : FilterFree first)
    (hsecond : FilterFree second) : FilterFree (first ++ second) :=
  List.forall_mem_append.mpr ⟨hfirst, hsecond⟩

theorem Token.not_filterOnly_of_nameOf {t : Token} {name : String}
    (h : Parser.nameOf? t = some name) : t.filterOnly = false := by
  cases t with
  | keyword k => cases k <;> first | rfl | cases h
  | symbol s => cases h
  | _ => rfl

namespace Parser

variable {α β : Type} {n : Nat}

/-! ## What the clauses take -/

theorem ColumnPath.filterFree {tokens : List Token} {name : String}
    (h : ColumnPath tokens name) : FilterFree tokens := by
  induction h with
  | star => exact .cons rfl filterFree_nil
  | last h => exact .cons (Token.not_filterOnly_of_nameOf h) filterFree_nil
  | qualified h _ ih =>
    exact .cons (Token.not_filterOnly_of_nameOf h) (.cons rfl ih)

theorem filterFree_of_chain {item : List Token → Nat → α → Nat → Prop}
    {tokens : List Token} {m : Nat} {values : List α}
    (h : Chain item (.symbol .comma) tokens n values m)
    (hitem : ∀ tokens n a m, item tokens n a m → FilterFree tokens) :
    FilterFree tokens := by
  induction h with
  | one h => exact hitem _ _ _ _ h
  | more h _ ih => exact (hitem _ _ _ _ h).append (.cons rfl ih)

/-- A clause takes nothing, or its keyword and what may stand in a clause. -/
theorem inverts_clause {k : Keyword} {p : Parser α} {a : α}
    {Q : List Token → α → Prop} (h : Inverts [] p Q) :
    Inverts [] (do if ← eatKeyword k then p else pure a : Parser α) fun used b =>
      (used = [] ∧ b = a) ∨ ∃ more, used = .keyword k :: more ∧ Q more b := by
  refine (inverts_eat _).bind ?_
  rintro _ found rfl
  refine inverts_ite ?_ ?_
  · rintro rfl
    exact h.imp fun more b hmore => .inr ⟨more, rfl, hmore⟩
  · rintro rfl
    exact inverts_pure (.inl ⟨rfl, rfl⟩)

theorem inverts_groupColumns : Inverts [] groupColumns fun used columns =>
    (used = [] ∧ columns = []) ∨
        ∃ more, used = .keyword .group :: more ∧ FilterFree more := by
  refine inverts_clause ((inverts_expectKeyword _).bind ?_)
  rintro _ _ rfl
  refine (inverts_columnList).imp fun used names h => ?_
  exact .cons rfl
    (filterFree_of_chain (h 0) fun _ _ _ _ hitem => hitem.1.filterFree)

theorem inverts_orderItem : Inverts [] orderItem fun used _ => FilterFree used := by
  refine (inverts_columnName).bind fun column name hcolumn => ?_
  refine (inverts_eat _).bind ?_
  rintro _ down rfl
  refine inverts_ite ?_ ?_
  · rintro rfl
    exact inverts_pure (hcolumn.filterFree.append (.cons rfl filterFree_nil))
  · rintro rfl
    rw [discard_eq, bind_assoc]
    refine (inverts_eat _).bind ?_
    rintro _ up rfl
    refine inverts_pure (hcolumn.filterFree.append ?_)
    cases up with
    | true => exact .cons rfl filterFree_nil
    | false => exact filterFree_nil

theorem inverts_orderItems : Inverts [] orderItems fun used items =>
    (used = [] ∧ items = []) ∨
        ∃ more, used = .keyword .order :: more ∧ FilterFree more := by
  refine inverts_clause ((inverts_expectKeyword _).bind ?_)
  rintro _ _ rfl
  have hitem : Inverts [] orderItem fun used a =>
      ∃ b : String × Direction, a = id b ∧ True ∧ ∀ _ : Nat, FilterFree used :=
    (inverts_orderItem).imp fun used a h => ⟨a, rfl, trivial, fun _ => h⟩
  have hitems : Inverts [] (separated (.symbol .comma) orderItem) fun used values =>
      ∃ items, values = items.map id ∧ (∀ b ∈ items, True) ∧ ∀ n, Chain
          (fun used _ _ _ => FilterFree used) (.symbol .comma) used n items n :=
    inverts_separated hitem
  refine hitems.imp ?_
  rintro used _ ⟨items, -, -, hchain⟩
  exact .cons rfl (filterFree_of_chain (hchain 0) fun _ _ _ _ => id)

theorem inverts_expectCount :
    Inverts [] expectCount fun used _ => ∃ value, used = [.int value] := by
  refine (inverts_next).bind ?_
  rintro _ ⟨t, span⟩ ⟨rfl, -⟩
  dsimp only
  split
  · next value =>
    split
    · exact inverts_pure ⟨value, rfl⟩
    · exact inverts_fail _ _ _
  · exact inverts_fail _ _ _

theorem inverts_countAfter (k : Keyword) :
    Inverts [] (countAfter k) fun used count =>
    (used = [] ∧ count = none) ∨
      ∃ more, used = .keyword k :: more ∧ ∃ value, more = [.int value] := by
  refine inverts_clause ((inverts_expectCount).bind ?_)
  rintro _ count ⟨value, rfl⟩
  exact inverts_pure ⟨value, rfl⟩

theorem inverts_filteringAllowed : Inverts [] filteringAllowed fun used allowed =>
    (used = [] ∧ allowed = false) ∨
      ∃ more, used = .keyword .allow :: more ∧ more = [.keyword .filtering] := by
  refine inverts_clause ((inverts_expectKeyword _).bind ?_)
  rintro _ _ rfl
  exact inverts_pure rfl

/-! ## All clauses together -/

/-- The clauses of a query behind its filter. -/
def clauses : Parser (List String × List
    (String × Direction) × Option Nat × Option Nat × Bool) := do
  let groupBy ← groupColumns
  let orderBy ← orderItems
  let limit ← countAfter .limit
  let offset ← countAfter .offset
  let allowFiltering ← filteringAllowed
  return (groupBy, orderBy, limit, offset, allowFiltering)

theorem select_eq_clauses : select = (do
    let projection ← projection
    expectKeyword .from
    let table ← tableName
    let filter ← filterAfter .where
    let (groupBy, orderBy, limit, offset, allowFiltering) ← clauses
    return {
      table, projection, filter, groupBy, orderBy, limit, offset,
      allowFiltering }) := by
  simp only [select_eq, clauses, bind_assoc, pure_bind]

/-- A token of the clauses that have no contents. -/
def endTokens : List Token :=
  [.keyword .allow, .keyword .filtering, .symbol .semicolon]

/-- The tokens of the clauses of a query with the given grouping, limit and
offset, and of the end of its command. -/
structure Trailing (groupBy : List String) (limit offset : Option Nat)
    (tokens : List Token) : Prop where
  split : ∃ groups orders limits offsets ends,
    tokens = groups ++ (orders ++ (limits ++ (offsets ++ ends))) ∧
      ((groups = [] ∧ groupBy = []) ∨
        ∃ more, groups = .keyword .group :: more ∧ FilterFree more) ∧
      (orders = [] ∨ ∃ more, orders = .keyword .order :: more ∧ FilterFree more) ∧
      ((limits = [] ∧ limit = none) ∨
        ∃ value, limits = [.keyword .limit, .int value]) ∧
      ((offsets = [] ∧ offset = none) ∨
        ∃ value, offsets = [.keyword .offset, .int value]) ∧ ends ⊆ endTokens

theorem inverts_clauses : Inverts [] clauses fun used result =>
    Trailing result.1 result.2.2.1 result.2.2.2.1 used := by
  refine (inverts_groupColumns).bind fun groups groupBy hgroups => ?_
  refine (inverts_orderItems).bind fun orders orderBy horders => ?_
  refine (inverts_countAfter .limit).bind fun limits limit hlimits => ?_
  refine (inverts_countAfter .offset).bind fun offsets offset hoffsets => ?_
  refine (inverts_filteringAllowed).bind fun ends allowFiltering hends => ?_
  refine inverts_pure ⟨groups, orders, limits, offsets, ends, by simp, hgroups,
    ?_, ?_, ?_, ?_⟩
  · exact horders.imp And.left id
  · exact hlimits.imp id fun ⟨more, hmore, value, hvalue⟩ => ⟨value, hvalue ▸ hmore⟩
  · exact hoffsets.imp id
      fun ⟨more, hmore, value, hvalue⟩ => ⟨value, hvalue ▸ hmore⟩
  · rcases hends with ⟨rfl, -⟩ | ⟨_, rfl, rfl⟩ <;> simp [endTokens]

theorem inverts_finish : Inverts [] finish fun used _ => used ⊆ endTokens := by
  have hdiscard :
      Inverts [] (discard (eatSymbol .semicolon) : Parser PUnit) fun used _ =>
      used ⊆ endTokens := by
    rw [discard_eq]
    refine (inverts_eat _).bind ?_
    rintro _ found rfl
    refine inverts_pure ?_
    cases found <;> simp [endTokens]
  refine hdiscard.bind fun used _ hused => inverts_get fun c => ?_
  split
  · exact inverts_pure (by rwa [List.append_nil])
  · exact inverts_fail _ _ _

section Trailing

variable {groupBy : List String} {limit offset : Option Nat} {tokens : List Token}

theorem Trailing.append (h : Trailing groupBy limit offset tokens)
    {more : List Token} (hmore : more ⊆ endTokens) :
    Trailing groupBy limit offset (tokens ++ more) := by
  obtain ⟨groups, orders, limits, offsets, ends, rfl, hgroups, horders, hlimits,
      hoffsets, hends⟩ := h
  exact ⟨groups, orders, limits, offsets, ends ++ more, by simp, hgroups,
    horders, hlimits, hoffsets, List.append_subset.mpr ⟨hends, hmore⟩⟩

theorem filterFree_of_subset {ends : List Token} (h : ends ⊆ endTokens) :
    FilterFree ends := by
  intro t ht
  have hmem := h ht
  simp only [endTokens, List.mem_cons, List.not_mem_nil, or_false] at hmem
  obtain rfl | rfl | rfl := hmem <;> rfl

theorem Trailing.filterFree (h : Trailing groupBy limit offset tokens) :
    FilterFree tokens := by
  obtain ⟨groups, orders, limits, offsets, ends, rfl, hgroups, horders, hlimits,
      hoffsets, hends⟩ := h
  have hgroups : FilterFree groups := by
    rcases hgroups with ⟨rfl, -⟩ | ⟨more, rfl, hmore⟩
    · exact filterFree_nil
    · exact .cons rfl hmore
  have horders : FilterFree orders := by
    rcases horders with rfl | ⟨more, rfl, hmore⟩
    · exact filterFree_nil
    · exact .cons rfl hmore
  have hcount {k : Keyword} {tokens : List Token} {count : Option Nat}
      (hk : (Token.keyword k).filterOnly = false)
      (h : (tokens = [] ∧ count = none) ∨
        ∃ value, tokens = [.keyword k, .int value]) : FilterFree tokens := by
    rcases h with ⟨rfl, -⟩ | ⟨value, rfl⟩
    · exact filterFree_nil
    · exact .cons hk (.cons rfl filterFree_nil)
  exact hgroups.append (horders.append ((hcount rfl hlimits).append
    ((hcount rfl hoffsets).append (filterFree_of_subset hends))))

/-- The clauses begin with the keyword of one that has contents, or none of them
has. -/
theorem Trailing.head (h : Trailing groupBy limit offset tokens) :
    tokens ⊆ endTokens ∨ ∃ t ∈ tokens.head?, t.headsClause = true := by
  obtain ⟨groups, orders, limits, offsets, ends, rfl, hgroups, horders, hlimits,
      hoffsets, hends⟩ := h
  rcases hgroups with ⟨rfl, -⟩ | ⟨_, rfl, -⟩
  · rcases horders with rfl | ⟨_, rfl, -⟩
    · rcases hlimits with ⟨rfl, -⟩ | ⟨_, rfl⟩
      · rcases hoffsets with ⟨rfl, -⟩ | ⟨_, rfl⟩
        · exact .inl hends
        · exact .inr ⟨_, rfl, rfl⟩
      · exact .inr ⟨_, rfl, rfl⟩
    · exact .inr ⟨_, rfl, rfl⟩
  · exact .inr ⟨_, rfl, rfl⟩

/-! ## What is written behind a filter -/

/-- The permission to filter, if it is given. -/
def allowTokens (allowed : Bool) : List Token :=
  if allowed then [.keyword .allow, .keyword .filtering] else []

theorem allowTokens_subset (allowed : Bool) : allowTokens allowed ⊆ endTokens := by
  cases allowed <;> simp [allowTokens, endTokens]

theorem clause_allowed (allowed : Bool) (n : Nat) :
    Clause filteringAllowed (.keyword .allow) []
      (allowTokens allowed) n allowed n := by
  cases allowed with
  | true => exact clause_allow n
  | false => exact clause_noAllow n

/-- What is written behind the filter of a query without a limit: perhaps an
ordering, which ends in a direction whatever its columns are, and perhaps the
permission to filter. -/
inductive WrittenEnd (allowed : Bool) : List Token → Prop
  | plain : WrittenEnd allowed (allowTokens allowed)
  | ordered (columns : List Token) (direction : Direction) :
      WrittenEnd allowed (.keyword .order ::
        (columns ++ directionToken direction :: allowTokens allowed))

variable {allowed : Bool}

theorem WrittenEnd.headIn (h : WrittenEnd allowed tokens) :
    HeadIn [.keyword .order, .keyword .allow] tokens := by
  cases h with
  | plain => cases allowed <;> simp [HeadIn, allowTokens]
  | ordered => exact headIn_cons (by simp) _

/-- A part of the end that does not hold a direction lies behind the last one. -/
theorem WrittenEnd.subset_allowTokens {front late : List Token}
    (h : WrittenEnd allowed (front ++ late))
    (hlate : ∀ direction, directionToken direction ∉ late) :
    late ⊆ allowTokens allowed := by
  generalize htokens : front ++ late = tokens at h
  cases h with
  | plain => exact htokens ▸ List.subset_append_right front late
  | ordered columns direction =>
    rw [← List.cons_append, List.append_eq_append_iff] at htokens
    obtain ⟨between, -, rfl⟩ | ⟨between, -, hsame⟩ := htokens
    · exact absurd (by simp) (hlate direction)
    · cases between with
      | nil =>
        exact absurd (by rw [← List.nil_append late, ← hsame]; simp)
          (hlate direction)
      | cons t between =>
        rw [(List.cons.inj hsame).2]
        exact List.subset_append_right between late

/-- Nothing that is written in front of the last direction groups or limits a
query. -/
theorem Trailing.eq_none (h : Trailing groupBy limit offset tokens)
    (hend : WrittenEnd allowed tokens) :
    groupBy = [] ∧ limit = none ∧ offset = none := by
  obtain ⟨groups, orders, limits, offsets, ends, rfl, hgroups, -, hlimits,
      hoffsets, hends⟩ := h
  have hdirection (direction : Direction) :
      directionToken direction ∉ limits ++ (offsets ++ ends) := by
    have hnot : directionToken direction ∉ ends := fun hmem => by
      have hend := hends hmem
      cases direction <;> simp [directionToken, endTokens] at hend
    rcases hlimits with ⟨rfl, -⟩ | ⟨value, rfl⟩ <;>
      rcases hoffsets with ⟨rfl, -⟩ | ⟨value, rfl⟩ <;>
      cases direction <;> simpa [directionToken] using hnot
  have hlate : limits ++ (offsets ++ ends) ⊆ allowTokens allowed := by
    rw [← List.append_assoc] at hend
    exact hend.subset_allowTokens hdirection
  have hnone {k : Keyword} {more : List Token} {count : Option Nat}
      (hk : .keyword k ∉ endTokens) (hmore : more ⊆ allowTokens allowed)
      (h : (more = [] ∧ count = none) ∨ ∃ value, more = [.keyword k, .int value]) :
      count = none := by
    rcases h with ⟨-, hcount⟩ | ⟨value, rfl⟩
    · exact hcount
    · exact absurd (allowTokens_subset allowed (hmore (List.mem_cons_self ..))) hk
  have hlimit := List.append_subset.mp hlate
  refine ⟨?_, hnone (by simp [endTokens]) hlimit.1 hlimits,
    hnone (by simp [endTokens]) (List.append_subset.mp hlimit.2).1 hoffsets⟩
  rcases hgroups with ⟨-, hgroup⟩ | ⟨more, rfl, -⟩
  · exact hgroup
  · exact absurd (hend.headIn _ rfl) (by simp)

/-! ## Where the filter ends -/

/-- A text that ends as filters do: with a token that only filters have, or with
a filter of its own behind such a token. -/
def EndsAsFilter (tokens : List Token) : Prop :=
  ∃ front own, tokens = front ++ own ∧ (∀ t ∈ front.getLast?, t.filterOnly = true) ∧
    (own = [] ∨ Sealed own)

/-- A filter takes nothing that is written behind it. -/
theorem WrittenEnd.not_sealed {written more rest : List Token}
    (hend : WrittenEnd allowed (more ++ rest)) (hsome : more ≠ []) :
    ¬ Sealed (written ++ more) := by
  rintro ⟨hclauseless, t, ht, hlast⟩
  generalize htokens : more ++ rest = tail at hend
  rw [List.getLast?_append_of_ne_nil _ hsome] at ht
  cases hend with
  | plain =>
    have hmem : t ∈ endTokens := allowTokens_subset allowed
      (htokens ▸ List.mem_append_left rest (List.mem_of_getLast? ht))
    simp only [endTokens, List.mem_cons, List.not_mem_nil, or_false] at hmem
    obtain rfl | rfl | rfl := hmem <;> cases hlast
  | ordered columns direction =>
    obtain ⟨first, more, rfl⟩ := List.exists_cons_of_ne_nil hsome
    obtain rfl := (List.cons.inj htokens).1
    have horder := hclauseless (.keyword .order) (by simp)
    cases horder

/-- The clauses take nothing of a text that ends as filters do. -/
theorem Trailing.not_endsAsFilter {used more tail : List Token}
    (h : Trailing groupBy limit offset (more ++ tail)) (hsome : more ≠ []) :
    ¬ EndsAsFilter (used ++ more) := by
  rintro ⟨front, own, hsame, hfront, hown⟩
  have hfree : FilterFree more :=
    fun t ht => h.filterFree t (List.mem_append_left tail ht)
  rw [List.append_eq_append_iff] at hsame
  have hclosing (hbehind : ∃ x, own = x ++ more) : False := by
    obtain ⟨x, rfl⟩ := hbehind
    rcases hown with hnil | ⟨hclauseless, t, ht, hlast⟩
    · exact hsome (List.append_eq_nil_iff.mp hnil).2
    rw [List.getLast?_append_of_ne_nil _ hsome] at ht
    rcases h.head with hsub | ⟨s, hs, hhead⟩
    · have hmem := hsub (List.mem_append_left tail (List.mem_of_getLast? ht))
      simp only [endTokens, List.mem_cons, List.not_mem_nil, or_false] at hmem
      obtain rfl | rfl | rfl := hmem <;> cases hlast
    · obtain ⟨first, more, rfl⟩ := List.exists_cons_of_ne_nil hsome
      obtain rfl := Option.some.inj hs
      rw [hclauseless first (by simp)] at hhead
      cases hhead
  obtain ⟨x, rfl, rfl⟩ | ⟨x, rfl, rfl⟩ := hsame
  · obtain rfl | ⟨x, t, rfl⟩ := List.eq_nil_or_concat' x
    · exact hclosing ⟨[], rfl⟩
    · have ht := hfront t (by simp)
      rw [hfree t (by simp)] at ht
      cases ht
  · exact hclosing ⟨x, rfl⟩

/-- The filter of an accepted query ends where the text of its conditions does. -/
theorem Trailing.filter_eq {written tail used rest : List Token}
    (h : Trailing groupBy limit offset rest) (hused : Sealed used)
    (hwritten : EndsAsFilter written) (hend : WrittenEnd allowed tail)
    (hsame : written ++ tail = used ++ rest) : used = written ∧ rest = tail := by
  rw [List.append_eq_append_iff] at hsame
  obtain ⟨more, rfl, rfl⟩ | ⟨more, rfl, rfl⟩ := hsame
  · by_cases hmore : more = []
    · exact ⟨by simp [hmore], by simp [hmore]⟩
    · exact absurd hused (hend.not_sealed hmore)
  · by_cases hmore : more = []
    · exact ⟨by simp [hmore], by simp [hmore]⟩
    · exact absurd hwritten (h.not_endsAsFilter hmore)

end Trailing

/-! ## Whole queries -/

/-- A parser that takes known tokens is passed over. -/
theorem Takes.resume {p : Parser α} {f : α → Parser β}
    {before after : List Token} {n m : Nat} {a : α} {b : β} {c e : Cursor}
    (h : p.Takes before n a after m) (hahead : c.ahead = before)
    (hcount : c.placeholders = n) (hrun : (p >>= f).run c = .ok (b, e)) :
    ∃ d : Cursor, d.ahead = after ∧ d.placeholders = m ∧
      (f a).run d = .ok (b, e) := by
  obtain ⟨d, hfirst, hafter, hm⟩ := h c hahead hcount
  rw [StateT.run_bind, hfirst] at hrun
  exact ⟨d, hafter, hm, hrun⟩

theorem unnumbered_clauses : clauses.Unnumbered := by
  refine (unnumbered_groupColumns).bind
    fun _ => (unnumbered_orderItems).bind fun _ => ?_
  refine (unnumbered_countAfter _).bind
    fun _ => (unnumbered_countAfter _).bind fun _ => ?_
  exact (unnumbered_filteringAllowed).bind fun _ => unnumbered_pure _

/-- The clauses behind a filter take all the tokens that it leaves, if the
command ends there. -/
theorem trailing_of_run {c d e : Cursor} {u : Unit}
    {result : List String × List (String × Direction) × Option
      Nat × Option Nat × Bool} (hclauses : clauses.run c = .ok (result, d))
    (hfinish : finish.run d = .ok (u, e)) :
    Trailing result.1 result.2.2.1 result.2.2.2.1 c.ahead ∧
      e.placeholders = c.placeholders := by
  obtain ⟨used, hused, htrailing, hcount⟩ :=
    consumes_of_inverts inverts_clauses unnumbered_clauses c _ d rfl hclauses
  obtain ⟨more, hmore, hends, hend⟩ :=
    consumes_of_inverts inverts_finish unnumbered_finish d _ e rfl hfinish
  refine ⟨?_, by rw [← hend, ← hcount]⟩
  have hahead : c.ahead = used ++ more := by
    calc
      c.ahead = used ++ (more ++ e.ahead) := by rw [hused, hmore]
      _ = used ++ more := by
        rw [Cursor.ahead, tokens_of_finish hfinish, List.map_nil, List.append_nil]
  rw [hahead]
  exact htrailing.append hends

/-- The filter clause as it is written: none, or a text that ends as filters do. -/
def WrittenWhere (tokens : List Token) : Prop :=
  tokens = [] ∨
    ∃ written, tokens = .keyword .where :: written ∧ EndsAsFilter written

theorem WrittenWhere.headIn {tokens : List Token} (h : WrittenWhere tokens) :
    HeadIn [.keyword .where] tokens := by
  obtain rfl | ⟨written, rfl, -⟩ := h
  · exact headIn_nil _
  · exact headIn_cons (List.mem_singleton_self _) _

/-- A filter clause in front of what is written behind filters is read alone, in
this command and in every other. -/
theorem filter_of_run {wheres tail : List Token} {allowed : Bool} {n : Nat}
    {c d e f : Cursor} {filter : Option Filter} {u : Unit}
    {result : List String × List (String × Direction) × Option Nat × Option Nat
      × Bool} (hwheres : WrittenWhere wheres) (htail : WrittenEnd allowed tail)
    (hahead : c.ahead = wheres ++ tail) (hcount : c.placeholders = n)
    (hfilter : (filterAfter .where).run c = .ok (filter, d))
    (hclauses : clauses.run d = .ok (result, e))
    (hfinish : finish.run e = .ok (u, f)) :
    Clause (filterAfter .where) (.keyword .where) [.keyword .or, .keyword .and]
        wheres n filter f.placeholders ∧
      result.1 = [] ∧ result.2.2.1 = none ∧ result.2.2.2.1 = none := by
  obtain ⟨htrailing, hplaceholders⟩ := trailing_of_run hclauses hfinish
  obtain rfl | ⟨written, rfl, hwritten⟩ := hwheres
  · have hnone : ∀ t ∈ tail.head?, t ≠ .keyword .where := by
      intro t ht heq
      have hhead := htail.headIn t ht
      simp [heq] at hhead
    have htakes : (filterAfter .where).Takes tail n none tail n :=
      (takes_eat_none n hnone).bind (takes_pure _ _ _)
    obtain ⟨b, hrun, hb, hbcount⟩ := htakes c hahead hcount
    obtain ⟨rfl, rfl⟩ := Prod.mk.inj (Except.ok.inj (hfilter.symm.trans hrun))
    rw [← Cursor.ahead] at hb
    rw [hb] at htrailing
    rw [hplaceholders, hbcount]
    exact ⟨clause_noFilter _ n, htrailing.eq_none htail⟩
  · obtain ⟨b, hb, hbcount, hrest⟩ :=
      (takes_eat (.keyword .where) (written ++ tail) n).resume hahead hcount hfilter
    obtain ⟨g, b', hrun, hpure⟩ := exists_of_run_bind hrest
    obtain ⟨rfl, rfl⟩ := Prod.mk.inj (Except.ok.inj hpure)
    obtain ⟨used, hused, hreads, hsealed⟩ := consumes_filter b g _ hbcount hrun
    obtain ⟨rfl, hleft⟩ :=
      htrailing.filter_eq hsealed hwritten htail (hb.symm.trans hused)
    rw [hleft] at htrailing
    rw [hplaceholders]
    exact ⟨clause_filter hreads, htrailing.eq_none htail⟩

/-- The tokens of a query that selects every column, up to its table. -/
def selectAllTokens (table : List Token) : List Token :=
  .keyword .select :: .symbol .star :: .keyword .from :: table

/-- The tokens of a query that counts its rows, up to its table. -/
def countTokens (table : List Token) : List Token :=
  .keyword .select :: .keyword .count :: .symbol .leftParen :: .symbol .star ::
    .symbol .rightParen :: .keyword .from :: table

/-- Nothing is taken in front of a token that heads no clause. -/
theorem leaves_clause_none {before : List Token} {k : Keyword} {p : Parser α}
    {a : α} (h : before.head? ≠ some (.keyword k)) :
    (do if ← eatKeyword k then p else pure a : Parser α).Leaves before
      fun _ left => left = before := by
  refine (leaves_eat_none h).bind ?_
  rintro found left ⟨rfl, rfl⟩
  exact leaves_pure rfl

theorem leaves_clauses_none {before : List Token}
    (h : before.head? = some (.symbol .dot)) :
    clauses.Leaves before fun _ left => left = before := by
  have hnone (k : Keyword) : before.head? ≠ some (.keyword k) := by simp [h]
  refine (leaves_clause_none (hnone .group)).bind ?_
  rintro _ _ rfl
  refine (leaves_clause_none (hnone .order)).bind ?_
  rintro _ _ rfl
  refine (leaves_clause_none (hnone .limit)).bind ?_
  rintro _ _ rfl
  refine (leaves_clause_none (hnone .offset)).bind ?_
  rintro _ _ rfl
  refine (leaves_clause_none (hnone .allow)).bind ?_
  rintro _ _ rfl
  exact leaves_pure rfl

/-- A query whose table name stops in front of a dot is refused. -/
theorem leaves_selectAll {P : Prop} {table rest : List Token}
    (htable : tableName.Leaves (table ++ rest)
      fun _ => Halts P rest [.symbol .dot]) :
    statement.Leaves (selectAllTokens table ++ rest) fun _ left =>
      P ∨ ∃ t ∈ [Token.symbol .dot], left.head? = some t := by
  have hprojection :
      projection.Leaves (.symbol .star :: .keyword .from :: (table ++ rest))
        fun _ left => left = .keyword .from :: (table ++ rest) :=
    leaves_of_takes fun n => ⟨_, n, takes_star _ n⟩
  have hselect : select.Leaves
      (.symbol .star :: .keyword .from :: (table ++ rest)) fun _ left =>
      P ∨ ∃ t ∈ [Token.symbol .dot], left.head? = some t := by
    rw [select_eq_clauses]
    refine hprojection.bind ?_
    rintro _ _ rfl
    refine (leaves_expectKeyword _).bind ?_
    rintro _ _ ⟨⟩
    refine htable.bind ?_
    rintro _ left (⟨hP, -⟩ | ⟨t, ht, hhead⟩)
    · exact fun _ _ _ _ _ => .inl hP
    obtain rfl := List.mem_singleton.mp ht
    refine (leaves_filterAfter_none (by simp [hhead])).bind ?_
    rintro _ _ rfl
    refine (leaves_clauses_none hhead).bind ?_
    rintro _ _ rfl
    exact leaves_pure (.inr ⟨_, ht, hhead⟩)
  refine (leaves_next).bind ?_
  rintro ⟨_, _⟩ _ ⟨⟩
  exact hselect.then_pure _

end Parser

/-- A query that selects every column is accepted with the filter that its
conditions are read as, without grouping and without limits, and so is the query
that counts its rows. -/
theorem ParsedCommand.count_of_parse {text counting : String}
    {table wheres tail : List Token} {name : String} {allowed : Bool}
    {parsed : ParsedCommand}
    (hlexes : Token.Lexes text.toList
      (Parser.selectAllTokens table ++ (wheres ++ tail)))
    (hcounting : Token.Lexes counting.toList
      (Parser.countTokens table ++ (wheres ++ Parser.allowTokens allowed)))
    (htable : Parser.Path table name) (hwheres : Parser.WrittenWhere wheres)
    (htail : Parser.WrittenEnd allowed tail)
    (hparse : ParsedCommand.parse text = .ok parsed) :
    ∃ filter orderBy allowFiltering, parsed.statement =
        .select ⟨name, .all, filter, [], orderBy, none, none, allowFiltering⟩ ∧
      ParsedCommand.parse counting =
        .ok ⟨.select ⟨name, .count, filter, [], [], none, none, allowed⟩,
          parsed.placeholders⟩ := by
  obtain ⟨spanned, hread, hahead⟩ := Token.read_eq_ok_iff.mpr hlexes
  obtain ⟨_, d, hsame, hcommand⟩ := exists_of_parse hparse
  obtain rfl := Except.ok.inj (hread.symm.trans hsame)
  obtain ⟨statement, b, hstatement, hrest⟩ := Parser.exists_of_run_bind hcommand
  obtain ⟨u, e, hfinish, hend⟩ := Parser.exists_of_run_bind hrest
  obtain ⟨rfl, rfl⟩ := Prod.mk.inj (Except.ok.inj hend)
  -- The head of the query, up to the name of its table.
  obtain ⟨⟨token, span⟩, c, hnext, hquery⟩ := Parser.exists_of_run_bind hstatement
  obtain ⟨_, hused, rfl, hcount⟩ := Parser.consumes_next _ _ c rfl hnext
  obtain ⟨rfl, hc⟩ := List.cons.inj (hahead.symm.trans hused)
  obtain ⟨s, b', hselect, hpure⟩ := Parser.exists_of_run_bind hquery
  obtain ⟨rfl, rfl⟩ := Prod.mk.inj (Except.ok.inj hpure)
  rw [Parser.select_eq_clauses] at hselect
  obtain ⟨c₁, h₁, hcount₁, hrun₁⟩ :=
    (Parser.takes_star _ 0).resume hc.symm hcount.symm hselect
  obtain ⟨c₂, h₂, hcount₂, hrun₂⟩ :=
    (Parser.takes_expectKeyword .from _ 0).resume h₁ hcount₁ hrun₁
  have hdot : ∀ t ∈ (wheres ++ tail).head?, t ∉ [Token.symbol .dot] :=
    (hwheres.headIn.append htail.headIn).not_mem (by simp)
  obtain ⟨c₃, h₃, hcount₃, hrun₃⟩ :=
    ((Parser.reads_tableName htable 0).takes hdot).resume h₂ hcount₂ hrun₂
  -- The filter and the clauses behind it.
  obtain ⟨filter, c₄, hfilter, hrun₄⟩ := Parser.exists_of_run_bind hrun₃
  obtain ⟨⟨groupBy, orderBy, limit, offset, allowFiltering⟩, c₅, hclauses, hdone⟩ :=
    Parser.exists_of_run_bind hrun₄
  obtain ⟨rfl, rfl⟩ := Prod.mk.inj (Except.ok.inj hdone)
  obtain ⟨hclause, hnone⟩ :=
    Parser.filter_of_run hwheres htail h₃ hcount₃ hfilter hclauses hfinish
  obtain ⟨rfl, rfl, rfl⟩ := hnone
  refine ⟨filter, orderBy, allowFiltering, rfl, ?_⟩
  have hstar (rest : List Token) : Parser.projection.Takes
      ([.keyword .count, .symbol .leftParen, .symbol .star, .symbol .rightParen] ++
        .keyword .from :: rest) 0 .count (.keyword .from :: rest) 0 :=
    Parser.takes_countStar _ 0
  have hcounts := Parser.takes_select hstar htable hclause (Parser.clause_noGroup _)
    (Parser.clause_noOrder _) (Parser.clause_noCount .limit _)
    (Parser.clause_noCount .offset _) (Parser.clause_allowed allowed _)
  exact parse_eq_ok hcounting (Parser.takes_statement_select hcounts)

end EntityMapper
