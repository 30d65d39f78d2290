import EntityMapper.Statement.Parser

/-!
# What the parsers read

Spans and the size of a command only matter to diagnostics, so what a parser
does when it succeeds is told by the tokens alone: it takes tokens with some
placeholders met before them, gives a result, and leaves tokens with more
placeholders met. A parser *reads* a list of tokens if it takes just these
whatever comes behind, as long as that does not begin with one of the tokens it
would have gone on with.
-/

namespace EntityMapper

/-- The tokens of an operator. -/
def Operator.tokens : Operator → List Token
  | .eq => [.symbol .eq]
  | .ne => [.symbol .ne]
  | .lt => [.symbol .lt]
  | .le => [.symbol .le]
  | .gt => [.symbol .gt]
  | .ge => [.symbol .ge]
  | .like => [.keyword .like]
  | .contains => [.keyword .contains]
  | .containsKey => [.keyword .contains, .keyword .key]

def Connector.token : Connector → Token
  | .and => .keyword .and
  | .or => .keyword .or

/-- Items with commas between them. -/
def Token.commas (items : List (List Token)) : List Token :=
  [.symbol .comma].intercalate items

@[simp]
theorem Token.commas_singleton (item : List Token) :
    Token.commas [item] = item := by
  simp [Token.commas, List.intercalate]

@[simp]
theorem Token.commas_cons_cons (item next : List Token)
    (items : List (List Token)) :
    Token.commas (item :: next :: items) =
      item ++ .symbol .comma :: Token.commas (next :: items) := by
  simp [Token.commas, List.intercalate]

/-- Placeholders with commas between them, one for each item of a list. -/
def Token.placeholders {α : Type} (items : List α) : List Token :=
  commas (items.map fun _ => [.symbol .param])

namespace Parser

variable {α β : Type}

/-- From the tokens `before`, with `n` placeholders met, the parser gives `a`
and leaves the tokens `after`, with `m` placeholders met. -/
def Takes (p : Parser α) (before : List Token) (n : Nat) (a : α)
    (after : List Token) (m : Nat) : Prop :=
  ∀ c : Cursor, c.tokens.map SpannedToken.token = before → c.placeholders = n →
    ∃ d : Cursor, p.run c = .ok (a, d) ∧ d.tokens.map SpannedToken.token = after ∧
      d.placeholders = m

/-- The parser takes exactly the given tokens, unless one of `stops` comes
behind them. -/
def Reads (p : Parser α) (stops used : List Token) (n : Nat) (a : α) (m : Nat) :
    Prop :=
  ∀ rest : List Token, (∀ t ∈ rest.head?, t ∉ stops) →
    p.Takes (used ++ rest) n a rest m

/-! ## Steps -/

/-- Two steps that succeed one after the other succeed each on its own. -/
theorem exists_of_run_bind {p : Parser α} {f : α → Parser β} {b : β} {c e : Cursor}
    (h : (p >>= f).run c = .ok (b, e)) :
    ∃ a d, p.run c = .ok (a, d) ∧ (f a).run d = .ok (b, e) := by
  rw [StateT.run_bind] at h
  cases hp : p.run c with
  | error fault =>
    rw [hp] at h
    cases h
  | ok result =>
    rw [hp] at h
    exact ⟨result.1, result.2, rfl, h⟩

theorem takes_pure (a : α) (tokens : List Token) (n : Nat) :
    (pure a : Parser α).Takes tokens n a tokens n :=
  fun c htokens hcount => ⟨c, rfl, htokens, hcount⟩

theorem Takes.bind {p : Parser α} {f : α → Parser β}
    {before between after : List Token} {n m k : Nat} {a : α} {b : β}
    (hp : p.Takes before n a between m) (hf : (f a).Takes between m b after k) :
    (p >>= f).Takes before n b after k := by
  intro c htokens hcount
  obtain ⟨d, hrun, hbetween, hm⟩ := hp c htokens hcount
  obtain ⟨e, hrest, hafter, hk⟩ := hf d hbetween hm
  refine ⟨e, ?_, hafter, hk⟩
  rw [StateT.run_bind, hrun]
  exact hrest

theorem Takes.map {p : Parser α} {before after : List Token} {n m : Nat} {a : α}
    (f : α → β) (hp : p.Takes before n a after m) :
    (f <$> p).Takes before n (f a) after m := by
  rw [map_eq_pure_bind]
  exact hp.bind (takes_pure (f a) after m)

/-- A parser that looks at the tokens ahead of it. -/
theorem takes_get {f : Cursor → Parser β} {before after : List Token}
    {n m : Nat} {b : β}
    (h : ∀ c : Cursor, c.tokens.length = before.length →
      (f c).Takes before n b after m) : (get >>= f).Takes before n b after m := by
  intro c htokens hcount
  have hlength : c.tokens.length = before.length := by
    rw [← htokens, List.length_map]
  exact h c hlength c htokens hcount

theorem takes_next {f : SpannedToken → Parser β} {t : Token}
    {before after : List Token} {n m : Nat} {b : β}
    (h : ∀ span, (f ⟨t, span⟩).Takes before n b after m) :
    (nextToken >>= f).Takes (t :: before) n b after m := by
  intro c htokens hcount
  cases hc : c.tokens with
  | nil => simp [hc] at htokens
  | cons next rest =>
    rw [hc, List.map_cons] at htokens
    obtain ⟨rfl, hrest⟩ := List.cons.inj htokens
    obtain ⟨d, hrun, hd⟩ := h next.span { c with tokens := rest } hrest hcount
    refine ⟨d, ?_, hd⟩
    rw [StateT.run_bind]
    simp only [StateT.run, nextToken, hc]
    exact hrun

theorem takes_eat (t : Token) (rest : List Token) (n : Nat) :
    (eat t).Takes (t :: rest) n true rest n := by
  intro c htokens hcount
  cases hc : c.tokens with
  | nil => simp [hc] at htokens
  | cons next more =>
    rw [hc, List.map_cons] at htokens
    obtain ⟨hnext, hrest⟩ := List.cons.inj htokens
    refine ⟨{ c with tokens := more }, ?_, hrest, hcount⟩
    simp only [StateT.run, eat, hc, if_pos hnext]

theorem takes_eat_none {t : Token} {tokens : List Token} (n : Nat)
    (h : ∀ s ∈ tokens.head?, s ≠ t) : (eat t).Takes tokens n false tokens n := by
  intro c htokens hcount
  refine ⟨c, ?_, htokens, hcount⟩
  cases hc : c.tokens with
  | nil => simp only [StateT.run, eat, hc]
  | cons next more =>
    have hne : next.token ≠ t := h next.token (by simp [← htokens, hc])
    simp only [StateT.run, eat, hc, if_neg hne]

theorem takes_check (t : Token) (tokens : List Token) (n : Nat) :
    (check t).Takes tokens n (decide (tokens.head? = some t)) tokens n := by
  intro c htokens hcount
  refine ⟨c, ?_, htokens, hcount⟩
  subst htokens
  cases hc : c.tokens with
  | nil => simp [StateT.run, check, hc]
  | cons next more => simp [StateT.run, check, hc]

theorem takes_expect {f : SpannedToken → Parser β} {t : Token}
    {before after : List Token} {n m : Nat} {b : β}
    (h : ∀ span, (f ⟨t, span⟩).Takes before n b after m) :
    (expect t >>= f).Takes (t :: before) n b after m := by
  rw [expect, bind_assoc]
  apply takes_next
  intro span
  rw [if_pos rfl, pure_bind]
  exact h span

/-- To take no result is to give the empty one. -/
theorem discard_eq (p : Parser β) : Functor.discard p = p >>= fun _ => pure ⟨⟩ := by
  rw [Functor.discard, map_const, Function.comp_apply, map_eq_pure_bind]

theorem takes_expectKeyword (k : Keyword) (rest : List Token) (n : Nat) :
    (expectKeyword k).Takes (.keyword k :: rest) n () rest n := by
  rw [expectKeyword, discard_eq]
  exact takes_expect fun _ => takes_pure () rest n

theorem takes_expectSymbol (s : Symbol) (rest : List Token) (n : Nat) :
    (expectSymbol s).Takes (.symbol s :: rest) n () rest n := by
  rw [expectSymbol, discard_eq]
  exact takes_expect fun _ => takes_pure () rest n

theorem takes_expectName {t : Token} {name : String} (h : nameOf? t = some name)
    (rest : List Token) (n : Nat) : expectName.Takes (t :: rest) n name rest n := by
  apply takes_next
  intro span
  simp only [h]
  exact takes_pure name rest n

/-! ## Reading one after the other -/

theorem Reads.takes {p : Parser α} {stops used rest : List Token} {n m : Nat}
    {a : α} (h : p.Reads stops used n a m) (hrest : ∀ t ∈ rest.head?, t ∉ stops) :
    p.Takes (used ++ rest) n a rest m := h rest hrest

/-! ## Lists -/

/-- Tokens of items with a separator between them, each item with the
placeholders met before and after it. -/
inductive Chain (item : List Token → Nat → α → Nat → Prop) (separator : Token) :
    List Token → Nat → List α → Nat → Prop
  | one {tokens : List Token} {n m : Nat} {a : α} (h : item tokens n a m) :
      Chain item separator tokens n [a] m
  | more {tokens rest : List Token} {n m k : Nat} {a : α} {others : List α}
      (h : item tokens n a m) (hrest : Chain item separator rest m others k) :
      Chain item separator (tokens ++ separator :: rest) n (a :: others) k

variable {item : List Token → Nat → α → Nat → Prop} {separator : Token}

theorem Chain.map {other : List Token → Nat → β → Nat → Prop}
    {tokens : List Token} {n m : Nat} {values : List α}
    (h : Chain item separator tokens n values m) (f : α → β)
    (himp : ∀ tokens n a m, item tokens n a m → other tokens n (f a) m) :
    Chain other separator tokens n (values.map f) m := by
  induction h with
  | one h => exact .one (himp _ _ _ _ h)
  | more h _ ih => exact .more (himp _ _ _ _ h) ih

theorem Chain.append {first second : List Token} {n m k : Nat}
    {values others : List α} (hfirst : Chain item separator first n values m)
    (hsecond : Chain item separator second m others k) :
    Chain item separator (first ++ separator :: second) n (values ++ others) k := by
  induction hfirst with
  | one h => exact .more h hsecond
  | more h _ ih =>
    rw [List.append_assoc, List.cons_append]
    exact .more h (ih hsecond)

theorem Chain.values_ne_nil {tokens : List Token} {n m : Nat} {values : List α}
    (h : Chain item separator tokens n values m) : values ≠ [] := by
  cases h <;> simp

/-- What follows a chain's first item: nothing, or the separator and another
chain. -/
inductive MoreItems (item : List Token → Nat → α → Nat → Prop) (separator : Token) :
    List Token → Nat → List α → Nat → Prop
  | none {n : Nat} : MoreItems item separator [] n [] n
  | some {tokens : List Token} {n m : Nat} {values : List α}
      (h : Chain item separator tokens n values m) :
      MoreItems item separator (separator :: tokens) n values m

theorem Chain.exists_first {tokens : List Token} {n m : Nat} {values : List α}
    (h : Chain item separator tokens n values m) :
    ∃ first rest k a others, tokens = first ++ rest ∧ values = a :: others ∧
      item first n a k ∧ MoreItems item separator rest k others m := by
  cases h with
  | one h => exact ⟨_, [], _, _, [], by simp, rfl, h, .none⟩
  | more h hrest => exact ⟨_, _, _, _, _, rfl, rfl, h, .some hrest⟩

/-- Fuel for as many separators as there are tokens is enough. -/
theorem takes_moreItems {p : Parser α} {stops : List Token} {fuel : Nat}
    {used rest : List Token} {n m : Nat} {values : List α}
    (hstops : separator ∉ stops)
    (h : MoreItems (p.Reads stops) separator used n values m)
    (hfuel : used.length ≤ fuel)
    (hrest : ∀ t ∈ rest.head?, t ∉ separator :: stops) :
    (moreItems separator p fuel).Takes (used ++ rest) n values rest m := by
  have hstop : ∀ t ∈ rest.head?, t ≠ separator := fun t ht heq =>
    hrest t ht (heq ▸ List.mem_cons_self ..)
  induction fuel generalizing used n values with
  | zero =>
    cases h with
    | none => exact takes_pure [] rest _
    | some h => simp at hfuel
  | succ fuel ih =>
    cases h with
    | none => exact (takes_eat_none _ hstop).bind (takes_pure [] rest _)
    | some h =>
      obtain ⟨first, more, k, a, others, rfl, rfl, hfirst, hmore⟩ := h.exists_first
      have hhead : ∀ t ∈ (more ++ rest).head?, t ∉ stops := by
        intro t ht
        cases hmore with
        | none => exact fun hmem => hrest t ht (List.mem_cons_of_mem _ hmem)
        | some _ =>
          obtain rfl := Option.some.inj ht
          exact hstops
      have hlength : more.length ≤ fuel := by
        simp only [List.length_cons, List.length_append] at hfuel
        omega
      rw [List.cons_append, List.append_assoc]
      apply (takes_eat _ _ _).bind
      apply (hfirst.takes hhead).bind
      exact (ih hmore hlength).bind (takes_pure _ _ _)

theorem reads_separated {p : Parser α} {stops tokens : List Token} {n m : Nat}
    {values : List α} (h : Chain (p.Reads stops) separator tokens n values m)
    (hstops : separator ∉ stops) :
    (separated separator p).Reads (separator :: stops) tokens n values m := by
  intro rest hrest
  obtain ⟨first, more, k, a, others, rfl, rfl, hfirst, hmore⟩ := h.exists_first
  have hhead : ∀ t ∈ (more ++ rest).head?, t ∉ stops := by
    intro t ht
    cases hmore with
    | none => exact fun hmem => hrest t ht (List.mem_cons_of_mem _ hmem)
    | some _ =>
      obtain rfl := Option.some.inj ht
      exact hstops
  rw [List.append_assoc]
  refine (hfirst.takes hhead).bind (takes_get fun c hlength => ?_)
  have hfuel : more.length ≤ c.tokens.length := by
    rw [hlength, List.length_append]
    exact Nat.le_add_right ..
  exact (takes_moreItems hstops hmore hfuel hrest).bind (takes_pure _ _ _)

/-- Place items one after another from a position on, each as wide as its
placeholders. -/
def placed (width : β → Nat) (place : Nat → β → α) : Nat → List β → List α
  | _, [] => []
  | n, x :: rest => place n x :: placed width place (n + width x) rest

/-- The position behind the last item. -/
def placedEnd (width : β → Nat) : Nat → List β → Nat
  | n, [] => n
  | n, x :: rest => placedEnd width (n + width x) rest

theorem placedEnd_zero (n : Nat) (xs : List β) :
    placedEnd (fun _ => 0) n xs = n := by
  induction xs generalizing n with
  | nil => rfl
  | cons x rest ih => exact ih n

theorem placedEnd_one (n : Nat) (xs : List β) :
    placedEnd (fun _ => 1) n xs = n + xs.length := by
  induction xs generalizing n with
  | nil => rfl
  | cons x rest ih =>
    rw [placedEnd, ih, List.length_cons]
    omega

theorem placed_zero (f : β → α) (n : Nat) (xs : List β) :
    placed (fun _ => 0) (fun _ x => f x) n xs = xs.map f := by
  induction xs generalizing n with
  | nil => rfl
  | cons x rest ih => rw [placed, ih, List.map_cons]

theorem placed_one (place : Nat → β → α) (n : Nat) (xs : List β) :
    placed (fun _ => 1) place n xs = (xs.zipIdx n).map fun (x, i) => place i x := by
  induction xs generalizing n with
  | nil => rfl
  | cons x rest ih => rw [placed, ih, List.zipIdx_cons, List.map_cons]

/-- Items that are read one by one are read as a chain. -/
theorem chain_placed {tokens : β → List Token} {width : β → Nat}
    {place : Nat → β → α} {xs : List β} (hsome : xs ≠ [])
    (h : ∀ x ∈ xs, ∀ n, item (tokens x) n (place n x) (n + width x)) (n : Nat) :
    Chain item separator ([separator].intercalate (xs.map tokens)) n
      (placed width place n xs) (placedEnd width n xs) := by
  induction xs generalizing n with
  | nil => exact absurd rfl hsome
  | cons x rest ih =>
    have hx := h x (List.mem_cons_self ..) n
    cases rest with
    | nil => simpa [List.intercalate, placed, placedEnd] using Chain.one hx
    | cons y rest =>
      have hrest :=
        ih (by simp) (fun z hz => h z (List.mem_cons_of_mem x hz)) (n + width x)
      have hchain := Chain.more hx hrest
      simpa [List.intercalate, placed, placedEnd] using hchain

/-- Items without placeholders that are read one by one are read as a chain. -/
theorem chain_map {tokens : β → List Token} {f : β → α} {xs : List β}
    (hsome : xs ≠ []) (h : ∀ x ∈ xs, ∀ n, item (tokens x) n (f x) n) (n : Nat) :
    Chain item separator ([separator].intercalate (xs.map tokens)) n
      (xs.map f) n := by
  have hchain := @chain_placed α β item separator tokens (fun _ => 0)
    (fun _ x => f x) xs hsome h n
  rwa [placed_zero, placedEnd_zero] at hchain

/-! ## Names -/

/-- The tokens of a name with its qualifiers, and its last segment. -/
inductive Path : List Token → String → Prop
  | last {t : Token} {name : String} (h : nameOf? t = some name) : Path [t] name
  | qualified {t : Token} {first name : String} {tokens : List Token}
      (h : nameOf? t = some first) (hrest : Path tokens name) :
      Path (t :: .symbol .dot :: tokens) name

theorem ne_symbol_of_nameOf {t : Token} {name : String}
    (h : nameOf? t = some name) (s : Symbol) : t ≠ .symbol s := by
  rintro rfl
  simp [nameOf?] at h

theorem ne_keyword_of_nameOf {t : Token} {name : String} {k : Keyword}
    (h : nameOf? t = some name) (hhard : k.isSoft = false) : t ≠ .keyword k := by
  rintro rfl
  simp [nameOf?, hhard] at h

theorem Path.exists_first {tokens : List Token} {name : String}
    (h : Path tokens name) :
    ∃ t first rest, nameOf? t = some first ∧ tokens = t :: rest ∧
      ((rest = [] ∧ first = name) ∨
        ∃ more, rest = .symbol .dot :: more ∧ Path more name) := by
  cases h with
  | last h => exact ⟨_, _, _, h, rfl, .inl ⟨rfl, rfl⟩⟩
  | qualified h hrest => exact ⟨_, _, _, h, rfl, .inr ⟨_, rfl, hrest⟩⟩

theorem takes_tableTail {fuel : Nat} {used rest : List Token}
    {first name : String} (n : Nat)
    (hused : (used = [] ∧ first = name) ∨
      ∃ more, used = .symbol .dot :: more ∧ Path more name)
    (hfuel : used.length ≤ fuel) (hrest : ∀ t ∈ rest.head?, t ≠ .symbol .dot) :
    (tableTail fuel first).Takes (used ++ rest) n name rest n := by
  induction fuel generalizing used first with
  | zero =>
    rcases hused with ⟨rfl, rfl⟩ | ⟨more, rfl, -⟩
    · exact takes_pure _ _ _
    · simp at hfuel
  | succ fuel ih =>
    rcases hused with ⟨rfl, rfl⟩ | ⟨more, rfl, hpath⟩
    · exact (takes_eat_none _ hrest).bind (takes_pure _ _ _)
    · obtain ⟨t, second, others, hname, rfl, hothers⟩ := hpath.exists_first
      apply (takes_eat _ _ _).bind
      apply (takes_expectName hname _ _).bind
      refine ih hothers ?_
      simp only [List.length_cons] at hfuel
      omega

theorem reads_tableName {tokens : List Token} {name : String} (h : Path tokens name)
    (n : Nat) : tableName.Reads [.symbol .dot] tokens n name n := by
  intro rest hrest
  obtain ⟨t, first, more, hname, rfl, hmore⟩ := h.exists_first
  rw [List.cons_append]
  refine (takes_expectName hname _ _).bind (takes_get fun c hlength => ?_)
  refine takes_tableTail n hmore ?_ fun t ht => by simpa using hrest t ht
  rw [hlength, List.length_append]
  exact Nat.le_add_right ..

/-- The tokens of a column reference: those of a name, of which the last segment
may be a star. -/
inductive ColumnPath : List Token → String → Prop
  | star : ColumnPath [.symbol .star] "*"
  | last {t : Token} {name : String} (h : nameOf? t = some name) :
      ColumnPath [t] name
  | qualified {t : Token} {first name : String} {tokens : List Token}
      (h : nameOf? t = some first) (hrest : ColumnPath tokens name) :
      ColumnPath (t :: .symbol .dot :: tokens) name

theorem Path.column {tokens : List Token} {name : String} (h : Path tokens name) :
    ColumnPath tokens name := by
  induction h with
  | last h => exact .last h
  | qualified h _ ih => exact .qualified h ih

theorem ColumnPath.path {tokens : List Token} {name : String}
    (h : ColumnPath tokens name) (hstar : name ≠ "*") : Path tokens name := by
  induction h with
  | star => exact absurd rfl hstar
  | last h => exact .last h
  | qualified h _ ih => exact .qualified h (ih hstar)

/-- A token that no column begins with is left where it is. -/
theorem ColumnPath.takes_eat {s : Token} {tokens : List Token} {name : String}
    (h : ColumnPath tokens name) (hname : nameOf? s = none)
    (hstar : s ≠ .symbol .star) (rest : List Token) (n : Nat) :
    (eat s).Takes (tokens ++ rest) n false (tokens ++ rest) n := by
  apply takes_eat_none
  intro t ht
  cases h with
  | star =>
    obtain rfl := Option.some.inj ht
    exact hstar.symm
  | last h =>
    obtain rfl := Option.some.inj ht
    rintro rfl
    simp [hname] at h
  | qualified h _ =>
    obtain rfl := Option.some.inj ht
    rintro rfl
    simp [hname] at h

theorem takes_star_none {t : Token} {name : String} (h : nameOf? t = some name)
    (rest : List Token) (n : Nat) :
    (eatSymbol .star).Takes (t :: rest) n false (t :: rest) n :=
  takes_eat_none n (by simpa using ne_symbol_of_nameOf h .star)

theorem takes_columnTail {fuel : Nat} {used rest : List Token}
    {first name : String} (n : Nat)
    (hused : (used = [] ∧ first = name) ∨
      ∃ more, used = .symbol .dot :: more ∧ ColumnPath more name)
    (hfuel : used.length ≤ fuel) (hrest : ∀ t ∈ rest.head?, t ≠ .symbol .dot) :
    (columnTail fuel first).Takes (used ++ rest) n name rest n := by
  induction fuel generalizing used first with
  | zero =>
    rcases hused with ⟨rfl, rfl⟩ | ⟨more, rfl, -⟩
    · exact takes_pure _ _ _
    · simp at hfuel
  | succ fuel ih =>
    rcases hused with ⟨rfl, rfl⟩ | ⟨more, rfl, hpath⟩
    · exact (takes_eat_none _ hrest).bind (takes_pure _ _ _)
    · apply (takes_eat _ _ _).bind
      simp only [List.length_cons] at hfuel
      cases hpath with
      | star => exact (takes_eat _ _ _).bind (takes_pure _ _ _)
      | last hname =>
        refine (takes_star_none hname _ n).bind
          ((takes_expectName hname _ n).bind ?_)
        exact ih (.inl ⟨rfl, rfl⟩) (Nat.zero_le fuel)
      | qualified hname hmore =>
        refine (takes_star_none hname _ n).bind
          ((takes_expectName hname _ n).bind ?_)
        refine ih (.inr ⟨_, rfl, hmore⟩) ?_
        simp only [List.length_cons] at hfuel ⊢
        omega

theorem reads_columnName {tokens : List Token} {name : String}
    (h : ColumnPath tokens name) (n : Nat) :
    columnName.Reads [.symbol .dot] tokens n name n := by
  intro rest hrest
  have hdot : ∀ t ∈ rest.head?, t ≠ .symbol .dot :=
    fun t ht => by simpa using hrest t ht
  have htail {t : Token} {first : String} {more : List Token}
      (hname : nameOf? t = some first)
      (hmore : (more = [] ∧ first = name) ∨
        ∃ others, more = .symbol .dot :: others ∧ ColumnPath others name) :
      columnName.Takes (t :: (more ++ rest)) n name rest n := by
    apply (takes_star_none hname _ n).bind
    refine (takes_expectName hname _ n).bind (takes_get fun c hlength => ?_)
    refine takes_columnTail n hmore ?_ hdot
    rw [hlength, List.length_append]
    exact Nat.le_add_right ..
  cases h with
  | star => exact (takes_eat _ _ _).bind (takes_pure _ _ _)
  | last hname => exact htail hname (.inl ⟨rfl, rfl⟩)
  | qualified hname hrest => exact htail hname (.inr ⟨_, rfl, hrest⟩)

theorem takes_columnName {column : List Token} {name : String}
    (h : ColumnPath column name) {t : Token} (ht : t ≠ .symbol .dot)
    (rest : List Token) (n : Nat) :
    columnName.Takes (column ++ t :: rest) n name (t :: rest) n :=
  reads_columnName h n (t :: rest) (by simpa using ht)

/-! ## Values -/

/-- The token of a value, with the placeholders met before and after it. -/
structure OperandAt (t : Token) (n : Nat) (o : Operand) (m : Nat) : Prop where
  takes : ∀ rest, operand.Takes (t :: rest) n o rest m
  not_key : t ≠ .keyword .key
  not_close : t ≠ .symbol .rightParen

theorem operandAt_placeholder (n : Nat) :
    OperandAt (.symbol .param) n (.param n) (n + 1) := by
  refine ⟨fun rest => ?_, by simp, by simp⟩
  apply takes_next
  rintro span c htokens rfl
  exact ⟨{ c with placeholders := c.placeholders + 1 }, rfl, htokens, rfl⟩

/-- The value of a literal. -/
def literal? : Token → Option Value
  | .int n => some (.int n)
  | .float x => some (.float x)
  | .string text => some (.text text)
  | .keyword .trueLiteral => some (.bool true)
  | .keyword .falseLiteral => some (.bool false)
  | .keyword .null => some .null
  | _ => none

theorem operandAt_literal {t : Token} {value : Value} (h : literal? t = some value)
    (n : Nat) : OperandAt t n (.literal value) n := by
  cases t with
  | int _ | float _ | string _ =>
    obtain rfl := Option.some.inj h
    exact ⟨fun rest => takes_next fun _ => takes_pure _ rest n, by simp, by simp⟩
  | keyword k =>
    cases k with
    | trueLiteral | falseLiteral | null =>
      obtain rfl := Option.some.inj h
      exact ⟨fun rest => takes_next fun _ => takes_pure _ rest n, by simp, by simp⟩
    | _ => cases h
  | _ => cases h

/-- One value on its own. -/
def OperandItem (tokens : List Token) (n : Nat) (o : Operand) (m : Nat) : Prop :=
  ∃ t, tokens = [t] ∧ OperandAt t n o m

/-- Values with commas between them. -/
def Operands : List Token → Nat → List Operand → Nat → Prop :=
  Chain OperandItem (.symbol .comma)

theorem reads_operands {tokens : List Token} {n m : Nat} {operands : List Operand}
    (h : Operands tokens n operands m) :
    operandList.Reads [.symbol .comma] tokens n operands m := by
  have hchain : Chain (operand.Reads []) (.symbol .comma) tokens n
      (operands.map id) m := by
    refine Chain.map h id ?_
    rintro _ n o m ⟨t, rfl, ht⟩ rest _
    exact ht.takes rest
  rw [List.map_id] at hchain
  exact reads_separated hchain (by simp)

theorem Operands.head {tokens : List Token} {n m : Nat} {operands : List Operand}
    (h : Operands tokens n operands m) (rest : List Token) :
    (tokens ++ rest).head? ≠ some (.symbol .rightParen) := by
  cases h with
  | one h =>
    obtain ⟨t, rfl, ht⟩ := h
    simpa using ht.not_close
  | more h _ =>
    obtain ⟨t, rfl, ht⟩ := h
    simpa using ht.not_close

/-- Placeholders with commas between them, numbered from the first. -/
theorem operands_placeholders {xs : List β} (hsome : xs ≠ []) (n : Nat) :
    Operands (Token.placeholders xs) n ((List.range' n xs.length).map .param)
      (n + xs.length) := by
  have hchain : Chain OperandItem (.symbol .comma) (Token.placeholders xs) n
      (placed (fun _ => 1) (fun i _ => .param i) n xs)
      (placedEnd (fun _ => 1) n xs) :=
    chain_placed hsome (fun _ _ n => ⟨_, rfl, operandAt_placeholder n⟩) n
  have hplaced : placed (fun _ => 1) (fun i _ => Operand.param i) n xs =
      (List.range' n xs.length).map .param := by
    calc
      placed (fun _ => 1) (fun i _ => Operand.param i) n xs =
          (xs.zipIdx n).map fun x => Operand.param x.2 := placed_one ..
      _ = ((xs.zipIdx n).map Prod.snd).map .param := by rw [List.map_map]; rfl
      _ = (List.range' n xs.length).map .param := by rw [List.zipIdx_map_snd]
  rwa [hplaced, placedEnd_one] at hchain

end Parser

/-- An accepted text is cut into tokens from which the command is read. -/
theorem ParsedCommand.exists_of_parse {source : String} {parsed : ParsedCommand}
    (h : ParsedCommand.parse source = .ok parsed) :
    ∃ tokens d, Token.read source = .ok tokens ∧
      Parser.command.run ⟨tokens, 0, source.utf8ByteSize⟩ = .ok (parsed, d) := by
  unfold ParsedCommand.parse at h
  cases hread : Token.read source with
  | error e =>
    rw [hread] at h
    cases h
  | ok tokens =>
    rw [hread] at h
    cases hrun : Parser.command.run ⟨tokens, 0, source.utf8ByteSize⟩ with
    | error e =>
      simp only [Bind.bind, Except.bind, hrun] at h
      cases h
    | ok result =>
      simp only [Bind.bind, Except.bind, hrun] at h
      obtain rfl := Except.ok.inj h
      exact ⟨tokens, result.2, rfl, hrun⟩

end EntityMapper
