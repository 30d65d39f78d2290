import EntityMapper.Proofs.Grammar.Predicates
import EntityMapper.Proofs.Statement.Statements
import EntityMapper.Store.Evaluation

/-!
# The meaning of a list of predicates

A condition holds of a row by the comparisons of the store, and a list of
predicates holds if one of its blocks holds entirely. This is what a filter
behind a compiled command selects: the text of the list is read as a filter, and
the filter passes exactly the rows of which the list holds.
-/

namespace EntityMapper

/-! ## What a list of predicates says -/

/-- Whether a row passes a condition. Raw text has no meaning of its own. -/
def Condition.holds (row : Row) : Condition → Bool
  | .basic column operator value =>
    Store.holds operator (Store.cell row (columnOf column)) value
  | .isIn column values =>
    let found := Store.cell row (columnOf column)
    !found.isNull && values.any fun value => Store.valuesEqual found value
  | .notIn column values =>
    let found := Store.cell row (columnOf column)
    !found.isNull && !values.any fun value => Store.valuesEqual found value
  | .between column low high =>
    Store.holds .ge (Store.cell row (columnOf column)) low &&
      Store.holds .le (Store.cell row (columnOf column)) high
  | .isNull column => (Store.cell row (columnOf column)).isNull
  | .notNull column => !(Store.cell row (columnOf column)).isNull
  | .token columns operator values =>
    Store.holds operator (.int (Store.partitionToken
          (columns.map fun column => Store.cell row (columnOf column))))
      (.int (Store.partitionToken values))
  | .raw _ => true

/-- The blocks of a list of predicates: it is cut before every predicate but the
first whose connector is OR. -/
def andBlocks (predicates : List Predicate) : List (List Predicate) :=
  cutBefore Predicate.startsBlock predicates

/-- Whether a row passes a list of predicates: whether some block holds entirely. -/
def listHolds (row : Row) (predicates : List Predicate) : Bool :=
  (andBlocks predicates).any fun block => block.all fun p => p.condition.holds row

/-! ## Cutting and numbering -/

theorem flatten_consFirst {α : Type} (x : α) (parts : List (List α)) :
    (consFirst x parts).flatten = x :: parts.flatten := by
  cases parts <;> simp [consFirst]

theorem flatten_cutBefore {α : Type} (starts : α → Bool) (xs : List α) :
    (cutBefore starts xs).flatten = xs := by
  induction xs with
  | nil => rfl
  | cons x rest ih =>
    cases rest with
    | nil => rfl
    | cons y rest =>
      rw [cutBefore]
      split
      · rw [List.flatten_cons, ih, List.singleton_append]
      · rw [flatten_consFirst, ih]

theorem consFirst_map {α β : Type} (f : α → β) (x : α) (parts : List (List α)) :
    consFirst (f x) (parts.map (List.map f)) =
      (consFirst x parts).map (List.map f) := by
  cases parts <;> simp [consFirst]

theorem cutBefore_map {α β : Type} (starts : β → Bool) (f : α → β) (xs : List α) :
    cutBefore starts (xs.map f) =
      (cutBefore (fun x => starts (f x)) xs).map (List.map f) := by
  induction xs with
  | nil => rfl
  | cons x rest ih =>
    cases rest with
    | nil => rfl
    | cons y rest =>
      rw [List.map_cons] at ih
      rw [List.map_cons, List.map_cons, cutBefore, cutBefore, ih]
      split
      · rfl
      · rw [consFirst_map]

theorem map_snd_numbered (n : Nat) (predicates : List Predicate) :
    (numbered n predicates).map Prod.snd = predicates := by
  induction predicates generalizing n with
  | nil => rfl
  | cons p rest ih => exact congrArg (p :: ·) (ih (n + p.placeholderCount))

/-- The values of a condition stand among the bound ones from a position on. -/
def BoundAt (bound : List Value) (n : Nat) (values : List Value) : Prop :=
  ∃ before behind, bound = before ++ values ++ behind ∧ before.length = n

theorem boundAt_of_numbered {bound : List Value} {n i : Nat} {p : Predicate}
    {predicates : List Predicate}
    (hbound : BoundAt bound n (Predicate.allBindings predicates))
    (h : (i, p) ∈ numbered n predicates) : BoundAt bound i p.bindings := by
  induction predicates generalizing n with
  | nil => simp [numbered, Parser.placed] at h
  | cons q rest ih =>
    obtain ⟨before, behind, rfl, rfl⟩ := hbound
    simp only [numbered, Parser.placed, List.mem_cons] at h
    rcases h with h | h
    · obtain ⟨rfl, rfl⟩ := Prod.mk.inj h
      exact ⟨before, Predicate.allBindings rest ++ behind,
        by simp [Predicate.allBindings], rfl⟩
    · refine ih
        ⟨before ++ q.bindings, behind, by simp [Predicate.allBindings], ?_⟩ h
      rw [List.length_append, Grammar.placeholderCount_eq]

/-! ## Evaluation of filters -/

theorem any_congr_mem {α : Type} {p q : α → Bool} {xs : List α}
    (h : ∀ x ∈ xs, p x = q x) : xs.any p = xs.any q := by
  induction xs with
  | nil => rfl
  | cons x rest ih =>
    rw [List.any_cons, List.any_cons, h x (List.mem_cons_self ..),
      ih fun y hy => h y (List.mem_cons_of_mem x hy)]

theorem all_congr_mem {α : Type} {p q : α → Bool} {xs : List α}
    (h : ∀ x ∈ xs, p x = q x) : xs.all p = xs.all q := by
  induction xs with
  | nil => rfl
  | cons x rest ih =>
    rw [List.all_cons, List.all_cons, h x (List.mem_cons_self ..),
      ih fun y hy => h y (List.mem_cons_of_mem x hy)]

namespace Store

variable {row : Row} {bound : List Value}

theorem evaluateAll_eq (terms : List Filter) :
    evaluateAll row bound terms = terms.all (evaluate row bound) := by
  induction terms with
  | nil => rfl
  | cons f rest ih => rw [evaluateAll, ih, List.all_cons]

theorem evaluateAny_eq (terms : List Filter) :
    evaluateAny row bound terms = terms.any (evaluate row bound) := by
  induction terms with
  | nil => rfl
  | cons f rest ih => rw [evaluateAny, ih, List.any_cons]

theorem evaluate_conjunction (terms : List Filter) :
    evaluate row bound (Parser.conjunction terms) =
      terms.all (evaluate row bound) := by
  unfold Parser.conjunction
  split
  · simp
  · rw [evaluate, evaluateAll_eq]

theorem evaluate_disjunction (terms : List Filter) :
    evaluate row bound (Parser.disjunction terms) =
      terms.any (evaluate row bound) := by
  unfold Parser.disjunction
  split
  · simp
  · rw [evaluate, evaluateAny_eq]

theorem evaluate_filterOf (blocks : List (List Filter)) :
    evaluate row bound (Parser.filterOf blocks) =
      blocks.any fun terms => terms.all (evaluate row bound) := by
  rw [Parser.filterOf, evaluate_disjunction, List.any_map]
  exact List.any_congr rfl fun terms => evaluate_conjunction terms

theorem resolve_param {n : Nat} {value : Value} (h : BoundAt bound n [value]) :
    resolve bound (.param n) = value := by
  obtain ⟨before, behind, rfl, rfl⟩ := h
  simp [resolve]

/-- The placeholders of values that are bound at their position stand for these
values. -/
theorem map_resolve_params {n : Nat} {values : List Value}
    (h : BoundAt bound n values) :
    (params n values).map (resolve bound) = values := by
  induction values generalizing n with
  | nil => rfl
  | cons value rest ih =>
    obtain ⟨before, behind, hbound, hlength⟩ := h
    have hvalue : BoundAt bound n [value] :=
      ⟨before, rest ++ behind, by simp [hbound], hlength⟩
    have hrest : BoundAt bound (n + 1) rest :=
      ⟨before ++ [value], behind, by simp [hbound], by simp [hlength]⟩
    have hcons : params n (value :: rest) = .param n :: params (n + 1) rest := by
      simp [params, List.range'_succ]
    calc
      (params n (value :: rest)).map (resolve bound) =
          resolve bound (.param n) :: (params (n + 1) rest).map (resolve bound) := by
        rw [hcons, List.map_cons]
      _ = value :: rest := by rw [resolve_param hvalue, ih hrest]

theorem any_params {n : Nat} {values : List Value} (h : BoundAt bound n values)
    (test : Value → Bool) :
    ((params n values).any fun operand => test (resolve bound operand)) =
      values.any test := by
  have hany : ((params n values).map (resolve bound)).any test =
      values.any test := by
    rw [map_resolve_params h]
  rwa [List.any_map] at hany

/-- The terms of a condition pass the rows of which the condition holds. -/
theorem all_terms {c : Condition} {n : Nat} (hraw : c.rawText? = none)
    (h : BoundAt bound n c.bindings) :
    (c.terms n).all (evaluate row bound) = c.holds row := by
  cases c with
  | basic column operator value =>
    simp [Condition.terms, Condition.holds, evaluate, resolve_param h]
  | isIn column values =>
    have hvalues : BoundAt bound n values := h
    simp only [Condition.terms, Condition.holds, List.all_cons, List.all_nil,
      Bool.and_true, evaluate, any_params hvalues]
    cases (cell row (columnOf column)).isNull <;> simp
  | notIn column values =>
    have hvalues : BoundAt bound n values := h
    simp only [Condition.terms, Condition.holds, List.all_cons, List.all_nil,
      Bool.and_true, evaluate, any_params hvalues]
    cases (cell row (columnOf column)).isNull <;> simp
  | between column low high =>
    obtain ⟨before, behind, hbound, hlength⟩ := h
    have hlow : BoundAt bound n [low] :=
      ⟨before, high :: behind, by simp [hbound, Condition.bindings], hlength⟩
    have hhigh : BoundAt bound (n + 1) [high] :=
      ⟨before ++ [low], behind, by simp [hbound, Condition.bindings],
        by simp [hlength]⟩
    simp [Condition.terms, Condition.holds, evaluate, resolve_param hlow,
      resolve_param hhigh]
  | isNull column => simp [Condition.terms, Condition.holds, evaluate]
  | notNull column => simp [Condition.terms, Condition.holds, evaluate]
  | token columns operator values =>
    have hvalues : BoundAt bound n values := h
    simp [Condition.terms, Condition.holds, evaluate, map_resolve_params hvalues,
      List.map_map, Function.comp_def]
  | raw text => simp [Condition.rawText?] at hraw

/-- The filter of a list of predicates passes the rows of which the list holds. -/
theorem evaluate_wheresFilter {predicates : List Predicate} {n : Nat}
    (hraw : ∀ p ∈ predicates, p.condition.rawText? = none)
    (h : BoundAt bound n (Predicate.allBindings predicates)) :
    evaluate row bound (wheresFilter n predicates) = listHolds row predicates := by
  have hterms : ∀ x ∈ numbered n predicates,
      (x.2.condition.terms x.1).all (evaluate row bound) =
        x.2.condition.holds row := by
    intro x hx
    have hmem : x.2 ∈ predicates := by
      rw [← map_snd_numbered n predicates]
      exact List.mem_map_of_mem hx
    exact all_terms (hraw x.2 hmem) (boundAt_of_numbered h hx)
  have hblocks : andBlocks predicates = (cutBefore (fun x => x.2.startsBlock)
      (numbered n predicates)).map (List.map Prod.snd) := by
    rw [andBlocks, ← cutBefore_map, map_snd_numbered]
  let blocks := cutBefore (fun x => x.2.startsBlock) (numbered n predicates)
  have hblock : ∀ block ∈ blocks,
      (block.flatMap fun x => x.2.condition.terms x.1).all (evaluate row bound) =
        (block.map Prod.snd).all fun p => p.condition.holds row := by
    intro block hblock
    rw [List.all_flatMap, List.all_map]
    refine all_congr_mem fun x hx => hterms x ?_
    rw [← flatten_cutBefore (fun x => x.2.startsBlock) (numbered n predicates)]
    exact List.mem_flatten.mpr ⟨block, hblock, hx⟩
  calc
    evaluate row bound (wheresFilter n predicates) =
        blocks.any fun block =>
          (block.flatMap fun x => x.2.condition.terms x.1).all
              (evaluate row bound) := by
      rw [wheresFilter, evaluate_filterOf, whereBlocks, List.any_map]
      rfl
    _ = blocks.any fun block =>
          (block.map Prod.snd).all
            fun p => p.condition.holds row := any_congr_mem hblock
    _ = listHolds row predicates := by
      rw [listHolds, hblocks, List.any_map]
      rfl

end Store

namespace Grammar

open Token (Lexes)

theorem lexes_whereQuery {text : String} {tokens : List Token}
    (h : Lexes text.toList tokens) :
    Lexes ("SELECT * FROM t WHERE " ++ text).toList
      (.keyword .select :: .symbol .star :: .keyword .from :: .name "t" ::
        .keyword .where :: tokens) := by
  have hhead : Token.Closed "SELECT * FROM t WHERE ".toList [.keyword .select,
      .symbol .star, .keyword .from, .name "t", .keyword .where] :=
    Token.closed_word (rfl : Token.read "SELECT * FROM t WHERE" = .ok _)
  rw [String.toList_append]
  exact hhead h

/-- A query for every column of the rows that pass a filter. -/
def whereQuery (f : Filter) : SelectStatement where
  table := "t"
  projection := .all
  filter := some f
  groupBy := []
  orderBy := []
  limit := none
  offset := none
  allowFiltering := false

/-- The text of a list of predicates is read as a filter that passes exactly the
rows of which the list holds. -/
theorem parse_wheres_evaluate (g : Grammar) (predicates : List Predicate)
    (hsome : predicates ≠ [])
    (h : ∀ p ∈ predicates, g.Expresses p.condition ∧ p.condition.rawText? = none) :
    ∃ f,
      ParsedCommand.parse ("SELECT * FROM t WHERE " ++ (g.wheres predicates).text) =
          .ok ⟨.select (whereQuery f), (g.wheres predicates).params.length⟩ ∧
        ∀ row, Store.evaluate row (g.wheres predicates).params f =
          listHolds row predicates := by
  refine ⟨wheresFilter 0 predicates, ?_, ?_⟩
  · have hlexes := lexes_wheres g fun p hp => (h p hp).1.lexable (h p hp).2
    have hfilter := reads_wheres hsome h 0
    have hstar : ∀ rest,
        Parser.projection.Takes ([.symbol .star] ++ .keyword .from :: rest) 0
          .all (.keyword .from :: rest) 0 := fun rest => Parser.takes_star _ 0
    have htakes := Parser.takes_select hstar
      (Parser.Path.last (by cbv : Parser.nameOf? (.name "t") = some "t"))
      (Parser.clause_filter hfilter) (Parser.clause_noGroup _)
      (Parser.clause_noOrder _) (Parser.clause_noCount .limit _)
      (Parser.clause_noCount .offset _) (Parser.clause_noAllow _)
    have hcount : (g.wheres predicates).params.length =
        0 + placeholderSum predicates := by
      rw [params_wheres, length_allBindings, Nat.zero_add]
    rw [hcount]
    exact ParsedCommand.parse_eq_ok (lexes_whereQuery hlexes)
      (Parser.takes_statement_select (by simpa [whereQuery] using htakes))
  · intro row
    rw [params_wheres]
    apply Store.evaluate_wheresFilter fun p hp => (h p hp).2
    exact ⟨[], [], by simp, rfl⟩

/-- A list with two blocks: a range in the first, and a column that is named
like a soft keyword in the second. -/
def twoBlocks : List Predicate :=
  [⟨.or, .between "stock.price" (.int 2) (.int 5)⟩,
    ⟨.and, .notNull "stock.sold on"⟩, ⟨.or, .basic "count" .ge (.int 9)⟩]

theorem parse_wheres_evaluate_twoBlocks :
    ∃ f, ParsedCommand.parse ("SELECT * FROM t WHERE " ++
        ((⟨.cql, none⟩ : Grammar).wheres twoBlocks).text) =
        .ok ⟨.select (whereQuery f),
            ((⟨.cql, none⟩ : Grammar).wheres twoBlocks).params.length⟩ ∧
      ∀ row, Store.evaluate row ((⟨.cql, none⟩ : Grammar).wheres twoBlocks).params
          f = listHolds row twoBlocks :=
  parse_wheres_evaluate ⟨.cql, none⟩ twoBlocks (by decide) (by decide)

end Grammar

end EntityMapper
