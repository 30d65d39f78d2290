import EntityMapper.Proofs.Grammar.Recovery
import EntityMapper.Proofs.Query.Meaning
import EntityMapper.Proofs.Statement.Acceptance

/-!
# What folding conditions into a filter does

The relational grammar appends the conditions of a write to its predicates
behind an AND, and brackets the predicates when one of their connectors is OR.
Raw text can hold an OR that no connector shows: the AND then binds the
conditions to the last alternative only. A row that passes an earlier
alternative is written whatever the conditions say; all other rows are treated
as if the predicates had been bracketed.
-/

namespace EntityMapper

/-! ## Alternatives and their values -/

/-- Conjoin the last value on the left with the first one on the right. -/
def andEnds : List Bool → List Bool → List Bool
  | [], values => values
  | [a], [] => [a]
  | [a], b :: values => (a && b) :: values
  | a :: next :: more, values => a :: andEnds (next :: more) values

theorem map_glue {value : List Filter → Bool}
    (happend : ∀ first second, value (first ++ second) =
      (value first && value second)) (blocks others : List (List Filter)) :
    (Parser.glue blocks others).map value =
      andEnds (blocks.map value) (others.map value) := by
  fun_induction Parser.glue blocks others with
  | case1 others => rfl
  | case2 block => rfl
  | case3 block first others => simp [andEnds, happend]
  | case4 block next more others ih =>
    rw [List.map_cons, ih]
    rfl

theorem any_andEnds {values : List Bool} (hsome : values ≠ []) (b : Bool) :
    (andEnds values [b]).any id =
      (values.dropLast.any id || (values.getLast hsome && b)) := by
  induction values with
  | nil => exact absurd rfl hsome
  | cons a rest ih =>
    cases rest with
    | nil => simp [andEnds]
    | cons next more =>
      calc
        (andEnds (a :: next :: more) [b]).any id =
            (a || (andEnds (next :: more) [b]).any id) := List.any_cons
        _ = (a || ((next :: more).dropLast.any id ||
              ((next :: more).getLast (List.cons_ne_nil next more) && b))) := by
          rw [ih (List.cons_ne_nil next more)]
        _ = _ := by
          rw [← Bool.or_assoc, List.dropLast_cons_cons, List.any_cons,
            List.getLast_cons_cons, id]

theorem any_dropLast_getLast {values : List Bool} (hsome : values ≠ []) :
    values.any id = (values.dropLast.any id || values.getLast hsome) := by
  have hsplit : values.dropLast ++ [values.getLast hsome] = values :=
    List.dropLast_concat_getLast hsome
  rw [← congrArg (List.any · id) hsplit]
  simp

theorem any_eq_any_map {α : Type} (value : α → Bool) (xs : List α) :
    xs.any value = (xs.map value).any id := by
  rw [List.any_map]
  rfl

theorem any_dropLast {α : Type} (value : α → Bool) (xs : List α) :
    xs.dropLast.any value = (xs.map value).dropLast.any id := by
  rw [← List.map_dropLast, any_eq_any_map]

/-- The values of two lists of alternatives with a connector between them. -/
def joinValues : Connector → List Bool → List Bool → List Bool
  | .and, first, second => andEnds first second
  | .or, first, second => first ++ second

/-- The values of the alternatives of a list of predicates, given those of each
condition. -/
def listValues (values : Condition → List Bool) : List Predicate → List Bool
  | [] => []
  | [p] => values p.condition
  | p :: q :: rest =>
    joinValues q.connector (values p.condition) (listValues values (q :: rest))

theorem listValues_and {holds : Condition → Bool} {predicates : List Predicate}
    (hsome : predicates ≠ []) (h : ∀ p ∈ predicates.tail, p.connector = .and) :
    listValues (fun c => [holds c]) predicates =
      [predicates.all fun p => holds p.condition] := by
  induction predicates with
  | nil => exact absurd rfl hsome
  | cons p rest ih =>
    cases rest with
    | nil => simp [listValues]
    | cons q rest =>
      have hlater := ih (by simp) fun r hr => h r (List.mem_cons_of_mem q hr)
      calc
        listValues (fun c => [holds c]) (p :: q :: rest) =
            joinValues .and [holds p.condition]
              [(q :: rest).all fun p => holds p.condition] := by
          rw [listValues, hlater, h q (List.mem_cons_self ..)]
        _ = [(p :: q :: rest).all fun p => holds p.condition] := by
          rw [List.all_cons]
          rfl

namespace Store

variable {row : Row} {bound : List Value}

/-- Which of the blocks a row passes. -/
def blockValues (row : Row) (bound : List Value) (blocks : List (List Filter)) :
    List Bool :=
  blocks.map fun terms => terms.all (evaluate row bound)

theorem blockValues_glue (blocks others : List (List Filter)) :
    blockValues row bound (Parser.glue blocks others) =
      andEnds (blockValues row bound blocks) (blockValues row bound others) :=
  map_glue (fun _ _ => List.all_append) blocks others

theorem blockValues_joinBlocks (connector : Connector)
    (blocks others : List (List Filter)) :
    blockValues row bound (joinBlocks connector blocks others) =
      joinValues connector (blockValues row bound blocks)
        (blockValues row bound others) := by
  cases connector with
  | and => exact blockValues_glue blocks others
  | or => exact List.map_append

theorem map_evaluate_conjunction (blocks : List (List Filter)) :
    (blocks.map Parser.conjunction).map (evaluate row bound) =
      blockValues row bound blocks := by
  rw [List.map_map]
  exact List.map_congr_left fun terms _ => evaluate_conjunction terms

theorem evaluate_filterOf_blockValues (blocks : List (List Filter)) :
    evaluate row bound (Parser.filterOf blocks) =
      (blockValues row bound blocks).any id := by
  rw [evaluate_filterOf, blockValues, List.any_map]
  rfl

theorem boundAt_append {n : Nat} {first second : List Value}
    (h : BoundAt bound n (first ++ second)) :
    BoundAt bound n first ∧ BoundAt bound (n + first.length) second := by
  obtain ⟨before, behind, rfl, rfl⟩ := h
  constructor
  · exact ⟨before, second ++ behind, by simp, rfl⟩
  · exact ⟨before ++ first, behind, by simp, by simp⟩

/-- The blocks of a list of predicates pass a row as those of its conditions do. -/
theorem blockValues_listBlocks {blocks : Nat → Condition → List (List Filter)}
    {values : Condition → List Bool} {predicates : List Predicate} {n : Nat}
    (h : ∀ p ∈ predicates, ∀ i, BoundAt bound i p.bindings →
      blockValues row bound (blocks i p.condition) = values p.condition)
    (hbound : BoundAt bound n (Predicate.allBindings predicates)) :
    blockValues row bound (listBlocks blocks n predicates) =
      listValues values predicates := by
  induction predicates generalizing n with
  | nil => rfl
  | cons p rest ih =>
    have hcons : Predicate.allBindings (p :: rest) =
        p.bindings ++ Predicate.allBindings rest := rfl
    rw [hcons] at hbound
    obtain ⟨hfirst, hrest⟩ := boundAt_append hbound
    have hp := h p (List.mem_cons_self ..) n hfirst
    cases rest with
    | nil => exact hp
    | cons q rest =>
      rw [← Grammar.placeholderCount_eq] at hrest
      have hlater := ih (fun r hr => h r (List.mem_cons_of_mem p hr)) hrest
      calc
        blockValues row bound (listBlocks blocks n (p :: q :: rest)) =
            joinValues q.connector
              (blockValues row bound (blocks n p.condition))
              (blockValues row bound
                (listBlocks blocks (n + p.placeholderCount) (q :: rest))) := by
          rw [listBlocks, blockValues_joinBlocks]
        _ = joinValues q.connector (values p.condition)
              (listValues values (q :: rest)) := by rw [hp, hlater]
        _ = listValues values (p :: q :: rest) := by rw [listValues]

/-- The blocks of predicates without raw text pass a row as the conditions hold
of it. -/
theorem blockValues_whereBlocks {predicates : List Predicate} {n : Nat}
    (hraw : ∀ p ∈ predicates, p.condition.rawText? = none)
    (hbound : BoundAt bound n (Predicate.allBindings predicates)) :
    blockValues row bound (whereBlocks n predicates) =
      listValues (fun c => [c.holds row]) predicates := by
  rw [← listBlocks_terms]
  apply blockValues_listBlocks _ hbound
  intro p hp i hi
  exact congrArg (fun value => [value]) (all_terms (hraw p hp) hi)

/-- Without an OR they are one block. -/
theorem blockValues_conjunctive {predicates : List Predicate} {n : Nat}
    (hsome : predicates ≠ []) (hand : ∀ p ∈ predicates.tail, p.connector = .and)
    (hraw : ∀ p ∈ predicates, p.condition.rawText? = none)
    (hbound : BoundAt bound n (Predicate.allBindings predicates)) :
    blockValues row bound (whereBlocks n predicates) =
      [predicates.all fun p => p.condition.holds row] := by
  calc
    blockValues row bound (whereBlocks n predicates) =
        listValues (fun c => [c.holds row]) predicates :=
      blockValues_whereBlocks hraw hbound
    _ = [predicates.all fun p => p.condition.holds row] := listValues_and hsome hand

/-- What a conjunct behind blocks does: it binds to the last one, unless they
are bracketed. -/
theorem evaluate_glue {blocks others : List (List Filter)} {b : Bool}
    (bracketed : Bool) (hsome : blocks ≠ [])
    (hothers : blockValues row bound others = [b]) :
    evaluate row bound (Parser.filterOf (Parser.glue
          (if bracketed then [[Parser.filterOf blocks]] else blocks) others)) =
      ((blockValues row bound blocks).any id && b ||
        !bracketed && (blockValues row bound blocks).dropLast.any id) := by
  have hvalues : blockValues row bound blocks ≠ [] := by
    rwa [blockValues, Ne, List.map_eq_nil_iff]
  rw [evaluate_filterOf_blockValues, blockValues_glue, hothers]
  cases bracketed with
  | true =>
    have hbracket : blockValues row bound [[Parser.filterOf blocks]] =
        [(blockValues row bound blocks).any id] := by
      simp [blockValues, evaluate_filterOf_blockValues]
    rw [if_pos rfl, hbracket]
    simp [andEnds]
  | false =>
    rw [if_neg Bool.false_ne_true, any_andEnds hvalues,
      any_dropLast_getLast hvalues]
    cases (blockValues row bound blocks).dropLast.any id <;> simp

/-- A filter without parameters does not depend on what is bound. -/
theorem evaluate_unbound {f : Filter} (h : f.Unbound) (other : List Value) :
    evaluate row bound f = evaluate row other f := by
  induction h with
  | all _ ih =>
    rw [evaluate, evaluate, evaluateAll_eq, evaluateAll_eq]
    exact all_congr_mem ih
  | any _ ih =>
    rw [evaluate, evaluate, evaluateAny_eq, evaluateAny_eq]
    exact any_congr_mem ih
  | compare column operator value => rfl
  | member column negated values => simp [evaluate, resolve, Function.comp_def]
  | isNull column negated => rfl
  | token columns operator values => simp [evaluate, resolve, Function.comp_def]

theorem blockValues_unbound {blocks : List (List Filter)}
    (h : ∀ block ∈ blocks, ∀ f ∈ block, f.Unbound) (other : List Value) :
    blockValues row bound blocks = blockValues row other blocks := by
  apply List.map_congr_left
  intro block hblock
  exact all_congr_mem fun f hf => evaluate_unbound (h block hblock f hf) other

end Store

namespace Grammar

variable {g : Grammar} {q : Intent} {c : Command}

open Token (Lexes)

/-! ## Conditions that stand on their own -/

/-- Raw text without placeholders that is a filter of its own. -/
structure Accepted (text : String) : Prop where
  free : '?' ∉ text.toList
  whole : (Parser.whole? Parser.filter text).isSome = true

/-- A condition that is read on its own, raw text included. -/
structure Stands (g : Grammar) (c : Condition) : Prop where
  expresses : g.Expresses c
  raw : ∀ text ∈ c.rawText?, Accepted text

theorem Accepted.blocks {text : String} (h : Accepted text) :
    ∃ blocks, Lexes text.toList (Token.cut text) ∧ Token.cut text ≠ [] ∧
      Parser.BlocksAgain (Token.cut text).length (Token.cut text) blocks := by
  obtain ⟨f, hf⟩ := Option.isSome_iff_exists.mp h.whole
  obtain ⟨tokens, blocks, hlexes, hsome, -, hblocks⟩ :=
    Parser.blocks_of_whole_filter h.free hf
  obtain rfl := Token.cut_of_lexes hlexes
  exact ⟨blocks, hlexes, hsome, hblocks⟩

theorem Stands.lexable {c : Condition} (h : g.Stands c) : g.Lexable c := by
  refine ⟨fun column hmem => (h.expresses.columns column hmem).lexed, ?_⟩
  intro text htext
  obtain ⟨blocks, hlexes, -⟩ := (h.raw text htext).blocks
  exact hlexes

theorem Stands.tokens_ne_nil {c : Condition} (h : g.Stands c) :
    g.conditionTokens c ≠ [] := by
  cases hraw : c.rawText? with
  | none => exact conditionTokens_ne_nil hraw
  | some text =>
    obtain ⟨blocks, -, hsome, -⟩ := (h.raw text hraw).blocks
    cases c with
    | raw text =>
      obtain rfl := Option.some.inj hraw
      exact hsome
    | _ => simp [Condition.rawText?] at hraw

/-- Tokens are read as blocks that pass a row as `values` says, wherever the
tokens stand and whatever is bound around them. -/
def ReadAlike (tokens : List Token) (bindings : List Value)
    (blocks : Nat → List (List Filter)) (values : Row → List Bool) : Prop :=
  ∀ n, Parser.Blocks tokens.length tokens n (blocks n) (n + bindings.length) ∧
    ∀ row bound, BoundAt bound n bindings →
      Store.blockValues row bound (blocks n) = values row

theorem Stands.blocks {c : Condition} (h : g.Stands c) :
    ∃ blocks values, ReadAlike (g.conditionTokens c) c.bindings blocks values := by
  cases hraw : c.rawText? with
  | none =>
    refine ⟨fun n => [c.terms n], fun row => [c.holds row], fun n => ⟨?_, ?_⟩⟩
    · rw [length_bindings]
      exact ((h.expresses.conveys hraw).terms n).blocks.mono (Nat.zero_le _)
    · intro row bound hbound
      exact congrArg (fun value => [value]) (Store.all_terms hraw hbound)
  | some text =>
    obtain ⟨blocks, -, -, hunbound, hblocks⟩ := (h.raw text hraw).blocks
    cases c with
    | raw text =>
      obtain rfl := Option.some.inj hraw
      refine ⟨fun _ => blocks, fun row => Store.blockValues row [] blocks,
        fun n => ⟨hblocks n, ?_⟩⟩
      intro row bound _
      exact Store.blockValues_unbound hunbound []
    | _ => simp [Condition.rawText?] at hraw

theorem length_conditionTokens_le {p : Predicate} {predicates : List Predicate}
    (hp : p ∈ predicates) :
    (g.conditionTokens p.condition).length ≤
      (g.wheresTokens predicates).length := by
  have hmore (p : Predicate) (rest : List Predicate) (hp : p ∈ rest) :
      (g.conditionTokens p.condition).length ≤ (g.moreTokens rest).length := by
    induction rest with
    | nil => simp at hp
    | cons r rest ih =>
      rw [moreTokens, List.length_cons, List.length_append]
      rcases List.mem_cons.mp hp with rfl | hp
      · omega
      · have hle := ih hp
        omega
  cases predicates with
  | nil => simp at hp
  | cons r rest =>
    rw [wheresTokens, List.length_append]
    rcases List.mem_cons.mp hp with rfl | hp
    · omega
    · have hle := hmore p rest hp
      omega

theorem blocks_standing {predicates : List Predicate} (hsome : predicates ≠ [])
    (h : ∀ p ∈ predicates, g.Stands p.condition) :
    ∃ blocks values, ReadAlike (g.wheresTokens predicates)
      (Predicate.allBindings predicates) blocks values := by
  -- The blocks of each raw text exist, so a function that gives them is chosen
  -- once for all.
  have hchoice : ∀ c : Condition,
      ∃ x : (Nat → List (List Filter)) × (Row → List Bool), g.Stands c →
        ReadAlike (g.conditionTokens c) c.bindings x.1 x.2 := by
    intro c
    by_cases hc : g.Stands c
    · obtain ⟨blocks, values, hblocks⟩ := hc.blocks
      exact ⟨(blocks, values), fun _ => hblocks⟩
    · exact ⟨(fun _ => [], fun _ => []), fun hstands => absurd hstands hc⟩
  obtain ⟨choice, hchoice⟩ := Classical.skolem.mp hchoice
  refine ⟨fun n => listBlocks (fun i c => (choice c).1 i) n predicates,
    fun row => listValues (fun c => (choice c).2 row) predicates, fun n => ⟨?_, ?_⟩⟩
  · rw [length_allBindings]
    apply blocks_wheres hsome
    intro p hp i
    rw [placeholderCount_eq]
    exact (hchoice p.condition (h p hp) i).1.mono (length_conditionTokens_le hp)
  · intro row bound hbound
    apply Store.blockValues_listBlocks _ hbound
    intro p hp i
    exact (hchoice p.condition (h p hp) i).2 row bound

/-! ## Lists of predicates on their own -/

/-- The filter that a list of predicates is on its own. Without predicates every
row passes. -/
def filterAlone? (g : Grammar) (predicates : List Predicate) : Option Filter :=
  if predicates.isEmpty then some (.all [])
  else Parser.whole? Parser.filter (g.wheres predicates).text

/-- The alternatives of that filter: what stands between the ORs outside
brackets. -/
def alternativesAlone? (g : Grammar) (predicates : List Predicate) :
    Option (List Filter) :=
  if predicates.isEmpty then some [.all []]
  else Parser.whole? Parser.alternatives (g.wheres predicates).text

theorem lexes_standing {predicates : List Predicate}
    (h : ∀ p ∈ predicates, g.Stands p.condition) :
    Lexes (g.wheres predicates).text.toList (g.wheresTokens predicates) :=
  lexes_wheres g fun p hp => (h p hp).lexable

theorem alone_of_blocks {predicates : List Predicate} {blocks : List (List Filter)}
    (hsome : predicates ≠ []) (h : ∀ p ∈ predicates, g.Stands p.condition)
    {n : Nat} (hblocks : Parser.Blocks (g.wheresTokens predicates).length
      (g.wheresTokens predicates) 0 blocks n) :
    g.filterAlone? predicates = some (Parser.filterOf blocks) ∧
      g.alternativesAlone? predicates = some (blocks.map Parser.conjunction) := by
  have hempty : predicates.isEmpty = false := by simpa using hsome
  have hfilter := Parser.reads_filter hblocks (Nat.le_refl _) [] (by simp)
  have halternatives :=
    Parser.reads_alternatives hblocks (Nat.le_refl _) [] (by simp)
  rw [List.append_nil] at hfilter halternatives
  rw [filterAlone?, alternativesAlone?, hempty, if_neg Bool.false_ne_true,
    if_neg Bool.false_ne_true]
  exact ⟨Parser.whole_of_takes (lexes_standing h) hfilter,
    Parser.whole_of_takes (lexes_standing h) halternatives⟩

/-! ## Folded writes -/

/-- A write whose conditions are folded into its predicates: these stand on
their own, and the conditions are some without raw text, all joined by AND. -/
structure Folds (g : Grammar) (q : Intent) : Prop where
  dialect : g.dialect = .sql
  wheres : ∀ p ∈ q.wheres, g.Stands p.condition
  conditional : q.ifConditions ≠ []
  ifConditions : ∀ p ∈ q.ifConditions, p.connector = .and ∧
    g.Expresses p.condition ∧ p.condition.rawText? = none

theorem Folds.expressed (h : g.Folds q) :
    ∀ p ∈ q.ifConditions, g.Expresses p.condition ∧ p.condition.rawText? = none :=
  fun p hp => (h.ifConditions p hp).2

/-- The conditions are one block. -/
theorem Folds.blockValues (h : g.Folds q) {n : Nat} {row : Row} {bound : List Value}
    (hbound : BoundAt bound n (Predicate.allBindings q.ifConditions)) :
    Store.blockValues row bound (whereBlocks n q.ifConditions) =
      [q.ifConditions.all fun p => p.condition.holds row] :=
  Store.blockValues_conjunctive h.conditional
    (fun p hp => (h.ifConditions p (List.mem_of_mem_tail hp)).1)
    (fun p hp => (h.ifConditions p hp).2.2) hbound

/-- Without predicates the folded filter is that of the conditions. -/
theorem evaluate_onlyConditions (h : g.Folds q) {n : Nat} {row : Row}
    {bound : List Value}
    (hbound : BoundAt bound n (Predicate.allBindings q.ifConditions)) :
    Store.evaluate row bound (wheresFilter n q.ifConditions) =
      q.ifConditions.all fun p => p.condition.holds row := by
  rw [wheresFilter, Store.evaluate_filterOf_blockValues, h.blockValues hbound]
  simp

/-- How a folded filter compares with the predicates alone. It passes the rows
that it should pass, and besides these, unless there are brackets, all that pass
an alternative before the last one. -/
structure FoldedFilter (g : Grammar) (q : Intent) (n : Nat) (f whole : Filter)
    (alternatives : List Filter) : Prop where
  written : g.WrittenFilters q n (some f) none
  readWhole : g.filterAlone? q.wheres = some whole
  readAlternatives : g.alternativesAlone? q.wheres = some alternatives
  whole_eq : ∀ row, Store.evaluate row (g.wheres q.wheres).params whole =
    alternatives.any (Store.evaluate row (g.wheres q.wheres).params)
  folded_eq : ∀ row bound, BoundAt bound n
      (Predicate.allBindings q.wheres ++ Predicate.allBindings q.ifConditions) →
    Store.evaluate row bound f =
      (alternatives.any (Store.evaluate row (g.wheres q.wheres).params) &&
          q.ifConditions.all (fun p => p.condition.holds row) ||
        !isDisjunctive q.wheres &&
          alternatives.dropLast.any (Store.evaluate row (g.wheres q.wheres).params))

theorem Folds.folded (h : g.Folds q) (n : Nat) :
    ∃ f whole alternatives, g.FoldedFilter q n f whole alternatives := by
  cases hwheres : q.wheres with
  | nil =>
    have hempty : q.ifConditions.isEmpty = false := by simpa using h.conditional
    have hwritten := written_conditions hwheres (conveys_expressed h.expressed) n
    rw [whereImage, hempty, if_neg Bool.false_ne_true] at hwritten
    refine ⟨_, .all [], [.all []], writtenFilters_sql h.dialect hwritten,
      ?_, ?_, ?_, ?_⟩
    · rw [filterAlone?, hwheres]
      rfl
    · rw [alternativesAlone?, hwheres]
      rfl
    · intro row
      rfl
    · intro row bound hbound
      rw [hwheres] at hbound ⊢
      rw [evaluate_onlyConditions h hbound]
      simp [Store.evaluate, Store.evaluateAll]
  | cons p rest =>
    have hsome : q.wheres ≠ [] := by simp [hwheres]
    have htokens :=
      wheresTokens_ne_nil (h.wheres p (by simp [hwheres])).tokens_ne_nil rest
    obtain ⟨r, others, hif⟩ := List.exists_cons_of_ne_nil h.conditional
    have hmore := wheresTokens_ne_nil (g := g)
      (conditionTokens_ne_nil (h.expressed r (by simp [hif])).2) others
    rw [← hwheres] at htokens
    rw [← hif] at hmore
    obtain ⟨blocks, values, hblocks⟩ := blocks_standing hsome h.wheres
    have hread := (hblocks n).1
    rw [length_allBindings] at hread
    have hwritten := written_folded (lexes_standing h.wheres)
      (lexes_expressed h.expressed) htokens hmore hread
      (blocks_whereBlocks h.conditional h.expressed _) (Nat.le_refl _)
    obtain ⟨hwhole, halternatives⟩ := alone_of_blocks hsome h.wheres (hblocks 0).1
    refine ⟨_, _, _, writtenFilters_sql h.dialect hwritten, hwhole,
      halternatives, ?_, ?_⟩
    · intro row
      exact Store.evaluate_disjunction _
    · intro row bound hbound
      obtain ⟨hfirst, hsecond⟩ := Store.boundAt_append hbound
      rw [length_allBindings] at hsecond
      have hown : ((blocks 0).map Parser.conjunction).map
          (Store.evaluate row (g.wheres q.wheres).params) = values row := by
        rw [Store.map_evaluate_conjunction]
        apply (hblocks 0).2
        exact ⟨[], [], by simp, rfl⟩
      have hvalues : Store.blockValues row bound (blocks n) = values row :=
        (hblocks n).2 row bound hfirst
      rw [any_eq_any_map, any_dropLast, hown, ← hvalues]
      exact Store.evaluate_glue (isDisjunctive q.wheres)
        (Parser.Chain.values_ne_nil (hblocks n).1) (h.blockValues hsecond)

theorem FoldedFilter.narrows_iff {n : Nat} {f whole : Filter}
    {alternatives : List Filter} (h : g.FoldedFilter q n f whole alternatives)
    {bound : List Value}
    (hbound : BoundAt bound n
      (Predicate.allBindings q.wheres ++ Predicate.allBindings q.ifConditions))
    (row : Row) :
    (Store.evaluate row bound f =
      (Store.evaluate row (g.wheres q.wheres).params whole &&
        q.ifConditions.all fun p => p.condition.holds row)) ↔
      (isDisjunctive q.wheres = true ∨
        alternatives.dropLast.any (Store.evaluate row (g.wheres q.wheres).params) =
          false ∨ (q.ifConditions.all fun p => p.condition.holds row) = true) := by
  generalize htest : Store.evaluate row (g.wheres q.wheres).params = test
  have himp : alternatives.dropLast.any test = true →
      alternatives.any test = true := by
    intro hany
    obtain ⟨f, hmem, hf⟩ := List.any_eq_true.mp hany
    exact List.any_eq_true.mpr
      ⟨f, (List.dropLast_sublist alternatives).mem hmem, hf⟩
  have hwhole := h.whole_eq row
  have hfolded := h.folded_eq row bound hbound
  rw [htest] at hwhole hfolded
  rw [hwhole, hfolded]
  cases hearly : alternatives.dropLast.any test with
  | true =>
    rw [himp hearly]
    cases isDisjunctive q.wheres <;> simp
  | false => simp

/-- The filter and the conditions of a statement that writes to the rows it
finds. -/
def writeFilters? : Statement → Option (Option Filter × Option Filter)
  | .update s => some (s.filter, s.conditions)
  | .delete s => some (s.filter, s.conditions)
  | .select _ | .insert _ => none

theorem Folds.readableTable (h : g.Folds q) : g.ReadableTable q.table := by
  constructor
  · intro segment _ hcql
    exact absurd (h.dialect.symm.trans hcql) (by simp)
  · intro qualifier _ hcql
    exact absurd (h.dialect.symm.trans hcql) (by simp)

theorem parse_folded {r : Request} (h : g.Folds q)
    (hwrite : r = .delete ∨ ∃ values, r = .update values)
    (hr : g.ReadableRequest q r) (hc : g.compile q r = .ok c) :
    ∃ s n f whole alternatives, ParsedCommand.parse c.text =
        .ok ⟨s, c.params.length⟩ ∧ writeFilters? s = some (some f, none) ∧
      g.FoldedFilter q n f whole alternatives ∧
      BoundAt c.params n (Predicate.allBindings q.wheres ++
        Predicate.allBindings q.ifConditions) := by
  rcases hwrite with rfl | ⟨values, rfl⟩
  · obtain ⟨f, whole, alternatives, hfolded⟩ := h.folded 0
    refine ⟨_, 0, f, whole, alternatives,
      parse_delete h.readableTable hr hfolded.written hc, rfl, hfolded, ?_⟩
    obtain ⟨-, rfl⟩ := delete_eq_ok hc
    exact ⟨[], [], by simp [Fragment.command], rfl⟩
  · obtain ⟨f, whole, alternatives, hfolded⟩ := h.folded values.length
    refine ⟨_, values.length, f, whole, alternatives,
      parse_update h.readableTable hr hfolded.written hc, rfl, hfolded, ?_⟩
    obtain ⟨-, -, rfl⟩ := update_eq_ok hc
    exact ⟨values.map Prod.snd, [], by simp [Fragment.command], by simp⟩

/-- A write is read back with one filter. On a row this filter is what the
predicates alone and all the conditions say exactly if the predicates are
bracketed, or the row passes none of their alternatives before the last one, or
the conditions hold of it anyway. -/
theorem folded_write_narrows_iff (g : Grammar) (q : Intent) (r : Request)
    (c : Command) (h : g.Folds q)
    (hwrite : r = .delete ∨ ∃ values, r = .update values)
    (hr : g.ReadableRequest q r) (hc : g.compile q r = .ok c) :
    ∃ s f whole alternatives, ParsedCommand.parse c.text =
        .ok ⟨s, c.params.length⟩ ∧
      writeFilters? s = some (some f, none) ∧ g.filterAlone? q.wheres = some whole ∧
      g.alternativesAlone? q.wheres = some alternatives ∧
      ∀ row, (Store.evaluate row c.params f =
          (Store.evaluate row (g.wheres q.wheres).params whole &&
            q.ifConditions.all fun p => p.condition.holds row)) ↔
        (isDisjunctive q.wheres = true ∨ alternatives.dropLast.any
            (Store.evaluate row (g.wheres q.wheres).params) = false ∨
          (q.ifConditions.all fun p => p.condition.holds row) = true) := by
  obtain ⟨s, n, f, whole, alternatives, hparse, hfilters, hfolded, hbound⟩ :=
    parse_folded h hwrite hr hc
  exact ⟨s, f, whole, alternatives, hparse, hfilters, hfolded.readWhole,
    hfolded.readAlternatives, hfolded.narrows_iff hbound⟩

/-- A write whose raw text holds an OR that no connector shows. -/
def looseWrite : Intent where
  table := "stock"
  wheres := [⟨.and, .raw "id = 1 OR id = 2"⟩]
  ifConditions := [⟨.and, .basic "version" .eq (.int 4)⟩]

/-- The raw text is two alternatives. -/
theorem blocks_looseWrite :
    Parser.Blocks 0 (wheresTokens ⟨.sql, none⟩ looseWrite.wheres) 0
      [[.compare "id" .eq (.literal (.int 1))],
        [.compare "id" .eq (.literal (.int 2))]] 0 := by
  have hcolumn : Parser.ColumnPath [.name "id"] "id" := .last (by cbv)
  have hvalue (n : Int64) : Parser.OperandAt (.int n) 0 (.literal (.int n)) 0 :=
    ⟨fun rest => Parser.takes_next fun _ => Parser.takes_pure _ rest 0,
      by simp, by simp⟩
  have hterm (n : Int64) : Parser.Terms 0 [.name "id", .symbol .eq, .int n] 0
      [.compare "id" .eq (.literal (.int n))] 0 :=
    .one fun _ _ => Parser.reads_term_column hcolumn
      (Parser.reads_compare hcolumn .eq (hvalue n))
  exact (hterm 1).blocks.or (hterm 2).blocks

theorem accepted_looseWrite : Accepted "id = 1 OR id = 2" where
  free := by decide
  whole := by
    have hlexes : Lexes "id = 1 OR id = 2".toList
        (wheresTokens ⟨.sql, none⟩ looseWrite.wheres) :=
      Token.lexes_of_read (rfl : Token.read "id = 1 OR id = 2" = .ok _)
    have hfilter :=
      Parser.reads_filter blocks_looseWrite (Nat.zero_le _) [] (by simp)
    rw [List.append_nil] at hfilter
    rw [Parser.whole_of_takes hlexes hfilter]
    rfl

theorem folds_looseWrite : (⟨.sql, none⟩ : Grammar).Folds looseWrite where
  dialect := rfl
  wheres := by
    intro p hp
    obtain rfl := List.mem_singleton.mp hp
    refine ⟨by decide, fun text htext => ?_⟩
    obtain rfl := Option.some.inj htext
    exact accepted_looseWrite
  conditional := by decide
  ifConditions := by decide

theorem folded_write_narrows_iff_looseWrite :
    ∃ c, (⟨.sql, none⟩ : Grammar).compile looseWrite (.update [("note", .int 7)]) =
        .ok c ∧
      ∃ s f whole alternatives, ParsedCommand.parse c.text =
          .ok ⟨s, c.params.length⟩ ∧ writeFilters? s = some (some f, none) ∧
        (⟨.sql, none⟩ : Grammar).filterAlone? looseWrite.wheres = some whole ∧
        (⟨.sql, none⟩ : Grammar).alternativesAlone? looseWrite.wheres =
          some alternatives ∧
        ∀ row, (Store.evaluate row c.params f = (Store.evaluate row
                ((⟨.sql, none⟩ : Grammar).wheres looseWrite.wheres).params whole &&
              looseWrite.ifConditions.all fun p => p.condition.holds row)) ↔
          (isDisjunctive looseWrite.wheres = true ∨
            alternatives.dropLast.any (Store.evaluate row
                ((⟨.sql, none⟩ : Grammar).wheres looseWrite.wheres).params) =
              false ∨
            (looseWrite.ifConditions.all fun p => p.condition.holds row) = true) :=
  ⟨_, rfl, folded_write_narrows_iff ⟨.sql, none⟩ looseWrite
    (.update [("note", .int 7)]) _ folds_looseWrite (.inr ⟨_, rfl⟩) (by decide) rfl⟩

/-- The filter of the loose write: its condition binds to the last alternative
only. -/
def looseFilter : Filter :=
  .any [.compare "id" .eq (.literal (.int 1)),
    .all [.compare "id" .eq (.literal (.int 2)), .compare "version" .eq (.param 0)]]

def staleRow : Row := ((∅ : Row).insert "id" (.int 1)).insert "version" (.int 5)

/-- A row that fails the condition of a deletion, and is deleted. -/
theorem looseWrite_deletes_staleRow :
    (⟨.sql, none⟩ : Grammar).compile looseWrite .delete =
        .ok ⟨"DELETE FROM \"stock\" WHERE id = 1 OR id = 2 AND \"version\" = ?",
            [.int 4]⟩ ∧
      ParsedCommand.parse
          "DELETE FROM \"stock\" WHERE id = 1 OR id = 2 AND \"version\" = ?" =
        .ok ⟨.delete ⟨"stock", [], some looseFilter, none⟩, 1⟩ ∧
      Store.evaluate staleRow [.int 4] looseFilter = true ∧
      looseWrite.ifConditions.all (fun p => p.condition.holds staleRow) =
        false := by
  have hfolds := folds_looseWrite
  have hcompile : (⟨.sql, none⟩ : Grammar).compile looseWrite .delete =
      .ok ⟨"DELETE FROM \"stock\" WHERE id = 1 OR id = 2 AND \"version\" = ?",
        [.int 4]⟩ := rfl
  have hwritten := written_folded (lexes_standing hfolds.wheres)
    (lexes_expressed hfolds.expressed) (by decide) (by decide) blocks_looseWrite
    (blocks_whereBlocks hfolds.conditional hfolds.expressed 0) (Nat.zero_le _)
  have hfilters : (⟨.sql, none⟩ : Grammar).WrittenFilters looseWrite 0
      (some looseFilter) none :=
    writtenFilters_sql rfl hwritten
  have hparse := parse_delete hfolds.readableTable
    (by simp [looseWrite, Selection.names]) hfilters hcompile
  have himage : deleteImage looseWrite (some looseFilter) none =
      ⟨"stock", [], some looseFilter, none⟩ := rfl
  rw [himage] at hparse
  exact ⟨hcompile, hparse, rfl, rfl⟩

end Grammar

end EntityMapper
