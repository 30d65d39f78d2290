import EntityMapper.Proofs.Grammar.Names
import EntityMapper.Proofs.Statement.Filters

/-!
# Predicates as filters

What the filter parser reads from a list of predicates. A condition is read as
one or two terms, whose placeholders are numbered from the position of the
condition; an AND joins terms and an OR separates them, so the list falls into
blocks: it is cut before every predicate after the first whose connector is OR.
-/

namespace EntityMapper

/-! ## Cutting lists -/

/-- Put an element into the first part. -/
def consFirst {α : Type} (x : α) : List (List α) → List (List α)
  | [] => [[x]]
  | part :: parts => (x :: part) :: parts

/-- Cut a list before every element after the first that starts a part. -/
def cutBefore {α : Type} (starts : α → Bool) : List α → List (List α)
  | [] => []
  | [x] => [[x]]
  | x :: y :: rest =>
    if starts y then [x] :: cutBefore starts (y :: rest)
    else consFirst x (cutBefore starts (y :: rest))

theorem cutBefore_ne_nil {α : Type} (starts : α → Bool) (x : α) (rest : List α) :
    cutBefore starts (x :: rest) ≠ [] := by
  cases rest with
  | nil => simp [cutBefore]
  | cons y rest =>
    rw [cutBefore]
    split
    · simp
    · cases cutBefore starts (y :: rest) <;> simp [consFirst]

/-! ## Images of predicates -/

/-- The placeholders from a position on, one for each value. -/
def params (n : Nat) (values : List Value) : List Operand :=
  (List.range' n values.length).map .param

/-- The column of a condition as the parser reads it. -/
def columnOf (column : String) : String := lastSegment column.toList

/-- The terms that a condition is read as, its placeholders numbered from `n`. -/
def Condition.terms (n : Nat) : Condition → List Filter
  | .basic column operator _ => [.compare (columnOf column) operator (.param n)]
  | .isIn column values => [.member (columnOf column) false (params n values)]
  | .notIn column values => [.member (columnOf column) true (params n values)]
  | .between column _ _ =>
    [.compare (columnOf column) .ge (.param n),
      .compare (columnOf column) .le (.param (n + 1))]
  | .isNull column => [.isNull (columnOf column) false]
  | .notNull column => [.isNull (columnOf column) true]
  | .token columns operator values =>
    [.token (columns.map columnOf) operator (params n values)]
  | .raw _ => []

/-- Whether a predicate begins a new block. -/
def Predicate.startsBlock (p : Predicate) : Bool := p.connector == .or

/-- Predicates with the position of their first placeholder. -/
def numbered (n : Nat) (predicates : List Predicate) : List (Nat × Predicate) :=
  Parser.placed Predicate.placeholderCount Prod.mk n predicates

/-- The blocks of terms that a list of predicates is read as, its placeholders
numbered from `n`. -/
def whereBlocks (n : Nat) (predicates : List Predicate) : List (List Filter) :=
  (cutBefore (fun x => x.2.startsBlock) (numbered n predicates)).map fun block =>
    block.flatMap fun (i, p) => p.condition.terms i

/-- The filter that a list of predicates is read as. -/
def wheresFilter (n : Nat) (predicates : List Predicate) : Filter :=
  Parser.filterOf (whereBlocks n predicates)

/-- The blocks of two lists with a connector between them. -/
def joinBlocks :
    Connector → List (List Filter) → List (List Filter) → List (List Filter)
  | .and, first, second => Parser.glue first second
  | .or, first, second => first ++ second

/-- The blocks of a list of predicates, given those of each condition at its
position. -/
def listBlocks (blocks : Nat → Condition → List (List Filter)) :
    Nat → List Predicate → List (List Filter)
  | _, [] => []
  | n, [p] => blocks n p.condition
  | n, p :: q :: rest =>
    joinBlocks q.connector (blocks n p.condition)
      (listBlocks blocks (n + p.placeholderCount) (q :: rest))

/-- Without raw text, the blocks are those between the predicates that start one. -/
theorem listBlocks_terms (n : Nat) (predicates : List Predicate) :
    listBlocks (fun i c => [c.terms i]) n predicates =
      whereBlocks n predicates := by
  induction predicates generalizing n with
  | nil => rfl
  | cons p rest ih =>
    cases rest with
    | nil => simp [listBlocks, whereBlocks, numbered, Parser.placed, cutBefore]
    | cons q rest =>
      have hrest := ih (n + p.placeholderCount)
      have hsome := cutBefore_ne_nil (fun x : Nat × Predicate => x.2.startsBlock)
        (n + p.placeholderCount, q)
        (numbered (n + p.placeholderCount + q.placeholderCount) rest)
      simp only [whereBlocks, numbered, Parser.placed, cutBefore] at hrest hsome ⊢
      rw [listBlocks, hrest]
      obtain ⟨first, more, hcut⟩ := List.exists_cons_of_ne_nil hsome
      rw [hcut]
      cases hconnector : q.connector with
      | or => simp [joinBlocks, Predicate.startsBlock, hconnector]
      | and =>
        simp [joinBlocks, Predicate.startsBlock, hconnector, Parser.glue, consFirst]

namespace Grammar

variable {g : Grammar}

/-- A comparison of tokens has columns, values and an operator that compares. -/
def ComparesTokens : Condition → Prop
  | .token columns operator values =>
    columns ≠ [] ∧ operator.isComparison = true ∧ values ≠ []
  | _ => True

instance : (c : Condition) → Decidable (ComparesTokens c)
  | .token columns operator values =>
    inferInstanceAs
      (Decidable (columns ≠ [] ∧ operator.isComparison = true ∧ values ≠ []))
  | .basic .. | .isIn .. | .notIn .. | .between .. | .isNull .. | .notNull ..
  | .raw .. => isTrue trivial

/-- A condition that is read back: its columns are readable, and a comparison of
tokens is one. -/
structure Expresses (g : Grammar) (c : Condition) : Prop where
  columns : ∀ column ∈ c.columns, g.ReadablePath column
  token : ComparesTokens c

instance (g : Grammar) (c : Condition) : Decidable (g.Expresses c) :=
  decidable_of_iff ((∀ column ∈ c.columns, g.ReadablePath column) ∧
      ComparesTokens c) ⟨fun h => ⟨h.1, h.2⟩, fun h => ⟨h.columns, h.token⟩⟩

/-- A condition without raw text of which every column is read back, and a
comparison of tokens is one. -/
structure Conveys (g : Grammar) (c : Condition) : Prop where
  columns : ∀ column ∈ c.columns, g.ReadsBack column
  token : ComparesTokens c
  raw : c.rawText? = none

theorem Expresses.conveys {c : Condition} (h : g.Expresses c)
    (hraw : c.rawText? = none) : g.Conveys c :=
  ⟨fun column hmem => (h.columns column hmem).readsBack, h.token, hraw⟩

theorem conveys_expressed {predicates : List Predicate}
    (h : ∀ p ∈ predicates, g.Expresses p.condition ∧ p.condition.rawText? = none) :
    ∀ p ∈ predicates, g.Conveys p.condition :=
  fun p hp => (h p hp).1.conveys (h p hp).2

theorem Conveys.lexable {c : Condition} (h : g.Conveys c) : g.Lexable c := by
  refine ⟨fun column hmem => (h.columns column hmem).lexed, ?_⟩
  simp [h.raw]

theorem Conveys.terms {c : Condition} (h : g.Conveys c) (n : Nat) :
    Parser.Terms 0 (g.conditionTokens c) n (c.terms n)
      (n + c.placeholderCount) := by
  have hpath : ∀ column ∈ c.columns,
      Parser.ColumnPath (g.columnTokens column) (columnOf column) :=
    fun column hmem => (h.columns column hmem).path
  have hterm {tokens : List Token} {column : String} {f : Filter} {m k : Nat}
      (hcolumn : column ∈ c.columns)
      (hreads : Parser.columnFilter.Reads [] (g.columnTokens column ++ tokens) m
        f k) : Parser.TermAt 0 (g.columnTokens column ++ tokens) m f k :=
    fun fuel _ => Parser.reads_term_column (hpath column hcolumn) hreads
  cases c with
  | basic column operator value =>
    have hmem : column ∈ (Condition.basic column operator value).columns :=
      List.mem_singleton_self _
    exact .one (hterm hmem (Parser.reads_compare (hpath column hmem) operator
      (Parser.operandAt_placeholder n)))
  | isIn column values =>
    have hmem : column ∈ (Condition.isIn column values).columns :=
      List.mem_singleton_self _
    exact .one (hterm hmem (Parser.reads_member (hpath column hmem)
      (Parser.members_placeholders values n)))
  | notIn column values =>
    have hmem : column ∈ (Condition.notIn column values).columns :=
      List.mem_singleton_self _
    exact .one (hterm hmem (Parser.reads_notMember (hpath column hmem)
      (Parser.members_placeholders values n)))
  | between column low high =>
    have hmem : column ∈ (Condition.between column low high).columns :=
      List.mem_singleton_self _
    have hlow := hterm hmem (Parser.reads_compare (hpath column hmem) .ge
      (Parser.operandAt_placeholder n))
    have hhigh := hterm hmem (Parser.reads_compare (hpath column hmem) .le
      (Parser.operandAt_placeholder (n + 1)))
    exact .more hlow (.one hhigh)
  | isNull column =>
    have hmem : column ∈ (Condition.isNull column).columns :=
      List.mem_singleton_self _
    exact .one (hterm hmem (Parser.reads_isNull (hpath column hmem) n))
  | notNull column =>
    have hmem : column ∈ (Condition.notNull column).columns :=
      List.mem_singleton_self _
    exact .one (hterm hmem (Parser.reads_notNull (hpath column hmem) n))
  | token columns operator values =>
    obtain ⟨hcolumns, hoperator, hvalues⟩ := h.token
    obtain ⟨t, htokens, ht⟩ := Parser.exists_comparison hoperator
    rw [conditionTokens, htokens]
    exact .one fun fuel _ => Parser.reads_token (Parser.columns_map hcolumns hpath)
      ht (Parser.operands_placeholders hvalues n) _
  | raw text => exact absurd h.raw (by simp [Condition.rawText?])

theorem Expresses.lexable {c : Condition} (h : g.Expresses c)
    (hraw : c.rawText? = none) : g.Lexable c := (h.conveys hraw).lexable

/-- The placeholders of a list of predicates. -/
def placeholderSum : List Predicate → Nat
  | [] => 0
  | p :: rest => p.placeholderCount + placeholderSum rest

theorem length_bindings (c : Condition) :
    c.bindings.length = c.placeholderCount := by
  cases c <;> rfl

theorem placeholderCount_eq (p : Predicate) :
    p.placeholderCount = p.bindings.length :=
  (length_bindings p.condition).symm

theorem length_allBindings (predicates : List Predicate) :
    (Predicate.allBindings predicates).length = placeholderSum predicates := by
  induction predicates with
  | nil => rfl
  | cons p rest ih =>
    calc
      (Predicate.allBindings (p :: rest)).length =
          (p.bindings ++ Predicate.allBindings rest).length := rfl
      _ = p.bindings.length + placeholderSum rest := by rw [List.length_append, ih]
      _ = placeholderSum (p :: rest) := by
        rw [← placeholderCount_eq, placeholderSum]

/-- A list of predicates is read as the blocks its conditions are read as. -/
theorem blocks_wheres {k : Nat} {blocks : Nat → Condition → List (List Filter)}
    {predicates : List Predicate} (hsome : predicates ≠ [])
    (h : ∀ p ∈ predicates, ∀ n, Parser.Blocks k (g.conditionTokens p.condition) n
      (blocks n p.condition) (n + p.placeholderCount)) (n : Nat) :
    Parser.Blocks k (g.wheresTokens predicates) n (listBlocks blocks n predicates)
      (n + placeholderSum predicates) := by
  induction predicates generalizing n with
  | nil => exact absurd rfl hsome
  | cons p rest ih =>
    have hp := h p (List.mem_cons_self ..) n
    cases rest with
    | nil => simpa [wheresTokens, moreTokens, listBlocks, placeholderSum] using hp
    | cons q rest =>
      have hrest := ih (by simp) (fun r hr => h r (List.mem_cons_of_mem p hr))
        (n + p.placeholderCount)
      have hsum : n + placeholderSum (p :: q :: rest) =
          n + p.placeholderCount + placeholderSum (q :: rest) := by
        simp [placeholderSum, Nat.add_assoc]
      rw [hsum]
      cases hconnector : q.connector with
      | or =>
        have hjoined := Parser.Blocks.or hp hrest
        simpa [wheresTokens, moreTokens, listBlocks, joinBlocks, hconnector,
          Connector.token] using hjoined
      | and =>
        have hjoined := Parser.Blocks.and hp hrest
        simpa [wheresTokens, moreTokens, listBlocks, joinBlocks, hconnector,
          Connector.token] using hjoined

/-- A list of predicates without raw text is read as its blocks. -/
theorem blocks_conveyed {predicates : List Predicate} (hsome : predicates ≠ [])
    (h : ∀ p ∈ predicates, g.Conveys p.condition) (n : Nat) :
    Parser.Blocks 0 (g.wheresTokens predicates) n (whereBlocks n predicates)
      (n + placeholderSum predicates) := by
  rw [← listBlocks_terms]
  exact blocks_wheres hsome (fun p hp i => ((h p hp).terms i).blocks) n

theorem blocks_whereBlocks {predicates : List Predicate} (hsome : predicates ≠ [])
    (h : ∀ p ∈ predicates, g.Expresses p.condition ∧ p.condition.rawText? = none)
    (n : Nat) :
    Parser.Blocks 0 (g.wheresTokens predicates) n (whereBlocks n predicates)
      (n + placeholderSum predicates) :=
  blocks_conveyed hsome (conveys_expressed h) n

theorem reads_conveyed {predicates : List Predicate} (hsome : predicates ≠ [])
    (h : ∀ p ∈ predicates, g.Conveys p.condition) (n : Nat) :
    Parser.filter.Reads [.keyword .or, .keyword .and] (g.wheresTokens predicates) n
      (wheresFilter n predicates) (n + placeholderSum predicates) :=
  Parser.reads_filter (blocks_conveyed hsome h n) (Nat.zero_le _)

theorem reads_wheres {predicates : List Predicate} (hsome : predicates ≠ [])
    (h : ∀ p ∈ predicates, g.Expresses p.condition ∧ p.condition.rawText? = none)
    (n : Nat) :
    Parser.filter.Reads [.keyword .or, .keyword .and] (g.wheresTokens predicates)
      n (wheresFilter n predicates) (n + placeholderSum predicates) :=
  reads_conveyed hsome (conveys_expressed h) n

end Grammar

end EntityMapper
