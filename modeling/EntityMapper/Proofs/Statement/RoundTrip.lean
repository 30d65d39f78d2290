import EntityMapper.Proofs.Statement.Canonical
import EntityMapper.Proofs.Statement.Numbering

/-!
# Canonical texts are read back

The parser reads the canonical text of a well-formed statement as that
statement. A chain of terms is read as a chain whatever stands behind it, and
brackets make a term of a filter; so every filter is read back in each of the
three places where it can stand: between ANDs, between ORs, and on its own. The
proof is an induction on the filter that carries all three. The placeholders are
numbered as they are met, so a statement comes back if it refers to its
parameters in the order of its text.
-/

namespace EntityMapper

/-! ## Counting parameters -/

/-- The operands refer to the parameters from `n` up to `m`, one after the other. -/
def Operand.Counts (n : Nat) (operands : List Operand) (m : Nat) : Prop :=
  Operand.indices operands = List.range' n (Operand.indices operands).length ∧
    m = n + (Operand.indices operands).length

namespace Operand.Counts

variable {n m : Nat} {first second : List Operand}

theorem nil (h : Counts n [] m) : n = m := by simpa using h.2.symm

theorem literal {value : Value} (h : Counts n [.literal value] m) : n = m := by
  simpa [indices, index?, List.filterMap] using h.2.symm

theorem param {i : Nat} (h : Counts n [.param i] m) : i = n ∧ m = n + 1 := by
  simpa [Counts, indices, index?, List.filterMap, List.range'] using h

/-- The second of two lists counts on where the first one stops. -/
theorem split (h : Counts n (first ++ second) m) :
    ∃ k, Counts n first k ∧ Counts k second m := by
  obtain ⟨hindices, hend⟩ := h
  rw [indices_append] at hindices hend
  rw [List.length_append, ← List.range'_append_1] at hindices
  obtain ⟨hfirst, hsecond⟩ := List.append_inj hindices (by simp)
  refine ⟨n + (indices first).length, ⟨hfirst, rfl⟩, hsecond, ?_⟩
  rw [hend, List.length_append, Nat.add_assoc]

end Operand.Counts

namespace Parser

variable {α β : Type} {item : List Token → Nat → α → Nat → Prop} {separator : Token}
  {n m : Nat}

open Operand (Counts)

/-- Items that are read one by one, each counting on from the one before, are
read as a chain. -/
theorem chain_counts {xs : List β} {tokens : β → List Token}
    {operands : β → List Operand} {value : β → α} (hsome : xs ≠ [])
    (h : ∀ x ∈ xs, ∀ n m, Counts n (operands x) m → item (tokens x) n (value x) m)
    (hcounts : Counts n (xs.flatMap operands) m) :
    Chain item separator ([separator].intercalate (xs.map tokens)) n
      (xs.map value) m := by
  induction xs generalizing n with
  | nil => exact absurd rfl hsome
  | cons x rest ih =>
    rw [List.flatMap_cons] at hcounts
    obtain ⟨k, hfirst, hrest⟩ := hcounts.split
    have hx := h x (List.mem_cons_self ..) n k hfirst
    cases rest with
    | nil =>
      obtain rfl := hrest.nil
      simpa using Chain.one hx
    | cons y rest =>
      have hchain := Chain.more hx
        (ih (by simp) (fun z hz => h z (List.mem_cons_of_mem x hz)) hrest)
      simpa [List.intercalate_cons_cons] using hchain

/-! ## Values and columns -/

theorem operandAt_token {o : Operand} (ho : o.wellFormed = true)
    (h : Counts n [o] m) : OperandAt o.token n o m := by
  cases o with
  | param i =>
    obtain ⟨rfl, rfl⟩ := h.param
    exact operandAt_placeholder i
  | literal value =>
    obtain rfl := h.literal
    refine operandAt_literal ?_ n
    rw [Operand.wellFormed] at ho
    cases value with
    | null | int _ | text _ => rfl
    | bool b => cases b <;> rfl
    | _ => cases ho

theorem operands_list {operands : List Operand} (hsome : operands ≠ [])
    (hproper : operands.all Operand.wellFormed = true) (h : Counts n operands m) :
    Operands (Operand.list operands) n operands m := by
  have hflat : operands.flatMap (fun o => [o]) = operands :=
    List.flatMap_singleton' operands
  have hitem : ∀ o ∈ operands,
      ∀ n m, Counts n [o] m → OperandItem [o.token] n (id o) m :=
    fun o ho n m hcounts =>
      ⟨_, rfl, operandAt_token (List.all_eq_true.mp hproper o ho) hcounts⟩
  have hchain : Chain OperandItem (.symbol .comma) (Operand.list operands) n
      (operands.map id) m :=
    chain_counts hsome hitem (by rwa [hflat])
  rwa [List.map_id] at hchain

theorem members_list {operands : List Operand}
    (hproper : operands.all Operand.wellFormed = true) (h : Counts n operands m) :
    Members (Operand.list operands) n operands m := by
  cases operands with
  | nil => exact .inl ⟨rfl, rfl, h.nil⟩
  | cons o rest => exact .inr (operands_list (List.cons_ne_nil o rest) hproper h)

theorem path_quotedName (name : String) : Path [.quotedName name] name := .last rfl

theorem columns_names {columns : List String} (hsome : columns ≠ []) :
    Columns (Token.names columns) columns := by
  have hcolumns : Columns (Token.names columns) (columns.map id) :=
    columns_map hsome fun c _ => (path_quotedName c).column
  rwa [List.map_id] at hcolumns

end Parser

/-! ## Filters -/

namespace Filter

open EntityMapper.Parser
open Operand (Counts)

mutual

/-- A property that chains have if their parts have it, and that everything else
has, is one of every filter. -/
theorem induction_on {P : Filter → Prop}
    (hall : ∀ terms, (∀ f ∈ terms, P f) → P (.all terms))
    (hany : ∀ terms, (∀ f ∈ terms, P f) → P (.any terms))
    (hleaf : ∀ f, f.isChain = false → P f) : (f : Filter) → P f
  | .all terms => hall terms (induction_on_all hall hany hleaf terms)
  | .any terms => hany terms (induction_on_all hall hany hleaf terms)
  | .compare _ _ _ => hleaf _ rfl
  | .member _ _ _ => hleaf _ rfl
  | .isNull _ _ => hleaf _ rfl
  | .token _ _ _ => hleaf _ rfl

theorem induction_on_all {P : Filter → Prop}
    (hall : ∀ terms, (∀ f ∈ terms, P f) → P (.all terms))
    (hany : ∀ terms, (∀ f ∈ terms, P f) → P (.any terms))
    (hleaf : ∀ f, f.isChain = false → P f) :
    (terms : List Filter) → ∀ f ∈ terms, P f
  | [] => by simp
  | f :: rest =>
    List.forall_mem_cons.mpr
      ⟨induction_on hall hany hleaf f, induction_on_all hall hany hleaf rest⟩

end

/-- The tokens of a filter between ANDs. -/
def conjunct (f : Filter) : List Token :=
  if f.isChain then Token.bracketed f.tokens else f.tokens

/-- The tokens of a filter between ORs. -/
def alternative (f : Filter) : List Token :=
  if f.isAny then Token.bracketed f.tokens else f.tokens

theorem conjunctTokens_eq (terms : List Filter) :
    conjunctTokens terms = terms.map conjunct := by
  induction terms with
  | nil => rfl
  | cons f rest ih => rw [conjunctTokens, ih, List.map_cons, conjunct]

theorem alternativeTokens_eq (terms : List Filter) :
    alternativeTokens terms = terms.map alternative := by
  induction terms with
  | nil => rfl
  | cons f rest ih => rw [alternativeTokens, ih, List.map_cons, alternative]

theorem wellFormedAll_eq (terms : List Filter) :
    wellFormedAll terms = terms.all wellFormed := by
  induction terms with
  | nil => rfl
  | cons f rest ih => rw [wellFormedAll, ih, List.all_cons]

/-- The terms that a filter contributes to a chain of ANDs that it is a part of. -/
def terms : Filter → List Filter
  | .all terms => terms
  | f => [f]

/-- The blocks that a filter is read as. -/
def blocks : Filter → List (List Filter)
  | .any alternatives => alternatives.map terms
  | f => [f.terms]

theorem conjunction_terms {f : Filter} (h : f.wellFormed = true) :
    conjunction f.terms = f := by
  cases f with
  | all terms =>
    simp only [wellFormed, Bool.and_eq_true, decide_eq_true_eq] at h
    match terms, h.1 with
    | _ :: _ :: _, _ => rfl
  | _ => rfl

theorem filterOf_blocks {f : Filter} (h : f.wellFormed = true) :
    filterOf f.blocks = f := by
  cases f with
  | any terms =>
    simp only [wellFormed, Bool.and_eq_true, decide_eq_true_eq, wellFormedAll_eq,
      List.all_eq_true] at h
    have hsame : (terms.map Filter.terms).map conjunction = terms := by
      calc
        (terms.map Filter.terms).map conjunction =
            terms.map (conjunction ∘ Filter.terms) := List.map_map
        _ = terms.map id :=
          List.map_congr_left fun f hf => conjunction_terms (h.2 f hf)
        _ = terms := List.map_id terms
    rw [blocks, filterOf, hsame]
    match terms, h.1 with
    | _ :: _ :: _, _ => rfl
  | all terms => exact conjunction_terms (f := .all terms) h
  | _ => rfl

/-- The filter is read back wherever it stands: on its own, between ORs and
between ANDs. -/
structure ReadsBack (f : Filter) (n m : Nat) : Prop where
  whole : Blocks f.tokens.length f.tokens n f.blocks m
  alternative : Terms f.alternative.length f.alternative n f.terms m
  conjunct : TermAt f.conjunct.length f.conjunct n f m

/-- A filter that is read on its own is read between brackets. -/
theorem termAt_bracketed {f : Filter} {n m : Nat} (hproper : f.wellFormed = true)
    (h : Blocks f.tokens.length f.tokens n f.blocks m) :
    TermAt (Token.bracketed f.tokens).length (Token.bracketed f.tokens) n f m := by
  have hterm := termAt_bracket h
  rw [filterOf_blocks hproper] at hterm
  exact hterm.mono (by simp [Token.bracketed])

/-- A filter that is no chain is a term. -/
theorem ReadsBack.of_term {f : Filter} {n m : Nat} (hleaf : f.isChain = false)
    (h : ∀ inner, (term inner).Reads [] f.tokens n f m) : f.ReadsBack n m := by
  have hterm : TermAt f.tokens.length f.tokens n f m := fun fuel _ => h _
  cases f with
  | all | any => cases hleaf
  | _ => exact ⟨Terms.blocks (.one hterm), .one hterm, hterm⟩

theorem length_le_intercalate {separator : Token} {items : List (List Token)}
    {item : List Token} (h : item ∈ items) :
    item.length ≤ ([separator].intercalate items).length := by
  induction items with
  | nil => cases h
  | cons first rest ih =>
    cases rest with
    | nil =>
      obtain rfl := List.mem_singleton.mp h
      simp
    | cons next rest =>
      rw [List.intercalate_cons_cons, List.length_append, List.length_append]
      rcases List.mem_cons.mp h with rfl | h
      · omega
      · have hle := ih h
        omega

/-- A condition on one column, or on a partition token, is a term. -/
theorem readsBack_leaf {f : Filter} {n m : Nat} (hleaf : f.isChain = false)
    (hproper : f.wellFormed = true) (hcounts : Counts n f.operands m) :
    f.ReadsBack n m := by
  refine .of_term hleaf fun inner => ?_
  have hcolumn (name : String) := (path_quotedName name).column
  cases f with
  | all | any => cases hleaf
  | compare column operator operand =>
    exact reads_term_column (hcolumn column)
      (reads_compare (hcolumn column) operator (operandAt_token hproper hcounts))
  | member column negated operands =>
    have hmembers := members_list hproper hcounts
    cases negated with
    | true =>
      exact reads_term_column (hcolumn column)
        (reads_notMember (hcolumn column) hmembers)
    | false =>
      exact reads_term_column (hcolumn column)
        (reads_member (hcolumn column) hmembers)
  | isNull column negated =>
    obtain rfl := hcounts.nil
    cases negated with
    | true =>
      exact reads_term_column (hcolumn column) (reads_notNull (hcolumn column) n)
    | false =>
      exact reads_term_column (hcolumn column) (reads_isNull (hcolumn column) n)
  | token columns operator operands =>
    simp only [wellFormed, Bool.and_eq_true, Bool.not_eq_true',
      List.isEmpty_eq_false_iff] at hproper
    obtain ⟨⟨⟨hcolumns, hoperator⟩, hsome⟩, hoperands⟩ := hproper
    obtain ⟨t, htokens, ht⟩ := exists_comparison hoperator
    have hterm := reads_token (columns_names hcolumns) ht
      (operands_list hsome hoperands hcounts) inner
    simpa [tokens, Token.bracketed, htokens] using hterm

theorem parts_wellFormed {terms : List Filter}
    (h : (decide (2 ≤ terms.length) && wellFormedAll terms) = true) :
    terms ≠ [] ∧ ∀ f ∈ terms, f.wellFormed = true := by
  rw [Bool.and_eq_true, decide_eq_true_eq, wellFormedAll_eq, List.all_eq_true] at h
  refine ⟨?_, h.2⟩
  rintro rfl
  simp at h

/-- Every well-formed filter is read back, wherever its parameters are counted
from. -/
theorem readsBack (f : Filter) : f.wellFormed = true →
    ∀ n m, Counts n f.operands m → f.ReadsBack n m := by
  refine induction_on (P := fun f => f.wellFormed = true →
      ∀ n m, Counts n f.operands m → f.ReadsBack n m) ?_ ?_ ?_ f
  · intro terms ih hproper n m hcounts
    obtain ⟨hsome, hparts⟩ := parts_wellFormed hproper
    rw [operands, operandsOf_eq_flatMap] at hcounts
    have htokens : (Filter.all terms).tokens =
        [Token.keyword .and].intercalate (terms.map Filter.conjunct) := by
      rw [tokens, conjunctTokens_eq]
    have hterms : Terms (Filter.all terms).tokens.length
        (Filter.all terms).tokens n terms m := by
      have hpart : ∀ f ∈ terms, ∀ n m, Counts n f.operands m →
          TermAt (Filter.all terms).tokens.length f.conjunct n (id f) m := by
        intro f hf n m hcounts
        refine (ih f hf (hparts f hf) n m hcounts).conjunct.mono ?_
        rw [htokens]
        exact length_le_intercalate (List.mem_map_of_mem hf)
      have hchain : Terms (Filter.all terms).tokens.length
          ([Token.keyword .and].intercalate (terms.map Filter.conjunct)) n
          (terms.map id) m :=
        chain_counts hsome hpart hcounts
      rwa [List.map_id, ← htokens] at hchain
    exact ⟨hterms.blocks, hterms, termAt_bracketed hproper hterms.blocks⟩
  · intro terms ih hproper n m hcounts
    obtain ⟨hsome, hparts⟩ := parts_wellFormed hproper
    rw [operands, operandsOf_eq_flatMap] at hcounts
    have htokens : (Filter.any terms).tokens =
        [Token.keyword .or].intercalate (terms.map Filter.alternative) := by
      rw [tokens, alternativeTokens_eq]
    have hblocks : Blocks (Filter.any terms).tokens.length
        (Filter.any terms).tokens n (Filter.any terms).blocks m := by
      have hpart : ∀ f ∈ terms, ∀ n m, Counts n f.operands m →
          Terms (Filter.any terms).tokens.length f.alternative n f.terms m := by
        intro f hf n m hcounts
        refine (ih f hf (hparts f hf) n m hcounts).alternative.mono ?_
        rw [htokens]
        exact length_le_intercalate (List.mem_map_of_mem hf)
      have hchain : Blocks (Filter.any terms).tokens.length
          ([Token.keyword .or].intercalate (terms.map Filter.alternative)) n
          (terms.map Filter.terms) m := chain_counts hsome hpart hcounts
      rwa [← htokens] at hchain
    have hterm := termAt_bracketed hproper hblocks
    exact ⟨hblocks, .one hterm, hterm⟩
  · intro f hleaf hproper n m hcounts
    exact readsBack_leaf hleaf hproper hcounts

theorem reads_tokens {f : Filter} {n m : Nat} (hproper : f.wellFormed = true)
    (hcounts : Counts n f.operands m) :
    filter.Reads [.keyword .or, .keyword .and] f.tokens n f m := by
  have hreads :=
    reads_filter (f.readsBack hproper n m hcounts).whole (Nat.le_refl _)
  rwa [filterOf_blocks hproper] at hreads

theorem reads_clause {k : Keyword} {f : Option Filter} {n m : Nat}
    (hproper : f.all wellFormed = true)
    (hcounts : Counts n (optionalOperands f) m) :
    Parser.Clause (filterAfter k) (.keyword k) [.keyword .or, .keyword .and]
      (clause k f) n f m := by
  cases f with
  | none =>
    obtain rfl := hcounts.nil
    exact clause_noFilter k n
  | some f => exact clause_filter (reads_tokens hproper hcounts)

end Filter

/-! ## Clauses -/

namespace Parser

open Operand (Counts)

theorem reads_fitting {count : Nat} (h : count ≤ Nat.pow 2 63 - 1) :
    0 ≤ (Int64.ofInt count).toInt ∧ (Int64.ofInt count).toInt.toNat = count := by
  rw [Token.toInt_ofInt (Nat.lt_of_le_pred (by decide) h)]
  exact ⟨Int.natCast_nonneg count, Int.toNat_natCast count⟩

theorem reads_countClause {k : Keyword} {count : Option Nat}
    (h : fitsCount count = true) (n : Nat) :
    Clause (countAfter k) (.keyword k) []
      (Token.countClause [k] count) n count n := by
  cases count with
  | none => exact clause_noCount k n
  | some c =>
    obtain ⟨hnonneg, hvalue⟩ := reads_fitting (of_decide_eq_true h)
    have hclause := clause_count k _ hnonneg n
    rwa [hvalue] at hclause

theorem reads_ttlClause {seconds : Option Nat} (h : fitsCount seconds = true)
    (n : Nat) :
    Clause ttl (.keyword .using) []
      (Token.countClause [.using, .ttl] seconds) n seconds n := by
  cases seconds with
  | none => exact clause_noTtl n
  | some c =>
    obtain ⟨hnonneg, hvalue⟩ := reads_fitting (of_decide_eq_true h)
    have hclause := clause_ttl _ hnonneg n
    rwa [hvalue] at hclause

theorem reads_groupClause (columns : List String) (n : Nat) :
    Clause groupColumns (.keyword .group) [.symbol .comma, .symbol .dot]
      (Token.byClause .group columns fun column => [.quotedName column]) n
      columns n := by
  cases columns with
  | nil => exact clause_noGroup n
  | cons c rest =>
    have hclause :=
      clause_group (List.cons_ne_nil c rest) (fun c _ => path_quotedName c) n
    rwa [List.map_id'] at hclause

theorem reads_orderClause (orders : List (String × Direction)) (n : Nat) :
    Clause orderItems (.keyword .order) [.symbol .comma] (Token.byClause .order
        orders fun o => [.quotedName o.1, directionToken o.2]) n orders n := by
  cases orders with
  | nil => exact clause_noOrder n
  | cons o rest =>
    have hclause := @clause_order _ _ (fun o => [.quotedName o.1]) Prod.fst Prod.snd
      (List.cons_ne_nil o rest) (fun o _ => path_quotedName o.1) n
    rwa [List.map_id''] at hclause
    exact fun o => rfl

theorem reads_allowClause (allow : Bool) (n : Nat) :
    Clause filteringAllowed (.keyword .allow) []
      (if allow then [.keyword .allow, .keyword .filtering] else []) n allow n := by
  cases allow with
  | true => exact clause_allow n
  | false => exact clause_noAllow n

theorem reads_absentClause (absent : Bool) (n : Nat) :
    ifAbsent.Reads [.keyword .if, .keyword .on] (if absent then
        [.keyword .if, .keyword .not, .keyword .exists] else []) n absent n := by
  cases absent with
  | true => exact reads_ifNotExists n
  | false => exact reads_ifAbsent_none n

theorem takes_projection {p : Projection} (h : p.wellFormed = true)
    (rest : List Token) (n : Nat) :
    projection.Takes (p.tokens ++ .keyword .from :: rest) n p
      (.keyword .from :: rest) n := by
  cases p with
  | all => exact takes_star _ n
  | count => exact takes_countStar _ n
  | columns items =>
    simp only [Projection.wellFormed, Bool.and_eq_true, Bool.not_eq_true',
      List.isEmpty_eq_false_iff, List.all_eq_true, decide_eq_true_eq] at h
    have hselected : ∀ c ∈ items, Selected c.tokens (id c) := by
      rintro ⟨name, label⟩ hc
      cases label with
      | none => exact .plain (path_quotedName name) (h.2 _ hc)
      | some label => exact .labelled (path_quotedName name) (h.2 _ hc) rfl
    have htakes := takes_columns h.1 hselected rest n
    rwa [List.map_id] at htakes

end Parser

/-! ## Statements -/

namespace Statement

open EntityMapper.Parser
open Operand (Counts)

theorem takes_tokens_select {s : SelectStatement} {n m : Nat}
    (hproper : (Statement.select s).wellFormed = true)
    (hcounts : Counts n (Statement.select s).operands m) :
    Parser.select.Takes s.tokens n s [] m := by
  simp only [wellFormed, Bool.and_eq_true] at hproper
  obtain ⟨⟨⟨hprojection, hfilter⟩, hlimit⟩, hoffset⟩ := hproper
  exact takes_select (takes_projection hprojection · n) (path_quotedName s.table)
    (Filter.reads_clause hfilter hcounts) (reads_groupClause s.groupBy m)
    (reads_orderClause s.orderBy m) (reads_countClause hlimit m)
    (reads_countClause hoffset m) (reads_allowClause s.allowFiltering m)

theorem takes_tokens_insert {s : InsertStatement} {n m : Nat}
    (hproper : (Statement.insert s).wellFormed = true)
    (hcounts : Counts n (Statement.insert s).operands m) :
    Parser.insert.Takes s.tokens n s [] m := by
  simp only [wellFormed, Bool.and_eq_true, Bool.not_eq_true',
    List.isEmpty_eq_false_iff, decide_eq_true_eq] at hproper
  obtain ⟨⟨⟨hsome, hlength⟩, hvalues⟩, httl⟩ := hproper
  have hoperands : s.values ≠ [] := by
    rintro hnil
    rw [hnil] at hlength
    exact hsome (List.length_eq_zero_iff.mp hlength)
  have htakes := takes_insert_operands (path_quotedName s.table) hsome
    (fun c _ => (path_quotedName c).column) hlength
    (operands_list hoperands hvalues hcounts)
    (reads_absentClause s.ifNotExists m) (reads_ttlClause httl m)
  rw [List.map_id'] at htakes
  simpa [InsertStatement.tokens, Token.bracketed, Token.names] using htakes

theorem takes_tokens_update {s : UpdateStatement} {n m : Nat}
    (hproper : (Statement.update s).wellFormed = true)
    (hcounts : Counts n (Statement.update s).operands m) :
    Parser.update.Takes s.tokens n s [] m := by
  simp only [wellFormed, Bool.and_eq_true, Bool.not_eq_true',
    List.isEmpty_eq_false_iff, List.all_eq_true] at hproper
  obtain ⟨⟨⟨⟨hsome, hvalues⟩, hfilter⟩, hconditions⟩, httl⟩ := hproper
  rw [operands, List.map_eq_flatMap] at hcounts
  obtain ⟨k, hassigned, hrest⟩ := hcounts.split
  obtain ⟨l, hwhere, hif⟩ := hrest.split
  have hitem : ∀ a ∈ s.assignments, ∀ n m, Counts n [a.2] m →
      assignment.Reads [] [.quotedName a.1, .symbol .eq, a.2.token] n (id a) m :=
    fun a ha n m hcounts => reads_assignment_operand (path_quotedName a.1).column
      (operandAt_token (hvalues a ha) hcounts)
  have hchain : Chain (assignment.Reads []) (.symbol .comma) _ n
      (s.assignments.map id) k :=
    chain_counts hsome hitem hassigned
  rw [List.map_id] at hchain
  exact takes_update (path_quotedName s.table) (reads_ttlClause httl n)
    (reads_separated hchain (by simp))
    (Filter.reads_clause hfilter hwhere) (Filter.reads_clause hconditions hif)

theorem takes_tokens_delete {s : DeleteStatement} {n m : Nat}
    (hproper : (Statement.delete s).wellFormed = true)
    (hcounts : Counts n (Statement.delete s).operands m) :
    Parser.delete.Takes s.tokens n s [] m := by
  simp only [wellFormed, Bool.and_eq_true] at hproper
  obtain ⟨k, hwhere, hif⟩ := hcounts.split
  have hcolumns : ∀ c ∈ s.columns, Path [.quotedName c] (id c) :=
    fun c _ => path_quotedName c
  have htakes := takes_delete (path_quotedName s.table) hcolumns
    (Filter.reads_clause hproper.1 hwhere) (Filter.reads_clause hproper.2 hif)
  rwa [List.map_id] at htakes

theorem takes_tokens {s : Statement} {n m : Nat} (hproper : s.wellFormed = true)
    (hcounts : Counts n s.operands m) : statement.Takes s.tokens n s [] m := by
  cases s with
  | select s => exact takes_statement_select (takes_tokens_select hproper hcounts)
  | insert s => exact takes_statement_insert (takes_tokens_insert hproper hcounts)
  | update s => exact takes_statement_update (takes_tokens_update hproper hcounts)
  | delete s => exact takes_statement_delete (takes_tokens_delete hproper hcounts)

end Statement

/-- A well-formed statement that refers to its parameters in the order of its
text is what the parser makes of its canonical text, and of every other text
that is cut into the same tokens. -/
theorem ParsedCommand.parse_canonical {s : Statement} {n : Nat}
    (hproper : s.wellFormed = true) (hparams : s.params = List.range n) :
    ParsedCommand.parse s.canonical = .ok ⟨s, n⟩ ∧
      ∀ text : String, Token.Lexes text.toList s.tokens →
        ParsedCommand.parse text = .ok ⟨s, n⟩ := by
  have hcounts : Operand.Counts 0 s.operands n := by
    rw [Statement.params] at hparams
    rw [Operand.Counts, hparams, List.length_range, List.range_eq_range']
    exact ⟨rfl, (Nat.zero_add n).symm⟩
  have hparse (text : String) (hlexes : Token.Lexes text.toList s.tokens) :
      ParsedCommand.parse text = .ok ⟨s, n⟩ :=
    parse_eq_ok hlexes (Statement.takes_tokens hproper hcounts)
  exact ⟨hparse _ s.lexes_canonical, hparse⟩

/-- A deletion with chains inside chains, an empty list of members and quotes in
a name and in a text. -/
def nestedDelete : Statement := .delete
  { table := "a \"b\""
    columns := []
    filter := some (.all
      [.any [.compare "c" .eq (.param 0),
          .all [.isNull "d" true, .member "e" false []]],
        .compare "f" .like (.literal (.text "it's"))])
    conditions := some (.compare "g" .lt (.param 1)) }

theorem ParsedCommand.parse_canonical_nestedDelete :
    nestedDelete.canonical =
      "DELETE FROM \"a \"\"b\"\"\" WHERE ( \"c\" = ? OR \"d\" IS NOT NULL " ++
        "AND \"e\" IN ( ) ) AND \"f\" LIKE 'it''s' IF \"g\" < ?" ∧
    ParsedCommand.parse nestedDelete.canonical = .ok ⟨nestedDelete, 2⟩ :=
  ⟨rfl, (parse_canonical (by decide) (by decide)).1⟩

end EntityMapper
