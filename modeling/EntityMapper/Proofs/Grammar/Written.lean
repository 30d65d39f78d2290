import EntityMapper.Proofs.Grammar.Predicates
import EntityMapper.Proofs.Statement.Numerals
import EntityMapper.Proofs.Statement.Statements

/-!
# Clauses as they are written and read

Each optional clause of a compiled command comes with the parser that reads it
back: it has tokens that its text is cut into and that the parser takes whole. A
clause that is not written has no tokens and is read as missing.
-/

namespace EntityMapper

namespace Grammar

open Token (Lexes Closed Tail Joint lexes_natText toInt_ofInt)

/-! ## Optional clauses -/

/-- A clause that is written as `text` and read as `a`. -/
def Written {α : Type} (text : List Char) (p : Parser α) (head : Token)
    (stops : List Token) (n : Nat) (a : α) (m : Nat) : Prop :=
  ∃ tokens, Tail text tokens ∧ Parser.Clause p head stops tokens n a m

theorem isEmpty_of_lexes {text : String} {tokens : List Token}
    (h : Lexes text.toList tokens) (hsome : tokens ≠ []) :
    text.isEmpty = false := by
  rw [Bool.eq_false_iff]
  intro hempty
  rw [String.isEmpty_iff] at hempty
  rw [hempty] at h
  cases h with
  | done => exact hsome rfl
  | token hnext => simp [Token.next] at hnext

theorem written_filter {head : String} {k : Keyword} {text : List Char}
    {tokens : List Token} {n m : Nat} {f : Filter}
    (hhead : Joint head.toList [.keyword k]) (hlexes : Lexes text tokens)
    (hreads : Parser.filter.Reads [.keyword .or, .keyword .and] tokens n f m) :
    Written (head.toList ++ text) (Parser.filterAfter k)
      (.keyword k) [.keyword .or, .keyword .and] n (some f) m :=
  ⟨_, hhead.tail hlexes, Parser.clause_filter hreads⟩

theorem written_noFilter (k : Keyword) (n : Nat) :
    Written [] (Parser.filterAfter k)
      (.keyword k) [.keyword .or, .keyword .and] n none n :=
  ⟨[], Token.tail_nil, Parser.clause_noFilter k n⟩

/-- The filter that a list of predicates is read as, if there is one. -/
def whereImage (n : Nat) (predicates : List Predicate) : Option Filter :=
  if predicates.isEmpty then none else some (wheresFilter n predicates)

variable {g : Grammar}

theorem conditionTokens_ne_nil {c : Condition} (hraw : c.rawText? = none) :
    g.conditionTokens c ≠ [] := by
  cases c with
  | raw text => simp [Condition.rawText?] at hraw
  | _ => simp [conditionTokens]

theorem wheresTokens_ne_nil {p : Predicate}
    (hp : g.conditionTokens p.condition ≠ []) (rest : List Predicate) :
    g.wheresTokens (p :: rest) ≠ [] := by
  rw [wheresTokens]
  exact List.append_ne_nil_of_left_ne_nil hp _

theorem lexes_conveyed {predicates : List Predicate}
    (h : ∀ p ∈ predicates, g.Conveys p.condition) :
    Lexes (g.wheres predicates).text.toList (g.wheresTokens predicates) :=
  lexes_wheres g fun p hp => (h p hp).lexable

theorem lexes_expressed {predicates : List Predicate}
    (h : ∀ p ∈ predicates, g.Expresses p.condition ∧ p.condition.rawText? = none) :
    Lexes (g.wheres predicates).text.toList (g.wheresTokens predicates) :=
  lexes_conveyed (conveys_expressed h)

theorem isEmpty_wheres {predicates : List Predicate} (hsome : predicates ≠ [])
    (h : ∀ p ∈ predicates, g.Conveys p.condition) :
    (g.wheres predicates).text.isEmpty = false := by
  obtain ⟨p, rest, rfl⟩ := List.exists_cons_of_ne_nil hsome
  exact isEmpty_of_lexes (lexes_conveyed h) (wheresTokens_ne_nil
    (conditionTokens_ne_nil (h p (List.mem_cons_self ..)).raw) rest)

theorem written_wheres {head : String} {k : Keyword}
    (hhead : Joint head.toList [.keyword k]) {predicates : List Predicate}
    (h : ∀ p ∈ predicates, g.Conveys p.condition) (n : Nat) :
    Written ((g.wheres predicates).headed head).text.toList
      (Parser.filterAfter k) (.keyword k) [.keyword .or, .keyword .and] n
      (whereImage n predicates) (n + placeholderSum predicates) := by
  cases predicates with
  | nil => exact written_noFilter k n
  | cons p rest =>
    have hsome : p :: rest ≠ [] := List.cons_ne_nil p rest
    rw [Fragment.text_headed (isEmpty_wheres hsome h), String.toList_append]
    exact written_filter hhead (lexes_conveyed h) (reads_conveyed hsome h n)

theorem written_count {keyword : String} {k : Keyword}
    (hhead : Joint keyword.toList [.keyword k]) {count : Option Nat}
    (h : ∀ c ∈ count, c < Nat.pow 2 63) (n : Nat) :
    Written (countClause keyword count).toList (Parser.countAfter k)
      (.keyword k) [] n count n := by
  cases count with
  | none => exact ⟨[], Token.tail_nil, Parser.clause_noCount k n⟩
  | some c =>
    have hc : c < Nat.pow 2 63 := h c rfl
    have hclause := Parser.clause_count k (Int64.ofInt c)
      (by rw [toInt_ofInt hc]; exact Int.natCast_nonneg c) n
    rw [toInt_ofInt hc, Int.toNat_natCast] at hclause
    refine ⟨_, ?_, hclause⟩
    rw [countClause, String.toList_append]
    exact hhead.tail (lexes_natText hc)

theorem written_ttl (q : Intent) (n : Nat) :
    Written (ttlClause q).toList Parser.ttl (.keyword .using) [] n
      (q.ttl.map UInt32.toNat) n := by
  unfold ttlClause
  cases q.ttl with
  | none => exact ⟨[], Token.tail_nil, Parser.clause_noTtl n⟩
  | some seconds =>
    have hseconds : seconds.toNat < Nat.pow 2 63 :=
      Nat.lt_of_lt_of_le seconds.toNat_lt (by decide)
    have hclause := Parser.clause_ttl (Int64.ofInt seconds.toNat)
      (by rw [toInt_ofInt hseconds]; exact Int.natCast_nonneg _) n
    rw [toInt_ofInt hseconds, Int.toNat_natCast] at hclause
    have hhead : Joint " USING TTL ".toList [.keyword .using, .keyword .ttl] :=
      Token.joint_word (rfl : Token.read "USING TTL" = .ok _)
    refine ⟨_, ?_, hclause⟩
    rw [Option.map_some, countClause, String.toList_append]
    exact hhead.tail (lexes_natText hseconds)

theorem written_group {groups : List String}
    (h : ∀ column ∈ groups, g.ReadablePath column) (n : Nat) :
    Written (g.groupClause groups).toList Parser.groupColumns (.keyword .group)
      [.symbol .comma, .symbol .dot] n (groups.map columnOf) n := by
  cases groups with
  | nil => exact ⟨[], Token.tail_nil, Parser.clause_noGroup n⟩
  | cons column rest =>
    have hhead : Joint " GROUP BY ".toList [.keyword .group, .keyword .by] :=
      Token.joint_word (rfl : Token.read "GROUP BY" = .ok _)
    have hlexes := lexes_columnize g fun c hc => (h c hc).lexed
    refine ⟨_, ?_, Parser.clause_group (List.cons_ne_nil column rest)
      (fun c hc => (h c hc).path) n⟩
    rw [groupClause, List.isEmpty_cons, if_neg Bool.false_ne_true,
      String.toList_append]
    exact hhead.tail hlexes

theorem joint_direction (direction : Direction) :
    Tail (' ' :: direction.keyword.toList) [Parser.directionToken direction] := by
  cases direction with
  | asc => exact ⟨Token.lexes_of_read (rfl : Token.read " ASC" = .ok _), by decide⟩
  | desc =>
    exact ⟨Token.lexes_of_read (rfl : Token.read " DESC" = .ok _), by decide⟩

theorem written_order {orders : List Order}
    (h : ∀ o ∈ orders, g.ReadablePath o.column) (n : Nat) :
    Written (g.orderClause orders).toList Parser.orderItems
      (.keyword .order) [.symbol .comma] n
      (orders.map fun o => (columnOf o.column, o.direction)) n := by
  cases orders with
  | nil => exact ⟨[], Token.tail_nil, Parser.clause_noOrder n⟩
  | cons first rest =>
    have hhead : Joint " ORDER BY ".toList [.keyword .order, .keyword .by] :=
      Token.joint_word (rfl : Token.read "ORDER BY" = .ok _)
    have hlexes : Lexes (g.orderList (first :: rest)).toList (Token.commas
        ((first :: rest).map fun o =>
          g.columnTokens o.column ++ [Parser.directionToken o.direction])) := by
      refine lexes_join fun o ho => ?_
      have hitem := (h o ho).lexed.tail (joint_direction o.direction)
      simpa using hitem
    refine ⟨_, ?_, Parser.clause_order (List.cons_ne_nil first rest)
      (fun o ho => (h o ho).path) n⟩
    rw [orderClause, List.isEmpty_cons, if_neg Bool.false_ne_true,
      String.toList_append]
    exact hhead.tail hlexes

theorem written_allow (allowed : Bool) (n : Nat) :
    Written (if allowed then " ALLOW FILTERING" else "").toList
      Parser.filteringAllowed (.keyword .allow) [] n allowed n := by
  cases allowed with
  | false => exact ⟨[], Token.tail_nil, Parser.clause_noAllow n⟩
  | true =>
    exact ⟨_, ⟨Token.lexes_of_read (rfl : Token.read " ALLOW FILTERING" = .ok _),
        by decide⟩, Parser.clause_allow n⟩

/-! ## Select lists -/

/-- A selected column as it is read: its path's last segment, and its label. -/
def selectedColumn (name : String) : ProjectedColumn :=
  match splitLabel? name.toList with
  | some (path, label) =>
    ⟨lastSegment (Text.trimChars path), some (String.ofList (Text.trimChars label))⟩
  | none => ⟨columnOf name, none⟩

/-- A selected column whose path is readable, and whose label is a name that is
read back. The label is what stands behind the first ` as `. -/
def ReadableSelected (g : Grammar) (name : String) : Prop :=
  match splitLabel? name.toList with
  | some (path, label) =>
    (∀ segment ∈ segments (Text.trimChars path), g.Readable segment) ∧
      g.Word (Text.trimChars label)
  | none => g.ReadablePath name

instance (g : Grammar) (name : String) : Decidable (g.ReadableSelected name) :=
  match hlabel : splitLabel? name.toList with
  | some (path, label) =>
    decidable_of_iff
      ((∀ segment ∈ segments (Text.trimChars path), g.Readable segment) ∧
        g.Word (Text.trimChars label)) (by rw [ReadableSelected, hlabel])
  | none =>
    decidable_of_iff (g.ReadablePath name) (by rw [ReadableSelected, hlabel])

theorem lastSegment_ne_star {path : List Char}
    (h : ∀ segment ∈ segments path, g.Readable segment) :
    lastSegment path ≠ "*" := by
  intro hstar
  obtain ⟨first, rest, hsegments⟩ :=
    List.exists_cons_of_ne_nil (segments_ne_nil path)
  have hmem : (segments path).getLastD [] ∈ segments path := by
    rw [hsegments, List.getLastD_cons]
    exact List.getLastD_mem_cons
  apply (h _ hmem).star
  have hchars := congrArg String.toList hstar
  rwa [lastSegment, String.toList_ofList] at hchars

theorem ReadableSelected.nameable {name : String} (h : g.ReadableSelected name) :
    Nameable (pathOf name) := by
  unfold ReadableSelected at h
  cases hlabel : splitLabel? name.toList with
  | none =>
    rw [hlabel] at h
    exact ReadablePath.nameable h
  | some parts =>
    rw [hlabel] at h
    rw [pathOf, hlabel]
    exact nameable_of_readable h.1

theorem ReadableSelected.selected {name : String} (h : g.ReadableSelected name) :
    Parser.Selected (g.columnTokens name) (selectedColumn name) := by
  rw [columnTokens_eq g h.nameable]
  unfold ReadableSelected at h
  unfold referenceTokens selectedColumn
  cases hlabel : splitLabel? name.toList with
  | none =>
    rw [hlabel] at h
    exact .plain (path_pathTokens fun segment hmem => (h segment hmem).word)
      (lastSegment_ne_star h)
  | some parts =>
    rw [hlabel] at h
    exact .labelled (path_pathTokens fun segment hmem => (h.1 segment hmem).word)
      (lastSegment_ne_star h.1) (nameOf_segmentToken h.2)

/-- A selection as it is read. -/
def selectionImage : Selection → Projection
  | .all => .all
  | .columns [] => .all
  | .columns names => .columns (names.map selectedColumn)

/-- A select list that is written as `text` and read as `projection`. -/
def WrittenList (text : List Char) (projection : Projection) : Prop :=
  ∃ tokens, Lexes text tokens ∧ ∀ rest n,
    Parser.projection.Takes (tokens ++ .keyword .from :: rest) n projection
      (.keyword .from :: rest) n

theorem written_selection {selection : Selection}
    (h : ∀ name ∈ selection.names, g.ReadableSelected name) :
    WrittenList (g.selection selection).toList (selectionImage selection) := by
  have hstar : WrittenList "*".toList .all :=
    ⟨[.symbol .star], Token.lexes_of_read (rfl : Token.read "*" = .ok _),
      fun _ n => Parser.takes_star _ n⟩
  cases selection with
  | all => exact hstar
  | columns names =>
    cases names with
    | nil => exact hstar
    | cons name names =>
      exact ⟨_, lexes_columnize g fun c hc => (h c hc).nameable.lexed g,
          fun rest n =>
        Parser.takes_columns (List.cons_ne_nil name names)
          (fun c hc => (h c hc).selected) rest n⟩

theorem written_countStar :
    WrittenList (g.selection (.columns ["COUNT(*)"])).toList .count :=
  ⟨[.keyword .count, .symbol .leftParen, .symbol .star, .symbol .rightParen],
    Token.lexes_of_read (rfl : Token.read "COUNT(*)" = .ok _),
    fun _ n => Parser.takes_countStar _ n⟩

end Grammar

end EntityMapper
