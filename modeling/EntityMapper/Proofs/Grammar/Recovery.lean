import EntityMapper.Proofs.Grammar.Written

/-!
# Compiled commands are read back

The parser recovers from every compiled command the statement that its intent
describes, with as many placeholders as the command has parameters. The image of
an intent says what is recovered: names without their qualifiers, values as the
placeholders of their positions, and predicates as filters. The two dialects
differ in where write conditions go: the partitioned one keeps them in a clause
of their own, and the relational one reads them as part of the filter.
-/

namespace EntityMapper

namespace Grammar

open Token (Lexes Closed Tail Joint)

/-! ## Images of intents -/

/-- The filter of a relational write: its predicates and its write conditions
together. -/
def foldedImage (n : Nat) (q : Intent) : Option Filter :=
  let m := n + placeholderSum q.wheres
  if q.wheres.isEmpty then whereImage m q.ifConditions
  else if q.ifConditions.isEmpty then whereImage n q.wheres
  else
    let filter := if isDisjunctive q.wheres then [[wheresFilter n q.wheres]]
      else whereBlocks n q.wheres
    some (Parser.filterOf (Parser.glue filter (whereBlocks m q.ifConditions)))

/-- The filter of a write whose predicates have their placeholders from `n` on. -/
def filterImage (g : Grammar) (n : Nat) (q : Intent) : Option Filter :=
  match g.dialect with
  | .cql => whereImage n q.wheres
  | .sql => foldedImage n q

/-- The conditions of a write, where they have a clause of their own. -/
def conditionsImage (g : Grammar) (n : Nat) (q : Intent) : Option Filter :=
  match g.dialect with
  | .cql => whereImage (n + placeholderSum q.wheres) q.ifConditions
  | .sql => none

/-- A query as it is read. Only the partitioned dialect writes the permission to
filter. -/
def selectImage (g : Grammar) (projection : Projection) (q : Intent) :
    SelectStatement where
  table := columnOf q.table
  projection := projection
  filter := whereImage 0 q.wheres
  groupBy := q.groups.map columnOf
  orderBy := q.orders.map fun o => (columnOf o.column, o.direction)
  limit := q.limit.map UInt64.toNat
  offset := q.offset.map UInt64.toNat
  allowFiltering := g.dialect == .cql && q.allowFiltering

def insertImage (q : Intent) (values : Pairs) : InsertStatement where
  table := columnOf q.table
  columns := values.map fun pair => columnOf pair.1
  values := (List.range values.length).map .param
  ifNotExists := q.ifNotExists
  ttl := q.ttl.map UInt32.toNat

def updateImage (q : Intent) (values : Pairs) (filter conditions : Option Filter) :
    UpdateStatement where
  table := columnOf q.table
  ttl := q.ttl.map UInt32.toNat
  assignments := values.zipIdx.map fun (pair, i) => (columnOf pair.1, .param i)
  filter := filter
  conditions := conditions

def deleteImage (q : Intent) (filter conditions : Option Filter) :
    DeleteStatement where
  table := columnOf q.table
  columns := q.selection.names.map columnOf
  filter := filter
  conditions := conditions

/-- The statement that a request is read as. -/
def image (g : Grammar) (q : Intent) : Request → Statement
  | .select => .select (g.selectImage (selectionImage q.selection) q)
  | .count => .select (g.selectImage .count q.counting)
  | .insert values => .insert (insertImage q values)
  | .update values =>
    let n := values.length
    .update (updateImage q values (g.filterImage n q) (g.conditionsImage n q))
  | .delete => .delete (deleteImage q (g.filterImage 0 q) (g.conditionsImage 0 q))

/-! ## Requests that are read back -/

/-- An intent without joins, having clauses and raw text, of which every name is
readable and every number fits 64 bits with a sign. -/
structure Recoverable (g : Grammar) (q : Intent) : Prop where
  joins : q.joins = []
  havings : q.havings = []
  table : g.ReadableTable q.table
  wheres : ∀ p ∈ q.wheres, g.Expresses p.condition ∧ p.condition.rawText? = none
  ifConditions : ∀ p ∈ q.ifConditions, g.Expresses p.condition ∧
    p.condition.rawText? = none
  groups : ∀ column ∈ q.groups, g.ReadablePath column
  orders : ∀ o ∈ q.orders, g.ReadablePath o.column
  limit : ∀ count ∈ q.limit, count.toNat < Nat.pow 2 63
  offset : ∀ count ∈ q.offset, count.toNat < Nat.pow 2 63

/-- An intent without joins and having clauses of which the grammar's text
conveys the predicates, and of which every other name is read back. -/
structure ReadsQuery (g : Grammar) (q : Intent) : Prop where
  joins : q.joins = []
  havings : q.havings = []
  table : g.ReadsBackTable q.table
  wheres : ∀ p ∈ q.wheres, g.Conveys p.condition
  groups : ∀ column ∈ q.groups, g.ReadablePath column
  orders : ∀ o ∈ q.orders, g.ReadablePath o.column
  limit : ∀ count ∈ q.limit, count.toNat < Nat.pow 2 63
  offset : ∀ count ∈ q.offset, count.toNat < Nat.pow 2 63

theorem Recoverable.readsQuery {g : Grammar} {q : Intent} (h : g.Recoverable q) :
    g.ReadsQuery q where
  joins := h.joins
  havings := h.havings
  table := h.table.readsBack
  wheres := conveys_expressed h.wheres
  groups := h.groups
  orders := h.orders
  limit := h.limit
  offset := h.offset

/-- The columns that a request names besides its intent's predicates, groups and
orders. -/
def ReadableRequest (g : Grammar) (q : Intent) : Request → Prop
  | .select => ∀ name ∈ q.selection.names, g.ReadableSelected name
  | .count => True
  | .insert values => ∀ pair ∈ values, g.ReadablePath pair.1
  | .update values => ∀ pair ∈ values, g.ReadablePath pair.1
  | .delete => ∀ name ∈ q.selection.names, g.ReadablePath name

instance (g : Grammar) (q : Intent) :
    (r : Request) → Decidable (g.ReadableRequest q r)
  | .select =>
    inferInstanceAs
      (Decidable (∀ name ∈ q.selection.names, g.ReadableSelected name))
  | .count => isTrue trivial
  | .insert values =>
    inferInstanceAs (Decidable (∀ pair ∈ values, g.ReadablePath pair.1))
  | .update values =>
    inferInstanceAs (Decidable (∀ pair ∈ values, g.ReadablePath pair.1))
  | .delete =>
    inferInstanceAs (Decidable (∀ name ∈ q.selection.names, g.ReadablePath name))

variable {g : Grammar} {q : Intent} {c : Command}

theorem joint_where : Joint " WHERE ".toList [.keyword .where] :=
  Token.joint_word (rfl : Token.read "WHERE" = .ok _)

theorem joint_if : Joint " IF ".toList [.keyword .if] :=
  Token.joint_word (rfl : Token.read "IF" = .ok _)

theorem ReadsBackTable.columnPath {table : String} (h : g.ReadsBackTable table) :
    Parser.Path (g.tableTokens table) (columnOf table) := h.path

/-! ## Queries -/

/-- A query is read back from its clauses, whichever dialect has written them. -/
theorem parse_query {text : String} {projection : Projection}
    {list filter groups orders limit offset allow : List Char}
    {limitCount offsetCount : Option Nat} {allowed : Bool}
    {groupBy : List String} {orderBy : List (String × Direction)}
    {f : Option Filter} {m : Nat}
    (htext : text.toList = "SELECT ".toList ++ (list ++ (" FROM ".toList ++
      ((g.wrapTable q.table).toList ++ (filter ++ (groups ++ (orders ++
        (limit ++ (offset ++ allow)))))))))
    (htable : g.ReadsBackTable q.table) (hlist : WrittenList list projection)
    (hfilter : Written filter (Parser.filterAfter .where) (.keyword .where)
      [.keyword .or, .keyword .and] 0 f m)
    (hgroups : Written groups Parser.groupColumns (.keyword .group)
      [.symbol .comma, .symbol .dot] m groupBy m)
    (horders : Written orders Parser.orderItems (.keyword .order)
      [.symbol .comma] m orderBy m)
    (hlimit : Written limit (Parser.countAfter .limit) (.keyword .limit)
      [] m limitCount m)
    (hoffset : Written offset (Parser.countAfter .offset) (.keyword .offset)
      [] m offsetCount m)
    (hallow : Written allow Parser.filteringAllowed (.keyword .allow)
      [] m allowed m) :
    ParsedCommand.parse text = .ok ⟨.select
      { table := columnOf q.table, projection, filter := f, groupBy, orderBy,
        limit := limitCount, offset := offsetCount,
        allowFiltering := allowed }, m⟩ := by
  obtain ⟨listTokens, hlistLexes, hlistTakes⟩ := hlist
  obtain ⟨_, hfilterTail, hfilterClause⟩ := hfilter
  obtain ⟨_, hgroupsTail, hgroupsClause⟩ := hgroups
  obtain ⟨_, hordersTail, hordersClause⟩ := horders
  obtain ⟨_, hlimitTail, hlimitClause⟩ := hlimit
  obtain ⟨_, hoffsetTail, hoffsetClause⟩ := hoffset
  obtain ⟨_, hallowTail, hallowClause⟩ := hallow
  have hselect : Closed "SELECT ".toList [.keyword .select] :=
    Token.closed_word (rfl : Token.read "SELECT" = .ok _)
  have hfrom : Joint " FROM ".toList [.keyword .from] :=
    Token.joint_word (rfl : Token.read "FROM" = .ok _)
  have htail := hfilterTail.append (hgroupsTail.append
    (hordersTail.append (hlimitTail.append (hoffsetTail.append hallowTail))))
  have hlexes :=
    hselect (hlistLexes.tail (hfrom.tail ((lexes_wrapTable g q.table).tail htail)))
  rw [← htext] at hlexes
  have htakes := Parser.takes_select (fun rest => hlistTakes rest 0)
    htable.columnPath hfilterClause hgroupsClause hordersClause hlimitClause
    hoffsetClause hallowClause
  exact ParsedCommand.parse_eq_ok hlexes (Parser.takes_statement_select htakes)

theorem joint_limit : Joint " LIMIT ".toList [.keyword .limit] :=
  Token.joint_word (rfl : Token.read "LIMIT" = .ok _)

theorem joint_offset : Joint " OFFSET ".toList [.keyword .offset] :=
  Token.joint_word (rfl : Token.read "OFFSET" = .ok _)

theorem toNat_map_lt {count : Option UInt64}
    (h : ∀ n ∈ count, n.toNat < Nat.pow 2 63) :
    ∀ n ∈ count.map UInt64.toNat, n < Nat.pow 2 63 := by
  intro n hn
  obtain ⟨m, hm, rfl⟩ := Option.map_eq_some_iff.mp hn
  exact h m hm

/-- A compiled query is read back, whatever its select list and its predicates
are read as. -/
theorem parse_select_written (hjoins : q.joins = []) (hhavings : q.havings = [])
    (htable : g.ReadsBackTable q.table) {projection : Projection}
    (hlist : WrittenList (g.selection q.selection).toList projection)
    {f : Option Filter}
    (hfilter : Written ((g.wheres q.wheres).headed " WHERE ").text.toList
      (Parser.filterAfter .where) (.keyword .where) [.keyword .or, .keyword .and]
      0 f (0 + placeholderSum q.wheres))
    (hgroups : ∀ column ∈ q.groups, g.ReadablePath column)
    (horders : ∀ o ∈ q.orders, g.ReadablePath o.column)
    (hlimit : ∀ count ∈ q.limit, count.toNat < Nat.pow 2 63)
    (hoffset : ∀ count ∈ q.offset, count.toNat < Nat.pow 2 63)
    (hc : g.select q = .ok c) :
    ParsedCommand.parse c.text =
      .ok ⟨.select { g.selectImage projection q with filter := f },
        c.params.length⟩ := by
  have hgroups := written_group hgroups (0 + placeholderSum q.wheres)
  have horders := written_order horders (0 + placeholderSum q.wheres)
  have hlimit :=
    written_count joint_limit (toNat_map_lt hlimit) (0 + placeholderSum q.wheres)
  have hoffset := written_count joint_offset (toNat_map_lt hoffset)
    (0 + placeholderSum q.wheres)
  rcases select_eq_ok hc with ⟨hdialect, -, -, hnone, rfl⟩ | ⟨hdialect, rfl⟩
  · have hallow := written_allow q.allowFiltering (0 + placeholderSum q.wheres)
    rw [hnone] at hoffset
    calc
      ParsedCommand.parse _ = _ := by
        refine parse_query ?_ htable hlist hfilter hgroups horders hlimit
          hoffset hallow
        simp [Fragment.command, selectHead, countClause]
      _ = .ok ⟨.select { g.selectImage projection q with filter := f }, _⟩ := by
        simp [selectImage, hdialect, hnone, Fragment.command, length_allBindings]
  · have hallow := written_allow false (0 + placeholderSum q.wheres)
    calc
      ParsedCommand.parse _ = _ := by
        refine parse_query ?_ htable hlist hfilter hgroups horders hlimit
          hoffset hallow
        simp [Fragment.command, selectHead, hjoins, hhavings, Text.concat, wheres,
          Fragment.headed]
      _ = .ok ⟨.select { g.selectImage projection q with filter := f }, _⟩ := by
        simp [selectImage, hdialect, Fragment.command, length_allBindings, hhavings,
          placeholderSum]

/-- If the predicates are conveyed, they are read as their filter. -/
theorem parse_select_readsBack (h : g.ReadsQuery q) {projection : Projection}
    (hlist : WrittenList (g.selection q.selection).toList projection)
    (hc : g.select q = .ok c) :
    ParsedCommand.parse c.text =
      .ok ⟨.select (g.selectImage projection q), c.params.length⟩ :=
  parse_select_written h.joins h.havings h.table hlist
    (written_wheres joint_where h.wheres 0) h.groups h.orders h.limit h.offset hc

theorem parse_select (h : g.Recoverable q) {projection : Projection}
    (hlist : WrittenList (g.selection q.selection).toList projection)
    (hc : g.select q = .ok c) :
    ParsedCommand.parse c.text =
      .ok ⟨.select (g.selectImage projection q), c.params.length⟩ :=
  parse_select_readsBack h.readsQuery hlist hc

/-! ## Filters of writes -/

/-- The folded filter is read as the blocks of the predicates before those of
the conditions; a disjunction of predicates is one term of the block it stands
in. -/
theorem written_folded {filterTokens conditionTokens : List Token}
    {filter conditions : List (List Filter)} {k n m l : Nat}
    (hfilter : Lexes (g.wheres q.wheres).text.toList filterTokens)
    (hconditions : Lexes (g.wheres q.ifConditions).text.toList conditionTokens)
    (hsome : filterTokens ≠ []) (hmore : conditionTokens ≠ [])
    (hfilterBlocks : Parser.Blocks k filterTokens n filter m)
    (hconditionBlocks : Parser.Blocks 0 conditionTokens m conditions l)
    (hk : k ≤ filterTokens.length) :
    Written (g.foldedWhere q).text.toList (Parser.filterAfter .where)
      (.keyword .where) [.keyword .or, .keyword .and] n
      (some (Parser.filterOf (Parser.glue (if isDisjunctive q.wheres then
            [[Parser.filterOf filter]] else filter) conditions))) l := by
  have hand : Joint " AND ".toList [.keyword .and] := joint_connector .and
  unfold foldedWhere
  dsimp only
  rw [isEmpty_of_lexes hfilter hsome, isEmpty_of_lexes hconditions hmore,
    if_neg Bool.false_ne_true, if_neg Bool.false_ne_true]
  cases isDisjunctive q.wheres with
  | true =>
    have hopen : Closed "(".toList [.symbol .leftParen] :=
      (Token.lexes_of_read (rfl : Token.read "" = .ok _)).closed_mark '('
        (by simp) rfl
    have hlexes := hopen (hfilter.tail (tail_close.append (hand.tail hconditions)))
    have hterm : Parser.Terms (k + 1)
        (.symbol .leftParen :: (filterTokens ++ [.symbol .rightParen])) n
        [Parser.filterOf filter] m := .one (Parser.termAt_bracket hfilterBlocks)
    have hblocks := hterm.and_blocks (hconditionBlocks.mono (Nat.zero_le (k + 1)))
    have hreads := Parser.reads_filter hblocks (by simp; omega)
    have hwritten := written_filter joint_where hlexes (by simpa using hreads)
    simpa using hwritten
  | false =>
    have hlexes := hfilter.tail (hand.tail hconditions)
    have hblocks := hfilterBlocks.and (hconditionBlocks.mono (Nat.zero_le k))
    have hreads := Parser.reads_filter hblocks (by simp; omega)
    have hwritten := written_filter joint_where hlexes hreads
    simpa using hwritten

/-- The filter of a write and its conditions, as they are written and read, with
placeholders from `n` on. -/
def WrittenFilters (g : Grammar) (q : Intent) (n : Nat)
    (filter conditions : Option Filter) : Prop :=
  ∃ (first second : List Char) (m : Nat),
    (g.writeFilter q).text.toList = first ++ second ∧
      Written first (Parser.filterAfter .where)
        (.keyword .where) [.keyword .or, .keyword .and] n filter m ∧
      Written second (Parser.filterAfter .if)
        (.keyword .if) [.keyword .or, .keyword .and] m conditions
        (n + placeholderSum q.wheres + placeholderSum q.ifConditions)

/-- The relational dialect has no clause for conditions. -/
theorem writtenFilters_sql (hdialect : g.dialect = .sql) {n : Nat}
    {f : Option Filter}
    (h : Written (g.foldedWhere q).text.toList (Parser.filterAfter .where)
      (.keyword .where) [.keyword .or, .keyword .and] n f
      (n + placeholderSum q.wheres + placeholderSum q.ifConditions)) :
    g.WrittenFilters q n f none := by
  refine ⟨(g.foldedWhere q).text.toList, [], _, ?_, h, written_noFilter .if _⟩
  rw [writeFilter, hdialect, List.append_nil]

/-- Without predicates the conditions are the filter. -/
theorem written_conditions (hwheres : q.wheres = [])
    (h : ∀ p ∈ q.ifConditions, g.Conveys p.condition) (n : Nat) :
    Written (g.foldedWhere q).text.toList (Parser.filterAfter .where)
      (.keyword .where) [.keyword .or, .keyword .and] n
      (whereImage n q.ifConditions)
      (n + placeholderSum q.wheres + placeholderSum q.ifConditions) := by
  have hwritten := written_wheres joint_where h n
  simpa [foldedWhere, hwheres, wheres, placeholderSum] using hwritten

theorem written_foldedImage (hwhere : ∀ p ∈ q.wheres, g.Conveys p.condition)
    (hif : ∀ p ∈ q.ifConditions, g.Conveys p.condition) (n : Nat) :
    Written (g.foldedWhere q).text.toList (Parser.filterAfter .where)
      (.keyword .where) [.keyword .or, .keyword .and] n (foldedImage n q)
      (n + placeholderSum q.wheres + placeholderSum q.ifConditions) := by
  have hfilter := lexes_conveyed hwhere
  have hconditions := lexes_conveyed hif
  unfold foldedImage
  cases hwheres : q.wheres with
  | nil =>
    have hwritten := written_conditions hwheres hif n
    simpa [hwheres, placeholderSum] using hwritten
  | cons p rest =>
    have hsome : q.wheres ≠ [] := by simp [hwheres]
    have hfilterTokens := wheresTokens_ne_nil (g := g)
      (conditionTokens_ne_nil (hwhere p (by simp [hwheres])).raw) rest
    rw [← hwheres] at hfilterTokens ⊢
    have hempty := isEmpty_wheres hsome hwhere
    have hblocks := blocks_conveyed hsome hwhere n
    cases hconditional : q.ifConditions with
    | nil =>
      have hwritten := written_wheres joint_where hwhere n
      have htext : (g.foldedWhere q).text =
          ((g.wheres q.wheres).headed " WHERE ").text := by
        have hnone : (g.wheres q.ifConditions).text.isEmpty = true := by
          rw [hconditional]; rfl
        simp only [foldedWhere]
        rw [hempty, hnone, if_neg Bool.false_ne_true, if_pos rfl,
          Fragment.text_append, String.append_empty]
      rw [htext]
      simpa [hsome, placeholderSum] using hwritten
    | cons r others =>
      have hmore : q.ifConditions ≠ [] := by simp [hconditional]
      have hconditionTokens := wheresTokens_ne_nil (g := g)
        (conditionTokens_ne_nil (hif r (by simp [hconditional])).raw) others
      rw [← hconditional] at hconditionTokens ⊢
      have hwritten := written_folded hfilter hconditions hfilterTokens
        hconditionTokens hblocks (blocks_conveyed hmore hif _) (Nat.zero_le _)
      simpa [hsome, hmore, wheresFilter] using hwritten

theorem written_conveyed (hwhere : ∀ p ∈ q.wheres, g.Conveys p.condition)
    (hif : ∀ p ∈ q.ifConditions, g.Conveys p.condition) (n : Nat) :
    g.WrittenFilters q n (g.filterImage n q) (g.conditionsImage n q) := by
  unfold filterImage conditionsImage
  cases hdialect : g.dialect with
  | cql =>
    refine ⟨_, _, _, ?_, written_wheres joint_where hwhere n,
      written_wheres joint_if hif _⟩
    rw [writeFilter, hdialect, Fragment.text_append, String.toList_append]
  | sql => exact writtenFilters_sql hdialect (written_foldedImage hwhere hif n)

theorem written_writeFilter (h : g.Recoverable q) (n : Nat) :
    g.WrittenFilters q n (g.filterImage n q) (g.conditionsImage n q) :=
  written_conveyed (conveys_expressed h.wheres) (conveys_expressed h.ifConditions) n

/-! ## Writes -/

/-- The clause that keeps an insertion from overwriting, as each dialect writes
it. -/
def absentText (g : Grammar) (q : Intent) : String :=
  match g.dialect with
  | .cql => if q.ifNotExists then " IF NOT EXISTS" else ""
  | .sql => if q.ifNotExists then " ON CONFLICT DO NOTHING" else ""

theorem written_absent (g : Grammar) (q : Intent) (n : Nat) :
    ∃ tokens, Tail (g.absentText q).toList tokens ∧
      Parser.ifAbsent.Reads [.keyword .if, .keyword .on] tokens n
        q.ifNotExists n := by
  unfold absentText
  cases g.dialect with
  | cql =>
    cases q.ifNotExists with
    | false => exact ⟨[], Token.tail_nil, Parser.reads_ifAbsent_none n⟩
    | true =>
      exact ⟨_, ⟨Token.lexes_of_read (rfl : Token.read " IF NOT EXISTS" = .ok _),
          by decide⟩, Parser.reads_ifNotExists n⟩
  | sql =>
    cases q.ifNotExists with
    | false => exact ⟨[], Token.tail_nil, Parser.reads_ifAbsent_none n⟩
    | true =>
      exact ⟨_,
        ⟨Token.lexes_of_read (rfl : Token.read " ON CONFLICT DO NOTHING" = .ok _),
          by decide⟩, Parser.reads_onConflict n⟩

theorem lexes_insert {values : Pairs} {absent ttl : List Token}
    (hvalues : ∀ pair ∈ values, g.Lexed pair.1)
    (habsent : Tail (g.absentText q).toList absent)
    (httl : Tail (ttlClause q).toList ttl) (hc : g.insert q values = .ok c) :
    Lexes c.text.toList (.keyword .insert :: .keyword .into ::
      (g.tableTokens q.table ++ .symbol .leftParen ::
        (Token.commas (values.map fun pair => g.columnTokens pair.1) ++
            .symbol .rightParen :: .keyword .values :: .symbol .leftParen ::
          (Token.placeholders (values.map Prod.snd) ++ .symbol .rightParen ::
            (absent ++ ttl))))) := by
  have htext : c.text.toList =
      "INSERT INTO ".toList ++ ((g.wrapTable q.table).toList ++ (" (".toList ++
        ((g.columnize (values.map Prod.fst)).toList ++ (") VALUES (".toList ++
          ((parameterize (values.map Prod.snd)).text.toList ++
            ([')'] ++ ((g.absentText q).toList ++ (ttlClause q).toList))))))) := by
    obtain ⟨-, ⟨hdialect, rfl⟩ | ⟨hdialect, httl, rfl⟩⟩ := insert_eq_ok hc
    · simp [insertBody, absentText, hdialect, Fragment.command]
    · simp [insertBody, absentText, hdialect, Fragment.command, ttlClause,
        httl, countClause]
  have hinsert : Closed "INSERT INTO ".toList [.keyword .insert, .keyword .into] :=
    Token.closed_word (rfl : Token.read "INSERT INTO" = .ok _)
  have hopen : Joint " (".toList [.symbol .leftParen] :=
    joint_bracket (rfl : Token.read " " = .ok _) (by decide)
  have hclose : Joint ") VALUES (".toList
      [.symbol .rightParen, .keyword .values, .symbol .leftParen] :=
    joint_bracket (rfl : Token.read ") VALUES " = .ok _) (by decide)
  have hlist : Lexes (g.columnize (values.map Prod.fst)).toList
      (Token.commas (values.map fun pair => g.columnTokens pair.1)) := by
    have hlexes : Lexes (g.columnize (values.map Prod.fst)).toList
        (g.columnsTokens (values.map Prod.fst)) := by
      refine lexes_columnize g fun column hcolumn => ?_
      obtain ⟨pair, hpair, rfl⟩ := List.mem_map.mp hcolumn
      exact hvalues pair hpair
    rwa [columnsTokens, List.map_map] at hlexes
  rw [htext]
  exact hinsert ((lexes_wrapTable g q.table).tail (hopen.tail
    (hlist.tail (hclose.tail ((lexes_parameterize (values.map Prod.snd)).tail
      (tail_close.append (habsent.append httl)))))))

theorem parse_insert_readsBack {values : Pairs} (htable : g.ReadsBackTable q.table)
    (hcolumns : ∀ pair ∈ values, g.ReadsBack pair.1)
    (hc : g.insert q values = .ok c) :
    ParsedCommand.parse c.text =
      .ok ⟨.insert (insertImage q values), c.params.length⟩ := by
  obtain ⟨hsome, hcommand⟩ := insert_eq_ok hc
  have hparams : c.params = values.map Prod.snd := by
    rcases hcommand with ⟨-, rfl⟩ | ⟨-, -, rfl⟩ <;>
      simp [insertBody, Fragment.command]
  obtain ⟨_, habsentTail, habsent⟩ :=
    written_absent g q (0 + (values.map Prod.snd).length)
  obtain ⟨_, httlTail, httl⟩ := written_ttl q (0 + (values.map Prod.snd).length)
  have hlexes := lexes_insert (fun pair hpair => (hcolumns pair hpair).lexed)
    habsentTail httlTail hc
  have htakes := Parser.takes_insert htable.columnPath hsome (fun pair hpair =>
    (hcolumns pair hpair).path) (List.length_map Prod.snd).symm habsent httl
  calc
    ParsedCommand.parse c.text = _ :=
      ParsedCommand.parse_eq_ok hlexes (Parser.takes_statement_insert htakes)
    _ = .ok ⟨.insert (insertImage q values), c.params.length⟩ := by
      simp [hparams, insertImage, List.range_eq_range', columnOf]

theorem parse_insert {values : Pairs} (htable : g.ReadableTable q.table)
    (hcolumns : ∀ pair ∈ values, g.ReadablePath pair.1)
    (hc : g.insert q values = .ok c) :
    ParsedCommand.parse c.text =
      .ok ⟨.insert (insertImage q values), c.params.length⟩ :=
  parse_insert_readsBack htable.readsBack
    (fun pair hpair => (hcolumns pair hpair).readsBack) hc

theorem lexes_assignments {values : Pairs} (h : ∀ pair ∈ values, g.Lexed pair.1) :
    Lexes (g.assignments values).text.toList
      (Token.commas (values.map fun pair =>
        g.columnTokens pair.1 ++ [.symbol .eq, .symbol .param])) := by
  rw [assignments, text_join, List.map_map]
  refine lexes_join fun pair hpair => ?_
  have hitem := (h pair hpair).tail
    ((joint_operator .eq).tail lexes_placeholder)
  simpa [Operator.text, Operator.tokens] using hitem

theorem lexes_update {values : Pairs} {ttl filter : List Token}
    (hvalues : ∀ pair ∈ values, g.Lexed pair.1)
    (httl : Tail (ttlClause q).toList ttl)
    (hfilter : Tail (g.writeFilter q).text.toList filter)
    (hc : g.update q values = .ok c) :
    Lexes c.text.toList (.keyword .update ::
      (g.tableTokens q.table ++ (ttl ++ .keyword .set ::
        (Token.commas (values.map fun pair => g.columnTokens pair.1 ++
            [.symbol .eq, .symbol .param]) ++ filter)))) := by
  obtain ⟨-, -, rfl⟩ := update_eq_ok hc
  have hupdate : Closed "UPDATE ".toList [.keyword .update] :=
    Token.closed_word (rfl : Token.read "UPDATE" = .ok _)
  have hset : Joint " SET ".toList [.keyword .set] :=
    Token.joint_word (rfl : Token.read "SET" = .ok _)
  have hlexes := hupdate ((lexes_wrapTable g q.table).tail (httl.append (hset.tail
    ((lexes_assignments hvalues).tail hfilter))))
  simpa [Fragment.command] using hlexes

theorem parse_update_readsBack {values : Pairs}
    {filter conditions : Option Filter} (htable : g.ReadsBackTable q.table)
    (hcolumns : ∀ pair ∈ values, g.ReadsBack pair.1)
    (hwritten : g.WrittenFilters q values.length filter conditions)
    (hc : g.update q values = .ok c) :
    ParsedCommand.parse c.text =
      .ok ⟨.update (updateImage q values filter conditions), c.params.length⟩ := by
  obtain ⟨hsome, -, hcommand⟩ := update_eq_ok hc
  rw [← Nat.zero_add values.length] at hwritten
  obtain ⟨first, second, m, htext, ⟨_, hfilterTail, hfilter⟩, ⟨_, hconditionTail,
    hconditions⟩⟩ := hwritten
  obtain ⟨_, httlTail, httl⟩ := written_ttl q 0
  have hlexes := lexes_update (fun pair hpair => (hcolumns pair hpair).lexed)
    httlTail (htext ▸ hfilterTail.append hconditionTail) hc
  have htakes := Parser.takes_update htable.path httl
    (Parser.reads_assignments hsome
      (fun pair hpair => (hcolumns pair hpair).path) 0) hfilter hconditions
  calc
    ParsedCommand.parse c.text = _ :=
      ParsedCommand.parse_eq_ok hlexes (Parser.takes_statement_update htakes)
    _ = .ok ⟨.update (updateImage q values filter conditions),
        c.params.length⟩ := by
      simp [hcommand, Fragment.command, updateImage, length_allBindings, columnOf,
        Nat.add_assoc]

theorem parse_update {values : Pairs} {filter conditions : Option Filter}
    (htable : g.ReadableTable q.table)
    (hcolumns : ∀ pair ∈ values, g.ReadablePath pair.1)
    (hwritten : g.WrittenFilters q values.length filter conditions)
    (hc : g.update q values = .ok c) :
    ParsedCommand.parse c.text =
      .ok ⟨.update (updateImage q values filter conditions), c.params.length⟩ :=
  parse_update_readsBack htable.readsBack
    (fun pair hpair => (hcolumns pair hpair).readsBack) hwritten hc

theorem lexes_delete {filter : List Token}
    (hcolumns : ∀ name ∈ q.selection.names, g.Lexed name)
    (hfilter : Tail (g.writeFilter q).text.toList filter)
    (hc : g.delete q = .ok c) :
    Lexes c.text.toList (.keyword .delete ::
      (Token.commas (q.selection.names.map g.columnTokens) ++ .keyword .from ::
        (g.tableTokens q.table ++ filter))) := by
  obtain ⟨-, rfl⟩ := delete_eq_ok hc
  have hdelete : Closed "DELETE ".toList [.keyword .delete] :=
    Token.closed_word (rfl : Token.read "DELETE" = .ok _)
  have hfrom : Closed "FROM ".toList [.keyword .from] :=
    Token.closed_word (rfl : Token.read "FROM" = .ok _)
  have hclosed : Closed (g.deletedColumns q.selection).toList
      (Token.commas (q.selection.names.map g.columnTokens)) := by
    have hnone : Closed [] [] := fun rest more hrest => hrest
    cases hselection : q.selection with
    | all => exact hnone
    | columns names =>
      cases names with
      | nil => exact hnone
      | cons name names =>
        rw [hselection] at hcolumns
        have hlist := lexes_columnize g hcolumns
        rw [deletedColumns, String.toList_append]
        · exact hlist.closed_blank
        · simp
  have hlexes :=
    hdelete (hclosed (hfrom ((lexes_wrapTable g q.table).tail hfilter)))
  simpa [Fragment.command] using hlexes

theorem parse_delete_readsBack {filter conditions : Option Filter}
    (htable : g.ReadsBackTable q.table)
    (hcolumns : ∀ name ∈ q.selection.names, g.ReadablePath name)
    (hwritten : g.WrittenFilters q 0 filter conditions) (hc : g.delete q = .ok c) :
    ParsedCommand.parse c.text = .ok ⟨.delete (deleteImage q filter conditions),
      c.params.length⟩ := by
  obtain ⟨-, hcommand⟩ := delete_eq_ok hc
  obtain ⟨first, second, m, htext, ⟨_, hfilterTail, hfilter⟩, ⟨_, hconditionTail,
    hconditions⟩⟩ := hwritten
  have hlexes := lexes_delete (fun name hname => (hcolumns name hname).lexed)
    (htext ▸ hfilterTail.append hconditionTail) hc
  have htakes := Parser.takes_delete htable.path
    (fun name hname => (hcolumns name hname).path) hfilter hconditions
  calc
    ParsedCommand.parse c.text = _ :=
      ParsedCommand.parse_eq_ok hlexes (Parser.takes_statement_delete htakes)
    _ = .ok ⟨.delete (deleteImage q filter conditions), c.params.length⟩ := by
      simp [hcommand, Fragment.command, deleteImage, length_allBindings, columnOf]

theorem parse_delete {filter conditions : Option Filter}
    (htable : g.ReadableTable q.table)
    (hcolumns : ∀ name ∈ q.selection.names, g.ReadablePath name)
    (hwritten : g.WrittenFilters q 0 filter conditions) (hc : g.delete q = .ok c) :
    ParsedCommand.parse c.text =
      .ok ⟨.delete (deleteImage q filter conditions), c.params.length⟩ :=
  parse_delete_readsBack htable.readsBack hcolumns hwritten hc

/-! ## Recovery -/

theorem recoverable_counting (h : g.Recoverable q) : g.Recoverable q.counting where
  joins := h.joins
  havings := h.havings
  table := h.table
  wheres := h.wheres
  ifConditions := h.ifConditions
  groups := h.groups
  orders := by simp [Intent.counting]
  limit := by simp [Intent.counting]
  offset := by simp [Intent.counting]

/-- Every compiled command is read back as the image of its intent, with as many
placeholders as it has parameters. -/
theorem parse_compile (g : Grammar) (q : Intent) (r : Request) (c : Command)
    (hq : g.Recoverable q) (hr : g.ReadableRequest q r)
    (hc : g.compile q r = .ok c) :
    ParsedCommand.parse c.text = .ok ⟨g.image q r, c.params.length⟩ := by
  cases r with
  | select => exact parse_select hq (written_selection hr) hc
  | count => exact parse_select (recoverable_counting hq) written_countStar hc
  | insert values => exact parse_insert hq.table hr hc
  | update values => exact parse_update hq.table hr (written_writeFilter hq _) hc
  | delete => exact parse_delete hq.table hr (written_writeFilter hq 0) hc

/-- A query with every clause, in which soft keywords name the table, the
columns and a label. -/
def softQuery : Intent where
  table := "values"
  selection := .columns ["count", "shop.total As desc"]
  wheres := [⟨.and, .between "key" (.int 1) (.int 5)⟩, ⟨.or, .isIn "shop.ttl" []⟩,
    ⟨.and, .token ["key", "Allow"] .gt [.int 2]⟩]
  groups := ["allow"]
  orders := [⟨"Price \"net\"", .desc⟩, ⟨"asc", .asc⟩]
  limit := some 3
  allowFiltering := true

theorem parse_compile_softQuery :
    ∃ c, (⟨.cql, some "shop"⟩ : Grammar).compile softQuery .select = .ok c ∧
      ParsedCommand.parse c.text =
        .ok ⟨(⟨.cql, some "shop"⟩ : Grammar).image softQuery .select,
          c.params.length⟩ :=
  ⟨_, rfl, parse_compile ⟨.cql, some "shop"⟩ softQuery .select _
    ⟨rfl, rfl, by decide, by decide, by decide, by decide, by decide,
      by simp [softQuery], by simp [softQuery]⟩ (by decide) rfl⟩

end Grammar

end EntityMapper
