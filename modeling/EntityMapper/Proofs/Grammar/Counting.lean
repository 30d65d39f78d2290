import EntityMapper.Proofs.Grammar.Refused
import EntityMapper.Proofs.Statement.Cutting
import EntityMapper.Proofs.Statement.Trailing

/-!
# A query and its count

The command that counts the rows of a query is compiled from the conditions of
the query, but not from its order. So the two commands differ in front of the
table and behind the conditions. Whatever columns and raw texts the conditions
have, their text ends as filters do: with a placeholder, a bracket or a null, or
with a raw text that is a filter of its own. If the query is accepted, its
filter therefore is what the conditions alone are read as, and the count is
accepted with the same filter. Only a quote that the conditions open and the
order closes could make them depend on what stands behind them.
-/

namespace EntityMapper

/-- The query for the rows that a query counts, with every column and without
limits. -/
def Intent.unlimited (q : Intent) : Intent :=
  { q with selection := .all, limit := none, offset := none }

/-- The query asks for rows of its table, one by one. -/
structure Intent.Ungrouped (q : Intent) : Prop where
  joins : q.joins = []
  groups : q.groups = []
  havings : q.havings = []

namespace Parser

/-- A text that is a filter of its own ends as filters do. -/
theorem sealed_of_whole {text : String} {f : Filter}
    (h : whole? filter text = some f) :
    ∃ tokens, Token.Lexes text.toList tokens ∧ Sealed tokens := by
  obtain ⟨spanned, c, hread, hrun, hend⟩ := whole_eq_some_iff.mp h
  obtain ⟨used, hused, -, hsealed⟩ := consumes_filter _ f c rfl hrun
  obtain rfl : spanned.map SpannedToken.token = used := by
    simpa [Cursor.ahead, hend] using hused
  exact ⟨_, Token.read_eq_ok_iff.mp ⟨spanned, hread, rfl⟩, hsealed⟩

end Parser

namespace Grammar

open Token (Lexes Apart Tail)

variable {g : Grammar} {q : Intent}

/-! ## How conditions end -/

/-- Behind a blank stand the last tokens of the text, and the very last is one
that only filters have. -/
def EndsPlainly (text : List Char) : Prop :=
  ∃ front back tokens, text = front ++ back ∧ Apart back ∧ Lexes back tokens ∧
    ∃ t ∈ tokens.getLast?, t.filterOnly = true

theorem endsPlainly_append (front back : String) {text : String}
    {tokens : List Token} (htext : text = front ++ back)
    (hback : Apart back.toList) (hlexes : Lexes back.toList tokens)
    (hlast : ∃ t ∈ tokens.getLast?, t.filterOnly = true) :
    EndsPlainly text.toList :=
  ⟨front.toList, back.toList, tokens, by rw [htext, String.toList_append],
    hback, hlexes, hlast⟩

/-- A text that ends in placeholders between brackets, behind a word that ends
in a bracket. -/
theorem endsPlainly_list (front head : String) (values : List Value)
    {text : String} {tokens : List Token}
    (htext : text = front ++ (head ++ ((parameterize values).text ++ ")")))
    (hhead : Token.Joint head.toList tokens) (hblank : Apart head.toList) :
    EndsPlainly text.toList := by
  have hlexes : Lexes (head ++ ((parameterize values).text ++ ")")).toList
      (tokens ++ (Token.placeholders values ++ [.symbol .rightParen])) := by
    rw [String.toList_append, String.toList_append]
    exact hhead.closed ((lexes_parameterize values).tail tail_close)
  refine endsPlainly_append _ _ htext ?_ hlexes
    ⟨.symbol .rightParen, by simp [List.getLast?_append], rfl⟩
  rw [String.toList_append]
  exact hblank.append hhead.nonempty _

/-- A condition that is no raw text ends in a placeholder, a bracket or a null. -/
theorem endsPlainly_condition (g : Grammar) {c : Condition}
    (hraw : c.rawText? = none) : EndsPlainly (g.condition c).text.toList := by
  have hplaceholder (front : String) {text : String}
      (htext : text = front ++ " ?") : EndsPlainly text.toList :=
    endsPlainly_append _ _ htext (by decide)
      (Token.lexes_of_read (rfl : Token.read " ?" = .ok _)) ⟨_, rfl, rfl⟩
  cases c with
  | basic column operator value =>
    exact hplaceholder (g.wrapColumn column ++ " " ++ operator.text)
      (by simp [condition, String.append_assoc])
  | between column low high =>
    exact hplaceholder (g.wrapColumn column ++
        (" >= ?" ++ (" AND " ++ (g.wrapColumn column ++ " <="))))
      (by simp [condition, String.append_assoc])
  | isNull column =>
    exact endsPlainly_append (g.wrapColumn column) " IS NULL" rfl (by decide)
      (Token.lexes_of_read (rfl : Token.read " IS NULL" = .ok _)) ⟨_, rfl, rfl⟩
  | notNull column =>
    exact endsPlainly_append (g.wrapColumn column) " IS NOT NULL" rfl (by decide)
      (Token.lexes_of_read (rfl : Token.read " IS NOT NULL" = .ok _)) ⟨_, rfl, rfl⟩
  | isIn column values =>
    exact endsPlainly_list (g.wrapColumn column) " IN (" values
      (by simp [condition, String.append_assoc])
      (joint_bracket (rfl : Token.read " IN " = .ok _) (by decide)) (by decide)
  | notIn column values =>
    exact endsPlainly_list (g.wrapColumn column) " NOT IN (" values
      (by simp [condition, String.append_assoc])
      (joint_bracket (rfl : Token.read " NOT IN " = .ok _) (by decide)) (by decide)
  | token columns operator values =>
    exact endsPlainly_list
      ("TOKEN(" ++ g.columnize columns ++ ") " ++ operator.text) " TOKEN("
      values (by simp [condition, String.append_assoc])
      (joint_bracket (rfl : Token.read " TOKEN" = .ok _) (by decide)) (by decide)
  | raw text => cases hraw

/-! ## How lists of conditions end -/

theorem text_wheres_concat (g : Grammar) {predicates : List Predicate}
    (hsome : predicates ≠ []) (p : Predicate) :
    (g.wheres (predicates ++ [p])).text =
      (g.wheres predicates).text ++ (" " ++ p.connector.keyword ++ " ") ++
        (g.condition p.condition).text := by
  have hmore (rest : List Predicate) : (g.moreWheres (rest ++ [p])).text =
      (g.moreWheres rest).text ++ (" " ++ p.connector.keyword ++ " ") ++
        (g.condition p.condition).text := by
    induction rest with
    | nil => simp [moreWheres]
    | cons r rest ih => simp [moreWheres, ih, String.append_assoc]
  obtain ⟨first, rest, rfl⟩ := List.exists_cons_of_ne_nil hsome
  simp [wheres, hmore, String.append_assoc]

/-- Every raw text among the conditions is a filter of its own. -/
def RawsParse (predicates : List Predicate) : Prop :=
  ∀ p ∈ predicates, ∀ text ∈ p.condition.rawText?,
    (Parser.whole? Parser.filter text).isSome = true

instance (predicates : List Predicate) : Decidable (RawsParse predicates) :=
  inferInstanceAs (Decidable (∀ p ∈ predicates, ∀ text ∈ p.condition.rawText?, _))

/-- A text that ends plainly ends as a filter does. -/
theorem EndsPlainly.endsAsFilter {text : List Char} (h : EndsPlainly text)
    (front : List Char) {tokens : List Token}
    (hlexes : Lexes (front ++ text) tokens) : Parser.EndsAsFilter tokens := by
  obtain ⟨first, back, ends, rfl, hback, hends, t, ht, hlast⟩ := h
  rw [← List.append_assoc] at hlexes
  obtain ⟨firsts, rfl, -⟩ := hlexes.cut_before hback hends
  refine ⟨firsts ++ ends, [], by simp, fun u hu => ?_, .inl rfl⟩
  rw [List.getLast?_append, ht] at hu
  obtain rfl := Option.some.inj hu
  exact hlast

/-- A raw text behind a connector is cut off from what stands before. -/
theorem endsAsFilter_raw {front : List Char} {connector : Connector}
    {text : String} {f : Filter}
    (htext : Parser.whole? Parser.filter text = some f) {tokens : List Token}
    (hlexes : Lexes
      (front ++ (" " ++ connector.keyword ++ " ").toList ++ text.toList) tokens) :
    Parser.EndsAsFilter tokens := by
  obtain ⟨own, hown, hsealed⟩ := Parser.sealed_of_whole htext
  have hblank : Lexes (' ' :: text.toList) own := hown.congr_blank rfl
  have hconnector : Lexes (" " ++ connector.keyword).toList [connector.token] := by
    cases connector with
    | and => exact Token.lexes_of_read (rfl : Token.read " AND" = .ok _)
    | or => exact Token.lexes_of_read (rfl : Token.read " OR" = .ok _)
  have hsplit : front ++ (" " ++ connector.keyword ++ " ").toList ++ text.toList =
      front ++ (" " ++ connector.keyword).toList ++ ' ' :: text.toList := by simp
  rw [hsplit] at hlexes
  obtain ⟨firsts, rfl, hfirsts⟩ := hlexes.cut_before (Token.apart_cons rfl) hblank
  obtain ⟨before, rfl, -⟩ := hfirsts.cut_before (by simp [Apart]; rfl) hconnector
  refine ⟨before ++ [connector.token], own, rfl, fun t ht => ?_, .inr hsealed⟩
  obtain rfl : connector.token = t := by simpa using ht
  cases connector <;> rfl

theorem text_condition_raw (g : Grammar) {c : Condition} {text : String}
    (h : c.rawText? = some text) : (g.condition c).text = text := by
  cases c with
  | raw _ =>
    obtain rfl := Option.some.inj h
    rfl
  | _ => cases h

/-- A list of conditions ends as a filter does, if it can be cut into tokens at
all. -/
theorem endsAsFilter_wheres {predicates : List Predicate}
    (hsome : predicates ≠ []) (hraws : RawsParse predicates)
    {tokens : List Token} (h : Lexes (g.wheres predicates).text.toList tokens) :
    Parser.EndsAsFilter tokens := by
  obtain ⟨before, p, rfl⟩ := (List.eq_nil_or_concat' predicates).resolve_left hsome
  have hp := hraws p (by simp)
  cases hraw : p.condition.rawText? with
  | none =>
    have hplain := endsPlainly_condition g hraw
    by_cases hbefore : before = []
    · subst hbefore
      exact hplain.endsAsFilter [] (by simpa [wheres, moreWheres] using h)
    · rw [text_wheres_concat g hbefore, String.toList_append] at h
      exact hplain.endsAsFilter _ h
  | some text =>
    obtain ⟨f, htext⟩ := Option.isSome_iff_exists.mp (hp text hraw)
    have hcondition := text_condition_raw g hraw
    by_cases hbefore : before = []
    · subst hbefore
      obtain ⟨own, hown, hsealed⟩ := Parser.sealed_of_whole htext
      have hsame : Lexes text.toList tokens := by
        simpa [wheres, moreWheres, hcondition] using h
      exact ⟨[], own, hsame.unique hown, by simp, .inr hsealed⟩
    · rw [text_wheres_concat g hbefore, String.toList_append,
        String.toList_append, hcondition] at h
      exact endsAsFilter_raw htext h

/-! ## The two commands -/

/-- The query is compiled with the permission to filter. -/
def permits (g : Grammar) (q : Intent) : Bool :=
  match g.dialect with
  | .cql => q.allowFiltering
  | .sql => false

/-- The permission to filter, as it is written. -/
def allowText (allowed : Bool) : String :=
  if allowed then " ALLOW FILTERING" else ""

/-- The filter clause as it is written. -/
def whereText (g : Grammar) (q : Intent) : String :=
  ((g.wheres q.wheres).headed " WHERE ").text

/-- A query for single rows without limits is its head, its filter and its order. -/
theorem select_ungrouped (h : q.Ungrouped) (hlimit : q.limit = none)
    (hoffset : q.offset = none) :
    g.select q = .ok ⟨g.selectHead q ++
      (g.whereText q ++ (g.orderClause q.orders ++ allowText (g.permits q))),
      Predicate.allBindings q.wheres⟩ := by
  obtain ⟨c, hc⟩ := exists_select (g := g) h.joins h.havings hoffset
  rw [hc]
  rcases select_eq_ok hc with ⟨hdialect, -, -, -, rfl⟩ | ⟨hdialect, rfl⟩
  · simp [Fragment.command, whereText, allowText, permits, hdialect, hlimit,
      h.groups, groupClause, countClause, String.append_assoc]
  · simp [Fragment.command, whereText, allowText, permits, hdialect, hlimit,
      hoffset, h.joins, h.groups, h.havings, groupClause, countClause,
      Text.concat, String.append_assoc]
    simp [wheres, Fragment.headed, Predicate.allBindings]

/-- Its count has another head and no order. -/
theorem count_ungrouped (h : q.Ungrouped) : g.count q =
    .ok ⟨g.selectHead q.counting ++ (g.whereText q ++ allowText (g.permits q)),
      Predicate.allBindings q.wheres⟩ := by
  have hcounting : q.counting.Ungrouped := ⟨h.joins, h.groups, h.havings⟩
  have hend : g.orderClause q.counting.orders ++ allowText (g.permits q) =
      allowText (g.permits q) := String.empty_append
  rw [count, select_ungrouped hcounting rfl rfl, ← hend]
  rfl

/-! ## The tokens of their parts -/

theorem lexes_selectHead (g : Grammar) (list table : String) {tokens : List Token}
    (hlist : Lexes list.toList tokens) :
    Lexes ("SELECT " ++ list ++ " FROM " ++ g.wrapTable table).toList
      (.keyword .select :: (tokens ++ .keyword .from :: g.tableTokens table)) := by
  have hselect : Token.Closed "SELECT ".toList [.keyword .select] :=
    Token.closed_word (rfl : Token.read "SELECT" = .ok _)
  have hfrom : Token.Joint " FROM ".toList [.keyword .from] :=
    Token.joint_word (rfl : Token.read "FROM" = .ok _)
  have h := hselect (hlist.tail (hfrom.tail (lexes_wrapTable g table)))
  simpa using h

theorem tail_allow (allowed : Bool) :
    Tail (allowText allowed).toList (Parser.allowTokens allowed) := by
  cases allowed with
  | true =>
    exact ⟨Token.lexes_of_read (rfl : Token.read " ALLOW FILTERING" = .ok _),
      by decide⟩
  | false => exact Token.tail_nil

theorem apart_allow (allowed : Bool) : Apart (allowText allowed).toList := by
  cases allowed <;> decide

theorem exists_join_concat (separator : String) (texts : List String)
    (text : String) :
    ∃ front, Text.join separator (texts ++ [text]) = front ++ text := by
  induction texts with
  | nil => exact ⟨"", (String.empty_append ..).symm⟩
  | cons first texts ih =>
    obtain ⟨front, hfront⟩ := ih
    obtain ⟨next, more, hcons⟩ := List.exists_cons_of_ne_nil
      (List.append_ne_nil_of_right_ne_nil texts (List.cons_ne_nil text []))
    refine ⟨first ++ separator ++ front, ?_⟩
    rw [hcons] at hfront
    rw [List.cons_append, hcons, Text.join, hfront]
    · simp [String.append_assoc]
    · simp

/-- The end of a query is cut in front of its last direction, whatever its
columns are. -/
theorem writtenEnd_of_lexes {orders : List Order} {allowed : Bool}
    {tokens : List Token}
    (h : Lexes (g.orderClause orders ++ allowText allowed).toList tokens) :
    Parser.WrittenEnd allowed tokens := by
  obtain rfl | ⟨before, o, rfl⟩ := List.eq_nil_or_concat' orders
  · have hsame : Lexes (allowText allowed).toList tokens := by
      simpa [orderClause] using h
    rw [hsame.unique (tail_allow allowed).lexes]
    exact .plain
  · obtain ⟨front, hfront⟩ := exists_join_concat ", "
      (before.map fun o => g.wrapColumn o.column ++ " " ++ o.direction.keyword)
      (g.wrapColumn o.column ++ " " ++ o.direction.keyword)
    have hlist : g.orderList (before ++ [o]) =
        front ++ (g.wrapColumn o.column ++ " " ++ o.direction.keyword) := by
      rw [orderList, List.map_append, List.map_singleton, hfront]
    have hdirection := joint_direction o.direction
    have hend := (hdirection.append (tail_allow allowed)).lexes
    have hsplit : (g.orderClause (before ++ [o]) ++ allowText allowed).toList =
        " ORDER BY".toList ++ ' ' :: (front ++ g.wrapColumn o.column).toList ++
          (' ' :: o.direction.keyword.toList ++ (allowText allowed).toList) := by
      rw [orderClause, if_neg (by simp), hlist]
      simp
    rw [hsplit] at h
    obtain ⟨firsts, rfl, hfirsts⟩ := h.cut_before (Token.apart_cons rfl) hend
    obtain ⟨columns, rfl, -⟩ := hfirsts.cut_behind (Token.apart_cons rfl)
      (Token.lexes_of_read (rfl : Token.read " ORDER BY" = .ok _))
    exact .ordered (.keyword .by :: columns) o.direction

theorem apart_order (g : Grammar) (orders : List Order) (allowed : Bool) :
    Apart (g.orderClause orders ++ allowText allowed).toList := by
  unfold orderClause
  split
  · simpa using apart_allow allowed
  · rw [String.toList_append, String.toList_append, List.append_assoc]
    exact Apart.append (by decide) (by decide) _

/-- A filter clause is cut from what is written behind it, if either of them has
tokens of its own. -/
theorem written_of_lexes (hraws : RawsParse q.wheres) {back : List Char}
    {tokens : List Token} (hback : Apart back)
    (hcut : (∃ ends, Lexes back ends) ∨
      ∃ own, Lexes (g.wheres q.wheres).text.toList own)
    (h : Lexes ((g.whereText q).toList ++ back) tokens) :
    ∃ wheres tail, tokens = wheres ++ tail ∧ Tail (g.whereText q).toList wheres ∧
      Parser.WrittenWhere wheres ∧ Lexes back tail := by
  unfold whereText Fragment.headed at h ⊢
  by_cases hempty : (g.wheres q.wheres).text.isEmpty = true
  · rw [if_pos hempty] at h ⊢
    exact ⟨[], tokens, rfl, Token.tail_nil, .inl rfl, h⟩
  · rw [if_neg hempty] at h ⊢
    rw [Fragment.text_append, String.toList_append] at h ⊢
    have hsome : q.wheres ≠ [] := by
      rintro hnil
      rw [hnil] at hempty
      exact hempty rfl
    obtain ⟨own, seconds, rfl, hown, hseconds⟩ : ∃ own seconds,
        tokens = .keyword .where :: own ++ seconds ∧
        Lexes (g.wheres q.wheres).text.toList own ∧ Lexes back seconds := by
      rcases hcut with ⟨ends, hends⟩ | ⟨own, hown⟩
      · obtain ⟨firsts, rfl, hfirsts⟩ := h.cut_before hback hends
        have hkeyword : Lexes
            (" WHERE".toList ++ ' ' :: (g.wheres q.wheres).text.toList) firsts :=
          hfirsts
        obtain ⟨own, rfl, hown⟩ := hkeyword.cut_behind (Token.apart_cons rfl)
          (Token.lexes_of_read (rfl : Token.read " WHERE" = .ok _))
        exact ⟨own, ends, rfl, hown.congr_blank rfl, hends⟩
      · obtain ⟨seconds, rfl, hseconds⟩ :=
          h.cut_behind hback (joint_where.closed hown)
        exact ⟨own, seconds, rfl, hown, hseconds⟩
    exact ⟨_, seconds, rfl, joint_where.tail hown,
      .inr ⟨own, rfl, endsAsFilter_wheres hsome hraws hown⟩, hseconds⟩

theorem apart_where (g : Grammar) (q : Intent) {back : List Char}
    (hback : Apart back) : Apart ((g.whereText q).toList ++ back) := by
  unfold whereText Fragment.headed
  split
  · exact hback
  · rw [Fragment.text_append, String.toList_append, List.append_assoc]
    exact Apart.append (by decide) (by decide) _

/-- The conditions of the query can be cut into tokens without its order, if it
has one. -/
def CutApart (g : Grammar) (q : Intent) : Prop :=
  q.orders = [] ∨ (Token.read (g.wheres q.wheres).text).isOk = true

instance (g : Grammar) (q : Intent) : Decidable (g.CutApart q) :=
  inferInstanceAs (Decidable (_ ∨ _))

theorem CutApart.exists_tokens (h : g.CutApart q) :
    q.orders = [] ∨ ∃ tokens, Lexes (g.wheres q.wheres).text.toList tokens := by
  refine h.imp_right fun hread => ?_
  cases hresult : Token.read (g.wheres q.wheres).text with
  | error e => simp [hresult, Except.isOk, Except.toBool] at hread
  | ok spanned => exact ⟨_, Token.lexes_of_read hresult⟩

/-- The tokens of a query are those of its head, of its filter clause and of its
end. -/
theorem exists_tokens (hraws : RawsParse q.wheres) (hcut : g.CutApart q)
    {head : String} {heads tokens : List Token} (hhead : Lexes head.toList heads)
    (h : Lexes (head ++ (g.whereText q ++
          (g.orderClause q.orders ++ allowText (g.permits q)))).toList tokens) :
    ∃ wheres tail, tokens = heads ++ (wheres ++ tail) ∧
      Tail (g.whereText q).toList wheres ∧ Parser.WrittenWhere wheres ∧
      Parser.WrittenEnd (g.permits q) tail := by
  have hback := apart_order g q.orders (g.permits q)
  rw [String.toList_append, String.toList_append] at h
  obtain ⟨parts, rfl, hrest⟩ := h.cut_behind (apart_where g q hback) hhead
  have hown : (∃ ends,
        Lexes (g.orderClause q.orders ++ allowText (g.permits q)).toList ends) ∨
      ∃ own, Lexes (g.wheres q.wheres).text.toList own := by
    refine (CutApart.exists_tokens hcut).imp_left fun hnone =>
      ⟨Parser.allowTokens (g.permits q), ?_⟩
    simpa [hnone, orderClause] using (tail_allow (g.permits q)).lexes
  obtain ⟨wheres, tail, rfl, hwheres, hwritten, htail⟩ :=
    written_of_lexes hraws hback hown hrest
  exact ⟨wheres, tail, rfl, hwheres, hwritten, writtenEnd_of_lexes htail⟩

/-! ## A query and its count -/

/-- If a query is accepted, whatever it orders by, then so is its count, with
the same filter. -/
theorem parse_count (h : q.Ungrouped) (hraws : RawsParse q.wheres)
    (hcut : g.CutApart q) {all : Command} (hselect : g.select q.unlimited = .ok all)
    {parsed : ParsedCommand} (hparse : ParsedCommand.parse all.text = .ok parsed) :
    ∃ filter orderBy allowFiltering counting, parsed.statement = .select
        ⟨columnOf q.table, .all, filter, [], orderBy, none, none, allowFiltering⟩ ∧
      g.count q = .ok counting ∧ counting.params = all.params ∧
      ParsedCommand.parse counting.text = .ok ⟨.select ⟨columnOf q.table, .count,
          filter, [], [], none, none, g.permits q⟩, parsed.placeholders⟩ := by
  have hall : q.unlimited.Ungrouped := ⟨h.joins, h.groups, h.havings⟩
  obtain rfl := Except.ok.inj ((select_ungrouped hall rfl rfl).symm.trans hselect)
  obtain ⟨spanned, _, hread, -⟩ := ParsedCommand.exists_of_parse hparse
  have hlexes := Token.lexes_of_read hread
  have hhead : Lexes ("SELECT " ++ "*" ++ " FROM " ++ g.wrapTable q.table).toList
      (Parser.selectAllTokens (g.tableTokens q.table)) :=
    lexes_selectHead g "*" q.table
      (Token.lexes_of_read (rfl : Token.read "*" = .ok _))
  obtain ⟨wheres, tail, hall, hwheres, hwritten, hend⟩ :=
    exists_tokens hraws hcut hhead hlexes
  rw [hall] at hlexes
  -- A table name that is not read to its end is not accepted.
  have hdot : ∀ t ∈ (wheres ++ tail).head?, t ∉ [Token.symbol .dot] :=
    (hwritten.headIn.append hend.headIn).not_mem (by simp)
  have htable : g.ReadsBackTable q.table := ParsedCommand.of_parse hlexes
    (Parser.leaves_selectAll (leaves_tableName g q.table fun hhead =>
      hdot _ hhead (List.mem_singleton_self _))) (by simp) hparse
  -- The count has the same filter clause between another head and a shorter end.
  have hstar : Lexes (g.selection q.counting.selection).toList
      [.keyword .count, .symbol .leftParen, .symbol .star, .symbol .rightParen] :=
    Token.lexes_of_read (rfl : Token.read "COUNT(*)" = .ok _)
  have hcounting : Lexes (g.selectHead q.counting ++
      (g.whereText q ++ allowText (g.permits q))).toList
      (Parser.countTokens (g.tableTokens q.table) ++
        (wheres ++ Parser.allowTokens (g.permits q))) := by
    rw [String.toList_append, String.toList_append]
    exact (lexes_selectHead g _ _ hstar).tail
      (hwheres.append (tail_allow (g.permits q)))
  obtain ⟨filter, orderBy, allowFiltering, hstatement, hcount⟩ :=
    ParsedCommand.count_of_parse hlexes hcounting htable.columnPath
      hwritten hend hparse
  exact ⟨filter, orderBy, allowFiltering, _, hstatement, count_ungrouped h, rfl,
    hcount⟩

end Grammar

end EntityMapper
