import EntityMapper.Proofs.Grammar.Compilation

/-!
# Placeholders and parameters of compiled commands

The placeholders of a command are counted by a scan that knows quotes: a
question mark counts only outside them. A command is sound if the scan finds as
many placeholders as there are parameters. This holds of every command a grammar
compiles, for any names at all, because a name is written either bare or between
quotes that the scan leaves where it entered them. Only text that is passed on
as it is, raw conditions and function calls, has to be free of quotes and
question marks.

The scan is followed over a concatenation by the quote that is open in between.
A fragment is *balanced* if the scan ends outside quotes and counts its
parameters; balance is kept by every way of joining fragments, and the compilers
join nothing else.
-/

namespace EntityMapper

/-! ## The scan over a concatenation -/

/-- The quote that is open after a text, given the one open before it. -/
def quoteAfter : Option Char → List Char → Option Char
  | quote, [] => quote
  | some quote, c :: rest =>
    quoteAfter (if c = quote then none else some quote) rest
  | none, c :: rest => quoteAfter (if c = '\'' ∨ c = '"' then some c else none) rest

theorem quoteAfter_append (quote : Option Char) (first second : List Char) :
    quoteAfter quote (first ++ second) =
      quoteAfter (quoteAfter quote first) second := by
  induction first generalizing quote with
  | nil => simp [quoteAfter]
  | cons c first ih => cases quote <;> simp only [List.cons_append, quoteAfter, ih]

theorem countPlaceholdersFrom_append (quote : Option Char)
    (first second : List Char) :
    countPlaceholdersFrom quote (first ++ second) =
      countPlaceholdersFrom quote first +
        countPlaceholdersFrom (quoteAfter quote first) second := by
  induction first generalizing quote with
  | nil => cases quote <;> simp [countPlaceholdersFrom, quoteAfter]
  | cons c first ih =>
    cases quote with
    | some quote =>
      simp only [List.cons_append, countPlaceholdersFrom, quoteAfter, ih]
    | none =>
      simp only [List.cons_append, countPlaceholdersFrom, quoteAfter]
      split
      · exact ih _
      · split
        · rw [ih]
          omega
        · exact ih _

/-! ## Silent text -/

/-- The scan passes over the text without counting and without a quote left open. -/
def Silent (text : List Char) : Prop :=
  quoteAfter none text = none ∧ countPlaceholdersFrom none text = 0

/-- A character the scan does not look at outside quotes. -/
def IsPlain (c : Char) : Prop := c ≠ '?' ∧ c ≠ '\'' ∧ c ≠ '"'

instance (c : Char) : Decidable (IsPlain c) := inferInstanceAs (Decidable (_ ∧ _))

theorem silent_nil : Silent [] := ⟨rfl, rfl⟩

theorem Silent.append {first second : List Char} (hfirst : Silent first)
    (hsecond : Silent second) : Silent (first ++ second) := by
  refine ⟨?_, ?_⟩
  · rw [quoteAfter_append, hfirst.1, hsecond.1]
  · rw [countPlaceholdersFrom_append, hfirst.1, hfirst.2, hsecond.2]

theorem Silent.append_text {first second : String} (hfirst : Silent first.toList)
    (hsecond : Silent second.toList) : Silent (first ++ second).toList := by
  rw [String.toList_append]
  exact hfirst.append hsecond

theorem Silent.cons {c : Char} {text : List Char} (hc : IsPlain c)
    (htext : Silent text) : Silent (c :: text) := by
  obtain ⟨hmark, hsingle, hdouble⟩ := hc
  refine ⟨?_, ?_⟩
  · simpa [quoteAfter, hsingle, hdouble] using htext.1
  · simpa [countPlaceholdersFrom, hmark, hsingle, hdouble] using htext.2

/-- A text of plain characters. -/
def AllPlain (text : List Char) : Prop := ∀ c ∈ text, IsPlain c

/-- Only the characters of the text are looked at, not all there are. -/
instance (text : List Char) : Decidable (AllPlain text) :=
  List.decidableBAll IsPlain text

theorem silent_of_plain {text : List Char} (h : AllPlain text) : Silent text := by
  induction text with
  | nil => exact silent_nil
  | cons c text ih =>
    exact .cons (h c List.mem_cons_self)
      (ih fun d hd => h d (List.mem_cons_of_mem c hd))

/-- A text that may be passed on as it is. -/
def Harmless (text : String) : Prop := ∀ c ∈ text.toList, IsPlain c

instance (text : String) : Decidable (Harmless text) :=
  inferInstanceAs (Decidable (AllPlain text.toList))

theorem silent_text (text : String) (h : Harmless text) : Silent text.toList :=
  silent_of_plain h

/-- Inside double quotes nothing counts, and a doubled quote is left and entered
again at once. -/
theorem scan_doubleQuotes (name : List Char) :
    quoteAfter (some '"') (Grammar.doubleQuotes name) = some '"' ∧
      countPlaceholdersFrom (some '"') (Grammar.doubleQuotes name) = 0 := by
  induction name with
  | nil => exact ⟨rfl, rfl⟩
  | cons c name ih =>
    have hstep : Grammar.doubleQuotes (c :: name) =
        (if c = '"' then ['"', '"'] else [c]) ++ Grammar.doubleQuotes name := rfl
    rw [hstep, quoteAfter_append, countPlaceholdersFrom_append]
    by_cases hc : c = '"'
    · simpa [hc, quoteAfter, countPlaceholdersFrom] using ih
    · simpa [hc, quoteAfter, countPlaceholdersFrom] using ih

theorem silent_quotedSegment (name : List Char) :
    Silent (Grammar.quotedSegment name) := by
  obtain ⟨hquote, hcount⟩ := scan_doubleQuotes name
  have hcons : Grammar.quotedSegment name =
      ['"'] ++ (Grammar.doubleQuotes name ++ ['"']) := rfl
  have hopen : quoteAfter none ['"'] = some '"' := rfl
  refine ⟨?_, ?_⟩
  · calc
      quoteAfter none (Grammar.quotedSegment name) =
          quoteAfter (quoteAfter (some '"') (Grammar.doubleQuotes name)) ['"'] := by
        rw [hcons, quoteAfter_append, quoteAfter_append, hopen]
      _ = quoteAfter (some '"') ['"'] := by rw [hquote]
      _ = none := rfl
  · rw [hcons, countPlaceholdersFrom_append, countPlaceholdersFrom_append,
      hopen, hcount, hquote]
    rfl

namespace Grammar

/-! ## Names are silent -/

/-- A character of a bare name lies above the digit zero, and both quotes and
the question mark are none of the letters, digits and underscores above it. -/
theorem isPlain_of_isPlainChar {c : Char} (h : isPlainChar c = true) :
    IsPlain c := by
  refine ⟨?_, ?_, ?_⟩ <;> rintro rfl <;> exact absurd h (by decide)

theorem isPlainChar_of_isPlainName {name : List Char}
    (h : isPlainName name = true) : ∀ c ∈ name, isPlainChar c = true := by
  cases name with
  | nil => simp
  | cons c name =>
    simp only [isPlainName, Bool.and_eq_true, List.all_eq_true] at h
    intro d hd
    rcases List.mem_cons.mp hd with rfl | hd
    · simp only [isPlainChar, Bool.or_eq_true] at h ⊢
      exact h.1.elim (fun hl => .inl (.inl hl)) .inr
    · exact h.2 d hd

theorem silent_segmentChars (g : Grammar) (name : List Char) :
    Silent (g.segmentChars name) := by
  unfold segmentChars
  cases g.dialect with
  | sql => exact silent_quotedSegment name
  | cql =>
    by_cases hplain : isPlainName name = true
    · simp only [hplain, if_true]
      exact silent_of_plain fun c hc =>
        isPlain_of_isPlainChar (isPlainChar_of_isPlainName hplain c hc)
    · simp only [hplain]
      exact silent_quotedSegment name

theorem silent_joinDots {texts : List (List Char)}
    (h : ∀ text ∈ texts, Silent text) : Silent (joinDots texts) := by
  induction texts with
  | nil => exact silent_nil
  | cons text texts ih =>
    have hrest := ih fun other hother => h other (List.mem_cons_of_mem text hother)
    have htext := h text List.mem_cons_self
    cases texts with
    | nil => exact htext
    | cons next texts => exact htext.append (.cons (by decide) hrest)

theorem silent_wrapTable (g : Grammar) (table : String) :
    Silent (g.wrapTable table).toList := by
  have hwrapped :
      Silent (joinDots ((segments table.toList).map g.segmentChars)) := by
    refine silent_joinDots fun text htext => ?_
    obtain ⟨segment, -, rfl⟩ := List.mem_map.mp htext
    exact g.silent_segmentChars segment
  unfold wrapTable
  cases g.qualifier with
  | none => simpa using hwrapped
  | some qualifier =>
    simp only
    split
    · simpa using hwrapped
    · simpa using (g.silent_segmentChars qualifier.toList).append
        (.cons (by decide) hwrapped)

/-- A path is quoted segment by segment unless it is a function call. -/
theorem silent_pathChars (g : Grammar) {path : List Char}
    (h : '(' ∈ path → ∀ c ∈ path, IsPlain c) : Silent (g.pathChars path) := by
  unfold pathChars
  by_cases hcall : '(' ∈ path
  · simp only [List.contains_iff_mem, hcall, if_true]
    exact silent_of_plain (h hcall)
  · simp only [List.contains_iff_mem, hcall, if_false]
    refine silent_joinDots fun text htext => ?_
    obtain ⟨segment, -, rfl⟩ := List.mem_map.mp htext
    by_cases hstar : segment = ['*']
    · simp only [hstar, if_true]
      exact silent_of_plain (by decide)
    · simp only [hstar, if_false]
      exact g.silent_segmentChars segment

theorem mem_of_mem_trimChars {c : Char} {text : List Char}
    (h : c ∈ Text.trimChars text) : c ∈ text := by
  unfold Text.trimChars at h
  have h := (List.dropWhile_sublist _).subset (List.mem_reverse.mp h)
  exact (List.dropWhile_sublist _).subset (List.mem_reverse.mp h)

/-- The part of a reference before the cut consists of characters of the
reference. -/
theorem mem_of_mem_splitLabel {column path label : List Char}
    (h : splitLabel? column = some (path, label)) {c : Char} (hc : c ∈ path) :
    c ∈ column := by
  induction column generalizing path label with
  | nil => simp [splitLabel?] at h
  | cons d rest ih =>
    have hnext
        (hsome : (splitLabel? rest).map (fun parts => (d :: parts.1, parts.2)) =
          some (path, label)) : c ∈ d :: rest := by
      obtain ⟨⟨path', label'⟩, hrest, heq⟩ := Option.map_eq_some_iff.mp hsome
      obtain ⟨rfl, rfl⟩ := Prod.mk.inj heq
      rcases List.mem_cons.mp hc with rfl | hc
      · exact List.mem_cons_self
      · exact List.mem_cons_of_mem d (ih hrest hc)
    rw [splitLabel?.eq_def] at h
    simp only at h
    split at h
    · split at h
      · obtain ⟨rfl, rfl⟩ := Prod.mk.inj (Option.some.inj h)
        simp at hc
      · exact hnext h
    · exact hnext h

theorem silent_wrapColumn (g : Grammar) {column : String}
    (h : '(' ∈ column.toList → Harmless column) :
    Silent (g.wrapColumn column).toList := by
  simp only [wrapColumn, columnChars, String.toList_ofList]
  cases hsplit : splitLabel? column.toList with
  | none => exact g.silent_pathChars h
  | some parts =>
    obtain ⟨path, label⟩ := parts
    have hsub {c : Char} (hc : c ∈ Text.trimChars path) : c ∈ column.toList :=
      mem_of_mem_splitLabel hsplit (mem_of_mem_trimChars hc)
    have hpath : Silent (g.pathChars (Text.trimChars path)) :=
      g.silent_pathChars fun hcall c hc => h (hsub hcall) c (hsub hc)
    exact (hpath.append (silent_of_plain (by decide))).append
      (g.silent_segmentChars _)

theorem silent_join {separator : String} {texts : List String}
    (hsep : Silent separator.toList) (h : ∀ text ∈ texts, Silent text.toList) :
    Silent (Text.join separator texts).toList := by
  induction texts with
  | nil => exact silent_nil
  | cons text texts ih =>
    have htext := h text List.mem_cons_self
    have hrest := ih fun other hother => h other (List.mem_cons_of_mem text hother)
    cases texts with
    | nil => exact htext
    | cons next texts => simpa [Text.join] using (htext.append hsep).append hrest

/-- A column reference that is written out as it is only if that does no harm. -/
def SafeColumn (column : String) : Prop := '(' ∈ column.toList → Harmless column

theorem silent_columnize (g : Grammar) {columns : List String}
    (h : ∀ column ∈ columns, SafeColumn column) :
    Silent (g.columnize columns).toList := by
  refine silent_join (silent_of_plain (by decide)) fun text htext => ?_
  obtain ⟨column, hcolumn, rfl⟩ := List.mem_map.mp htext
  exact g.silent_wrapColumn (h column hcolumn)

theorem silent_natText (n : Nat) : Silent (Decimal.natText n).toList := by
  refine silent_of_plain fun c hc => ?_
  simp only [Decimal.natText, String.toList_ofList] at hc
  have hdigit := Nat.isDigit_of_mem_toDigits (by decide) (by decide) hc
  refine ⟨?_, ?_, ?_⟩ <;> rintro rfl <;> exact absurd hdigit (by decide)

theorem silent_countClause (keyword : String) (hkeyword : Silent keyword.toList)
    (count : Option Nat) : Silent (countClause keyword count).toList := by
  cases count with
  | none => exact silent_nil
  | some n => simpa [countClause] using hkeyword.append (silent_natText n)

end Grammar

/-! ## Balanced fragments -/

/-- The scan of the text ends outside quotes and has counted the parameters. -/
def Fragment.Balanced (f : Fragment) : Prop :=
  quoteAfter none f.text.toList = none ∧
    countPlaceholdersFrom none f.text.toList = f.params.length

namespace Fragment

theorem balanced_lit {text : String} (h : Silent text.toList) :
    (lit text).Balanced := h

theorem balanced_empty : empty.Balanced := silent_nil

theorem balanced_bind (value : Value) : (bind value).Balanced := by
  refine ⟨?_, ?_⟩
  · simp [quoteAfter]
  · simp [countPlaceholdersFrom]

theorem Balanced.append {f h : Fragment} (hf : f.Balanced) (hh : h.Balanced) :
    (f ++ h).Balanced := by
  refine ⟨?_, ?_⟩
  · calc
      quoteAfter none (f ++ h).text.toList =
          quoteAfter (quoteAfter none f.text.toList) h.text.toList := by
        rw [text_append, String.toList_append, quoteAfter_append]
      _ = quoteAfter none h.text.toList := by rw [hf.1]
      _ = none := hh.1
  · calc
      countPlaceholdersFrom none (f ++ h).text.toList =
          countPlaceholdersFrom none f.text.toList + countPlaceholdersFrom
              (quoteAfter none f.text.toList) h.text.toList := by
        rw [text_append, String.toList_append, countPlaceholdersFrom_append]
      _ = f.params.length + h.params.length := by rw [hf.1, hf.2, hh.2]
      _ = (f ++ h).params.length := by rw [params_append, List.length_append]

theorem balanced_join {separator : String} {fragments : List Fragment}
    (hsep : Silent separator.toList) (h : ∀ f ∈ fragments, f.Balanced) :
    (join separator fragments).Balanced := by
  induction fragments with
  | nil => exact balanced_empty
  | cons f rest ih =>
    have hf := h f List.mem_cons_self
    have hrest := ih fun other hother => h other (List.mem_cons_of_mem f hother)
    cases rest with
    | nil => exact hf
    | cons next rest => exact (hf.append (balanced_lit hsep)).append hrest

/-- Leaving an empty text away loses no parameter, since it had no placeholder. -/
theorem Balanced.headed {f : Fragment} (hf : f.Balanced) (head : String)
    (hhead : Silent head.toList) : (f.headed head).Balanced := by
  unfold Fragment.headed
  split
  · next hempty =>
    have htext : f.text = "" := by simpa using hempty
    refine ⟨rfl, ?_⟩
    have hcount := hf.2
    rw [htext] at hcount
    exact hcount
  · exact (balanced_lit hhead).append hf

end Fragment

namespace Grammar

/-! ## Clauses -/

theorem balanced_parameterize (values : List Value) :
    (parameterize values).Balanced := by
  refine Fragment.balanced_join (silent_of_plain (by decide)) fun f hf => ?_
  obtain ⟨value, -, rfl⟩ := List.mem_map.mp hf
  exact Fragment.balanced_bind value

theorem harmless_operator (operator : Operator) : Harmless operator.text := by
  cases operator <;> decide

theorem balanced_condition (g : Grammar) {c : Condition}
    (hcolumns : ∀ column ∈ c.columns, SafeColumn column)
    (hraw : ∀ text ∈ c.rawText?, Harmless text) : (g.condition c).Balanced := by
  have hwrap (column : String) (hcolumn : column ∈ c.columns) :
      Silent (g.wrapColumn column).toList :=
    g.silent_wrapColumn (hcolumns column hcolumn)
  have hlit (text : String) (h : Harmless text) : Silent text.toList :=
    silent_text text h
  have hclose : (Fragment.lit ")").Balanced :=
    Fragment.balanced_lit (hlit _ (by decide))
  cases c with
  | basic column operator value =>
    have hcolumn := hwrap column List.mem_cons_self
    have hhead := ((hcolumn.append_text (hlit " " (by decide))).append_text
      (hlit _ (harmless_operator operator))).append_text (hlit " " (by decide))
    exact (Fragment.balanced_lit hhead).append (Fragment.balanced_bind value)
  | isIn column values =>
    have hcolumn := hwrap column List.mem_cons_self
    have hhead := hcolumn.append_text (hlit " IN (" (by decide))
    exact ((Fragment.balanced_lit hhead).append
        (balanced_parameterize values)).append hclose
  | notIn column values =>
    have hcolumn := hwrap column List.mem_cons_self
    have hhead := hcolumn.append_text (hlit " NOT IN (" (by decide))
    exact ((Fragment.balanced_lit hhead).append
        (balanced_parameterize values)).append hclose
  | between column low high =>
    have hcolumn := hwrap column List.mem_cons_self
    have hlow := hcolumn.append_text (hlit " >= " (by decide))
    have hhigh := ((hlit " AND " (by decide)).append_text hcolumn).append_text
      (hlit " <= " (by decide))
    exact (((Fragment.balanced_lit hlow).append (Fragment.balanced_bind low)).append
      (Fragment.balanced_lit hhigh)).append (Fragment.balanced_bind high)
  | isNull column =>
    have hcolumn := hwrap column List.mem_cons_self
    exact Fragment.balanced_lit (hcolumn.append_text (hlit " IS NULL" (by decide)))
  | notNull column =>
    have hcolumn := hwrap column List.mem_cons_self
    exact Fragment.balanced_lit
      (hcolumn.append_text (hlit " IS NOT NULL" (by decide)))
  | token columns operator values =>
    have hhead := ((((hlit "TOKEN(" (by decide)).append_text (g.silent_columnize
          hcolumns)).append_text (hlit ") " (by decide))).append_text
        (hlit _ (harmless_operator operator))).append_text
      (hlit " TOKEN(" (by decide))
    exact ((Fragment.balanced_lit hhead).append
        (balanced_parameterize values)).append hclose
  | raw text => exact Fragment.balanced_lit (silent_text text (hraw text rfl))

/-- The predicates name no column and hold no raw text that would do harm. -/
def SafePredicates (predicates : List Predicate) : Prop :=
  ∀ p ∈ predicates,
    (∀ column ∈ p.condition.columns, SafeColumn column) ∧
      ∀ text ∈ p.condition.rawText?, Harmless text

theorem harmless_connector (connector : Connector) :
    Harmless (" " ++ connector.keyword ++ " ") := by
  cases connector <;> decide

theorem balanced_moreWheres (g : Grammar) {predicates : List Predicate}
    (h : SafePredicates predicates) : (g.moreWheres predicates).Balanced := by
  induction predicates with
  | nil => exact Fragment.balanced_empty
  | cons p rest ih =>
    obtain ⟨hcolumns, hraw⟩ := h p List.mem_cons_self
    have hrest := ih fun other hother => h other (List.mem_cons_of_mem p hother)
    exact ((Fragment.balanced_lit
          (silent_text _ (harmless_connector p.connector))).append
        (g.balanced_condition hcolumns hraw)).append hrest

theorem balanced_wheres (g : Grammar) {predicates : List Predicate}
    (h : SafePredicates predicates) : (g.wheres predicates).Balanced := by
  cases predicates with
  | nil => exact Fragment.balanced_empty
  | cons p rest =>
    obtain ⟨hcolumns, hraw⟩ := h p List.mem_cons_self
    exact (g.balanced_condition hcolumns hraw).append (g.balanced_moreWheres
      fun other hother => h other (List.mem_cons_of_mem p hother))

theorem balanced_assignments (g : Grammar) {values : Pairs}
    (h : ∀ column ∈ values.map Prod.fst, SafeColumn column) :
    (g.assignments values).Balanced := by
  refine Fragment.balanced_join (silent_text _ (by decide)) fun f hf => ?_
  obtain ⟨⟨column, value⟩, hmem, rfl⟩ := List.mem_map.mp hf
  have hcolumn := g.silent_wrapColumn (h column (List.mem_map_of_mem hmem))
  exact (Fragment.balanced_lit (hcolumn.append_text
        (silent_text _ (by decide)))).append (Fragment.balanced_bind value)

theorem balanced_writeFilter (g : Grammar) {q : Intent}
    (hwheres : SafePredicates q.wheres)
    (hconditions : SafePredicates q.ifConditions) : (g.writeFilter q).Balanced := by
  have hfilter := g.balanced_wheres hwheres
  have hwrite := g.balanced_wheres hconditions
  unfold writeFilter
  cases g.dialect with
  | cql =>
    exact (hfilter.headed _ (silent_text _ (by decide))).append
      (hwrite.headed _ (silent_text _ (by decide)))
  | sql =>
    -- Where one side is left out, its empty text accounts for an empty
    -- parameter list.
    have hnone {f : Fragment} (hf : f.Balanced) (hempty : f.text.isEmpty = true) :
        (⟨"", f.params⟩ : Fragment).Balanced := by
      simpa [Fragment.headed, hempty] using hf.headed "" silent_nil
    have hlit (text : String) (h : Harmless text) : (Fragment.lit text).Balanced :=
      Fragment.balanced_lit (silent_text text h)
    simp only [foldedWhere]
    split
    · next hempty =>
      exact (hnone hfilter hempty).append
        (hwrite.headed _ (silent_text _ (by decide)))
    · split
      · next hempty =>
        exact (hfilter.headed _ (silent_text _ (by decide))).append
          (hnone hwrite hempty)
      · split
        · exact (((hlit " WHERE (" (by decide)).append hfilter).append
            (hlit ") AND " (by decide))).append hwrite
        · exact (((hlit " WHERE " (by decide)).append hfilter).append
            (hlit " AND " (by decide))).append hwrite

/-- A selection, orderings, groupings and joins write their references behind
fixed words. -/
theorem silent_selection (g : Grammar) {selection : Selection}
    (h : ∀ column ∈ selection.names, SafeColumn column) :
    Silent (g.selection selection).toList := by
  match selection, h with
  | .all, _ => exact silent_text "*" (by decide)
  | .columns [], _ => exact silent_text "*" (by decide)
  | .columns (name :: names), h => exact g.silent_columnize h

theorem silent_orderClause (g : Grammar) {orders : List Order}
    (h : ∀ column ∈ orders.map Order.column, SafeColumn column) :
    Silent (g.orderClause orders).toList := by
  unfold orderClause
  split
  · exact silent_nil
  · refine (silent_text _ (by decide)).append_text ?_
    refine silent_join (silent_text _ (by decide)) fun text htext => ?_
    obtain ⟨order, horder, rfl⟩ := List.mem_map.mp htext
    have hcolumn :=
      g.silent_wrapColumn (h order.column (List.mem_map_of_mem horder))
    have hdirection : Harmless order.direction.keyword := by
      cases order.direction <;> decide
    exact (hcolumn.append_text (silent_text _ (by decide))).append_text
      (silent_text _ hdirection)

theorem silent_groupClause (g : Grammar) {groups : List String}
    (h : ∀ column ∈ groups, SafeColumn column) :
    Silent (g.groupClause groups).toList := by
  unfold groupClause
  split
  · exact silent_nil
  · exact (silent_text _ (by decide)).append_text (g.silent_columnize h)

theorem silent_joinClause (g : Grammar) {join : Join}
    (hfirst : SafeColumn join.first) (hsecond : SafeColumn join.second) :
    Silent (g.joinClause join).toList := by
  have hspace : Silent " ".toList := silent_text _ (by decide)
  have hkind : Harmless join.kind.keyword := by cases join.kind <;> decide
  have hon := (((hspace.append_text (silent_text _ hkind)).append_text
        (silent_text " JOIN " (by decide))).append_text
      (g.silent_wrapTable join.table)).append_text (silent_text " ON " (by decide))
  have hleft := (hon.append_text (g.silent_wrapColumn hfirst)).append_text hspace
  exact ((hleft.append_text (silent_text _
        (harmless_operator join.operator))).append_text hspace).append_text
    (g.silent_wrapColumn hsecond)

theorem silent_concat {texts : List String}
    (h : ∀ text ∈ texts, Silent text.toList) :
    Silent (Text.concat texts).toList := by
  induction texts with
  | nil => exact silent_nil
  | cons text texts ih =>
    exact (h text List.mem_cons_self).append_text
      (ih fun other hother => h other (List.mem_cons_of_mem text hother))

end Grammar

/-! ## Commands -/

namespace Request

/-- The predicates that a request writes. -/
def predicates (q : Intent) : Request → List Predicate
  | .select => q.wheres ++ q.havings
  | .count => q.wheres ++ q.havings
  | .insert _ => []
  | .update _ => q.wheres ++ q.ifConditions
  | .delete => q.wheres ++ q.ifConditions

/-- The column references that a request writes outside its predicates. -/
def columns (q : Intent) : Request → List String
  | .select =>
    q.selection.names ++ q.joins.flatMap (fun join => [join.first, join.second]) ++
      q.groups ++ q.orders.map Order.column
  | .count => q.joins.flatMap (fun join => [join.first, join.second]) ++ q.groups
  | .insert values => values.map Prod.fst
  | .update values => values.map Prod.fst
  | .delete => q.selection.names

/-- The text that a request passes on as it is: references with an opening
bracket, and raw conditions. -/
def verbatim (q : Intent) (r : Request) : List String :=
  (r.columns q ++ (r.predicates q).flatMap fun p => p.condition.columns).filter
      (fun column => column.toList.contains '(') ++
    (r.predicates q).filterMap fun p => p.condition.rawText?

theorem safeColumn_of_verbatim {q : Intent} {r : Request}
    (h : ∀ text ∈ r.verbatim q, Harmless text) {column : String}
    (hcolumn : column ∈ r.columns q) : Grammar.SafeColumn column := by
  intro hcall
  refine h column (List.mem_append_left _ (List.mem_filter.mpr ⟨?_, ?_⟩))
  · exact List.mem_append_left _ hcolumn
  · simpa using hcall

theorem safePredicates_of_verbatim {q : Intent} {r : Request}
    (h : ∀ text ∈ r.verbatim q, Harmless text) :
    Grammar.SafePredicates (r.predicates q) := by
  intro p hp
  refine ⟨fun column hcolumn hcall => ?_, fun text htext => ?_⟩
  · refine h column (List.mem_append_left _ (List.mem_filter.mpr ⟨?_, ?_⟩))
    · exact List.mem_append_right _ (List.mem_flatMap.mpr ⟨p, hp, hcolumn⟩)
    · simpa using hcall
  · exact h text (List.mem_append_right _ (List.mem_filterMap.mpr ⟨p, hp, htext⟩))

end Request

namespace Grammar

theorem SafePredicates.left {first second : List Predicate}
    (h : SafePredicates (first ++ second)) : SafePredicates first :=
  fun p hp => h p (List.mem_append_left second hp)

theorem SafePredicates.right {first second : List Predicate}
    (h : SafePredicates (first ++ second)) : SafePredicates second :=
  fun p hp => h p (List.mem_append_right first hp)

theorem balanced_select {g : Grammar} {q : Intent} {c : Command}
    (hselection : ∀ column ∈ q.selection.names, SafeColumn column)
    (hjoins : ∀ join ∈ q.joins, SafeColumn join.first ∧ SafeColumn join.second)
    (hgroups : ∀ column ∈ q.groups, SafeColumn column)
    (horders : ∀ column ∈ q.orders.map Order.column, SafeColumn column)
    (hpredicates : SafePredicates (q.wheres ++ q.havings))
    (h : g.select q = .ok c) :
    ∃ f : Fragment, f.Balanced ∧ c = f.command ∧ f.params =
        Predicate.allBindings q.wheres ++ Predicate.allBindings q.havings := by
  have hhead : Silent (g.selectHead q).toList :=
    (((silent_text "SELECT " (by decide)).append_text
        (g.silent_selection hselection)).append_text
      (silent_text " FROM " (by decide))).append_text (g.silent_wrapTable q.table)
  have hfilter := (g.balanced_wheres hpredicates.left).headed " WHERE "
    (silent_text _ (by decide))
  have hgroup := g.silent_groupClause hgroups
  have horder := g.silent_orderClause horders
  have hlimit := silent_countClause " LIMIT " (silent_text _ (by decide))
    (q.limit.map UInt64.toNat)
  obtain ⟨-, -, hnone, -, rfl⟩ | ⟨-, rfl⟩ := select_eq_ok h
  · refine ⟨_, ?_, rfl, by simp [hnone, Predicate.allBindings]⟩
    have hfiltering :
        Silent (if q.allowFiltering then " ALLOW FILTERING" else "").toList := by
      split
      · exact silent_text _ (by decide)
      · exact silent_nil
    exact ((Fragment.balanced_lit hhead).append hfilter).append
      (Fragment.balanced_lit
        (((hgroup.append_text horder).append_text hlimit).append_text hfiltering))
  · refine ⟨_, ?_, rfl, by simp⟩
    have hjoined : Silent (Text.concat (q.joins.map g.joinClause)).toList := by
      refine silent_concat fun text htext => ?_
      obtain ⟨join, hjoin, rfl⟩ := List.mem_map.mp htext
      exact g.silent_joinClause (hjoins join hjoin).1 (hjoins join hjoin).2
    have hhaving :=
      (g.balanced_wheres hpredicates.right).headed " HAVING "
        (silent_text _ (by decide))
    have hoffset :=
      silent_countClause " OFFSET " (silent_text _ (by decide))
        (q.offset.map UInt64.toNat)
    exact ((((Fragment.balanced_lit (hhead.append_text hjoined)).append
          hfilter).append (Fragment.balanced_lit hgroup)).append hhaving).append
      (Fragment.balanced_lit ((horder.append_text hlimit).append_text hoffset))

theorem silent_ttlClause (q : Intent) : Silent (ttlClause q).toList :=
  silent_countClause " USING TTL " (silent_text _ (by decide)) _

theorem balanced_insert {g : Grammar} {q : Intent} {values : Pairs}
    {c : Command} (hcolumns : ∀ column ∈ values.map Prod.fst, SafeColumn column)
    (h : g.insert q values = .ok c) :
    ∃ f : Fragment, f.Balanced ∧ c = f.command ∧
      f.params = values.map Prod.snd := by
  have hbody : (g.insertBody q values).Balanced := by
    have hhead := ((((silent_text "INSERT INTO " (by decide)).append_text
          (g.silent_wrapTable q.table)).append_text (silent_text " (" (by
            decide))).append_text (g.silent_columnize hcolumns)).append_text
      (silent_text ") VALUES (" (by decide))
    exact ((Fragment.balanced_lit hhead).append (balanced_parameterize _)).append
      (Fragment.balanced_lit (silent_text ")" (by decide)))
  have hflag (text : String) (htext : Harmless text) :
      Silent (if q.ifNotExists then text else "").toList := by
    split
    · exact silent_text text htext
    · exact silent_nil
  obtain ⟨-, ⟨-, rfl⟩ | ⟨-, -, rfl⟩⟩ := insert_eq_ok h
  · refine ⟨_, hbody.append (Fragment.balanced_lit ?_), rfl, by simp [insertBody]⟩
    exact (hflag " IF NOT EXISTS" (by decide)).append_text (silent_ttlClause q)
  · refine ⟨_, hbody.append (Fragment.balanced_lit ?_), rfl, by simp [insertBody]⟩
    exact hflag " ON CONFLICT DO NOTHING" (by decide)

theorem balanced_update {g : Grammar} {q : Intent} {values : Pairs}
    {c : Command} (hcolumns : ∀ column ∈ values.map Prod.fst, SafeColumn column)
    (hpredicates : SafePredicates (q.wheres ++ q.ifConditions))
    (h : g.update q values = .ok c) :
    ∃ f : Fragment, f.Balanced ∧ c = f.command ∧
      f.params = values.map Prod.snd ++ Predicate.allBindings q.wheres ++
          Predicate.allBindings q.ifConditions := by
  obtain ⟨-, -, rfl⟩ := update_eq_ok h
  have hhead := (((silent_text "UPDATE " (by decide)).append_text
    (g.silent_wrapTable q.table)).append_text (silent_ttlClause q)).append_text
      (silent_text " SET " (by decide))
  refine ⟨_, ?_, rfl, by simp⟩
  exact ((Fragment.balanced_lit hhead).append
      (g.balanced_assignments hcolumns)).append
    (g.balanced_writeFilter hpredicates.left hpredicates.right)

theorem balanced_delete {g : Grammar} {q : Intent} {c : Command}
    (hcolumns : ∀ column ∈ q.selection.names, SafeColumn column)
    (hpredicates : SafePredicates (q.wheres ++ q.ifConditions))
    (h : g.delete q = .ok c) :
    ∃ f : Fragment, f.Balanced ∧ c = f.command ∧ f.params =
        Predicate.allBindings q.wheres ++ Predicate.allBindings q.ifConditions := by
  obtain ⟨-, rfl⟩ := delete_eq_ok h
  have hdeleted : Silent (g.deletedColumns q.selection).toList := by
    match hselection : q.selection, hcolumns with
    | .all, _ => exact silent_nil
    | .columns [], _ => exact silent_nil
    | .columns (name :: names), hcolumns =>
      exact (g.silent_columnize hcolumns).append_text (silent_text " " (by decide))
  have hhead :=
    (((silent_text "DELETE " (by decide)).append_text hdeleted).append_text
      (silent_text "FROM " (by decide))).append_text (g.silent_wrapTable q.table)
  refine ⟨_, ?_, rfl, by simp⟩
  exact (Fragment.balanced_lit hhead).append
    (g.balanced_writeFilter hpredicates.left hpredicates.right)

/-- **Placeholders and parameters agree.** Whatever is compiled, the scan finds
one placeholder for each parameter, and the parameters are the values of the
request in the order of its clauses. All that is asked for is that text which is
passed on as it is has no quotes and question marks. -/
theorem compile_countPlaceholders (g : Grammar) (q : Intent) (r : Request)
    (c : Command) (hverbatim : ∀ text ∈ r.verbatim q, Harmless text)
    (h : g.compile q r = .ok c) :
    countPlaceholders c.text = c.params.length ∧ c.params = r.bindings q := by
  have hcolumns {column : String} (hcolumn : column ∈ r.columns q) :
      SafeColumn column :=
    Request.safeColumn_of_verbatim hverbatim hcolumn
  have hpredicates := Request.safePredicates_of_verbatim hverbatim
  have hfragment : ∃ f : Fragment, f.Balanced ∧ c = f.command ∧
      f.params = r.bindings q := by
    cases r with
    | select =>
      simp only [Request.columns, List.mem_append] at hcolumns
      refine balanced_select
        (fun column hcolumn => hcolumns (.inl (.inl (.inl hcolumn)))) ?_
        (fun column hcolumn => hcolumns (.inl (.inr hcolumn)))
        (fun column hcolumn => hcolumns (.inr hcolumn)) hpredicates h
      intro join hjoin
      have hside {column : String} (hcolumn : column ∈ [join.first, join.second]) :=
        hcolumns (.inl (.inl (.inr (List.mem_flatMap.mpr ⟨join, hjoin, hcolumn⟩))))
      exact ⟨hside (by simp), hside (by simp)⟩
    | count =>
      simp only [Request.columns, List.mem_append] at hcolumns
      have hselection : ∀ column ∈ q.counting.selection.names,
          SafeColumn column := by
        intro column hcolumn hcall
        obtain rfl := List.mem_singleton.mp hcolumn
        decide
      refine balanced_select (q := q.counting) hselection ?_
        (fun column hcolumn => hcolumns (.inr hcolumn))
        (by simp [Intent.counting]) hpredicates h
      intro join hjoin
      have hside {column : String} (hcolumn : column ∈ [join.first, join.second]) :=
        hcolumns (.inl (List.mem_flatMap.mpr ⟨join, hjoin, hcolumn⟩))
      exact ⟨hside (by simp), hside (by simp)⟩
    | insert values => exact balanced_insert (fun column => hcolumns) h
    | update values => exact balanced_update (fun column => hcolumns) hpredicates h
    | delete => exact balanced_delete (fun column => hcolumns) hpredicates h
  obtain ⟨f, hbalanced, rfl, hparams⟩ := hfragment
  exact ⟨hbalanced.2, hparams⟩

/-- A write whose table, columns and values have quotes and question marks in
their names, next to a function call and a raw condition. -/
def oddWrite : Intent :=
  (((Intent.new "or?der's").whereEq "say \"?\"" (.int 1)).orWhereRaw
    "lower(a) = b").ifCondition "max(b)" .lt (.int 2)

theorem compile_countPlaceholders_oddWrite :
    (∀ text ∈ (Request.update [("it's", .int 3), ("b", .null)]).verbatim oddWrite,
      Harmless text) ∧ ∃ c, (⟨.sql, some "a\"?"⟩ : Grammar).compile oddWrite
          (.update [("it's", .int 3), ("b", .null)]) = .ok c ∧
        countPlaceholders c.text = c.params.length ∧
        c.params = [.int 3, .null, .int 1, .int 2] := by
  have hverbatim :
      ∀ text ∈ (Request.update [("it's", .int 3), ("b", .null)]).verbatim oddWrite,
        Harmless text := by decide
  exact ⟨hverbatim, _, rfl,
    compile_countPlaceholders ⟨.sql, some "a\"?"⟩ oddWrite _ _ hverbatim rfl⟩

end Grammar

end EntityMapper
