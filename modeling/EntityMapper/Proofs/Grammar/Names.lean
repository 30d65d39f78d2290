import EntityMapper.Proofs.Grammar.Tokens
import EntityMapper.Proofs.Statement.Acceptance
import EntityMapper.Proofs.Text.Lowercase

/-!
# Names that are read back

A segment is written as one token, but not every token stands for a name: the
partitioned dialect leaves a lower-case keyword bare, and only some keywords may
stand for names. A segment that does comes back as itself, so a path of such
segments is read as its last segment.
-/

namespace EntityMapper

/-- The last segment of a path. -/
def lastSegment (path : List Char) : String :=
  String.ofList ((Grammar.segments path).getLastD [])

namespace Grammar

/-- The segment is no keyword that the dialect would leave bare and that cannot
stand for a name. -/
def Word (g : Grammar) (segment : List Char) : Prop :=
  g.dialect = .cql → ∀ k : Keyword, k.text.toList = segment → k.isSoft = true

/-- A segment that every column reference can have: no star, no function call,
and no label. -/
structure Readable (g : Grammar) (segment : List Char) : Prop where
  star : segment ≠ ['*']
  bracket : '(' ∉ segment
  label : ¬ [' ', 'a', 's', ' '] <:+: segment.map Text.asciiLower
  word : g.Word segment

theorem mem_all_keywords (k : Keyword) : k ∈ Keyword.all := by cases k <;> decide

instance (g : Grammar) (segment : List Char) : Decidable (g.Word segment) :=
  decidable_of_iff (g.dialect = .cql →
      ∀ k ∈ Keyword.all, k.text.toList = segment → k.isSoft = true)
    ⟨fun h hdialect k => h hdialect k (mem_all_keywords k),
      fun h hdialect k _ => h hdialect k⟩

/-- A column whose segments are readable. -/
def ReadablePath (g : Grammar) (column : String) : Prop :=
  ∀ segment ∈ segments column.toList, g.Readable segment

/-! ## Segments of a path -/

theorem segments_ne_nil (path : List Char) : segments path ≠ [] := by
  cases path with
  | nil => simp [segments]
  | cons c rest =>
    rw [segments]
    split
    · simp
    · split <;> simp

theorem segments_cons {c : Char} (hc : c ≠ '.') (rest : List Char) :
    ∃ segment more, segments rest = segment :: more ∧
      segments (c :: rest) = (c :: segment) :: more := by
  obtain ⟨segment, more, hrest⟩ := List.exists_cons_of_ne_nil (segments_ne_nil rest)
  exact ⟨segment, more, hrest, by rw [segments, if_neg hc, hrest]⟩

theorem mem_segments_of_mem {c : Char} {path : List Char} (h : c ∈ path)
    (hc : c ≠ '.') : ∃ segment ∈ segments path, c ∈ segment := by
  induction path with
  | nil => simp at h
  | cons d rest ih =>
    by_cases hd : d = '.'
    · subst hd
      rcases List.mem_cons.mp h with rfl | h
      · exact absurd rfl hc
      · obtain ⟨segment, hsegment, hmem⟩ := ih h
        exact ⟨segment, by simp [segments, hsegment], hmem⟩
    · obtain ⟨first, more, hrest, hcons⟩ := segments_cons hd rest
      rw [hcons]
      rcases List.mem_cons.mp h with rfl | h
      · exact ⟨c :: first, by simp, by simp⟩
      · obtain ⟨segment, hsegment, hmem⟩ := ih h
        rw [hrest] at hsegment
        rcases List.mem_cons.mp hsegment with rfl | hsegment
        · exact ⟨d :: segment, by simp, by simp [hmem]⟩
        · exact ⟨segment, by simp [hsegment], hmem⟩

/-! ## Labels -/

/-- The mark that cuts a column from its label, at the front of a text. -/
def LabelAhead (text : List Char) : Prop :=
  ∃ a s label, text = ' ' :: a :: s :: ' ' :: label ∧ Text.asciiLower a = 'a' ∧
    Text.asciiLower s = 's'

theorem splitLabel_cons {c : Char} {rest : List Char}
    (h : ¬ LabelAhead (c :: rest)) :
    splitLabel? (c :: rest) =
      (splitLabel? rest).map fun (path, label) => (c :: path, label) := by
  rw [splitLabel?]
  split
  · next _ a s label htext =>
    rw [if_neg]
    exact fun hcase => h ⟨a, s, label, htext, hcase⟩
  · rfl

theorem splitLabel_of_labelAhead {text : List Char} (h : LabelAhead text) :
    splitLabel? text ≠ none := by
  obtain ⟨a, s, label, rfl, hcase⟩ := h
  rw [splitLabel?]
  split
  · next htext =>
    simp only [List.cons.injEq, true_and] at htext
    obtain ⟨rfl, rfl, rfl⟩ := htext
    rw [if_pos hcase]
    simp
  · next hother => exact absurd rfl (hother _ _ _)

theorem splitLabel_eq_none_cons {c : Char} {rest : List Char} :
    splitLabel? (c :: rest) = none ↔
      ¬ LabelAhead (c :: rest) ∧ splitLabel? rest = none := by
  by_cases hahead : LabelAhead (c :: rest)
  · constructor
    · intro hnone
      exact absurd hnone (splitLabel_of_labelAhead hahead)
    · exact fun h => absurd hahead h.1
  · rw [splitLabel_cons hahead, Option.map_eq_none_iff]
    exact ⟨fun h => ⟨hahead, h⟩, fun h => h.2⟩

theorem eq_blank_of_asciiLower {c : Char} (h : Text.asciiLower c = ' ') :
    c = ' ' := by
  cases hupper : Text.isUpper c with
  | false => exact Text.asciiLower_eq_self h hupper
  | true =>
    have hnat := Text.toNat_asciiLower c hupper
    rw [h] at hnat
    obtain ⟨hlow, -⟩ := Text.isUpper_iff.mp hupper
    have hblank : (' ' : Char).toNat = 32 := rfl
    omega

theorem labelAhead_iff_isPrefix {text : List Char} :
    LabelAhead text ↔ [' ', 'a', 's', ' '] <+: text.map Text.asciiLower := by
  constructor
  · rintro ⟨a, s, label, rfl, ha, hs⟩
    refine ⟨label.map Text.asciiLower, ?_⟩
    simp only [List.map_cons, ha, hs]
    rfl
  · rintro ⟨more, hmore⟩
    rcases text with _ | ⟨c, _ | ⟨a, _ | ⟨s, _ | ⟨d, label⟩⟩⟩⟩
    all_goals simp only [List.map_cons, List.map_nil, List.cons_append,
      List.nil_append, List.cons.injEq, reduceCtorEq, and_false] at hmore
    obtain ⟨hc, ha, hs, hd, -⟩ := hmore
    rw [eq_blank_of_asciiLower hc.symm, eq_blank_of_asciiLower hd.symm]
    exact ⟨a, s, label, rfl, ha.symm, hs.symm⟩

/-- A text is not cut if it has no ` as ` in any letter case. -/
theorem splitLabel_eq_none_iff {text : List Char} :
    splitLabel? text = none ↔
      ¬ [' ', 'a', 's', ' '] <:+: text.map Text.asciiLower := by
  induction text with
  | nil => simp [splitLabel?]
  | cons c rest ih =>
    calc
      splitLabel? (c :: rest) = none ↔
          ¬ LabelAhead (c :: rest) ∧ splitLabel? rest = none :=
        splitLabel_eq_none_cons
      _ ↔ ¬ [' ', 'a', 's', ' '] <+: (c :: rest).map Text.asciiLower ∧
          ¬ [' ', 'a', 's', ' '] <:+: rest.map Text.asciiLower := by
        rw [labelAhead_iff_isPrefix, ih]
      _ ↔ ¬ [' ', 'a', 's', ' '] <:+: (c :: rest).map Text.asciiLower := by
        rw [List.map_cons, List.infix_cons_iff, not_or]

instance (g : Grammar) (segment : List Char) : Decidable (g.Readable segment) :=
  decidable_of_iff (segment ≠ ['*'] ∧ '(' ∉ segment ∧ splitLabel? segment = none ∧
        g.Word segment) ⟨fun ⟨hstar, hbracket, hlabel, hword⟩ =>
        ⟨hstar, hbracket, splitLabel_eq_none_iff.mp hlabel, hword⟩,
      fun h => ⟨h.star, h.bracket, splitLabel_eq_none_iff.mpr h.label, h.word⟩⟩

instance (g : Grammar) (column : String) : Decidable (g.ReadablePath column) :=
  inferInstanceAs
    (Decidable (∀ segment ∈ segments column.toList, g.Readable segment))

/-- A label is marked within one segment, so a path without a mark in its
segments has none. -/
theorem splitLabel_of_segments {path : List Char}
    (h : ∀ segment ∈ segments path, splitLabel? segment = none) :
    splitLabel? path = none := by
  induction path with
  | nil => rfl
  | cons c rest ih =>
    by_cases hc : c = '.'
    · subst hc
      rw [splitLabel_eq_none_cons]
      refine ⟨?_,
        ih fun segment hsegment => h segment (by simp [segments, hsegment])⟩
      rintro ⟨a, s, label, hcons, -⟩
      simp at hcons
    · obtain ⟨first, more, hrest, hcons⟩ := segments_cons hc rest
      rw [hcons] at h
      obtain ⟨hahead, hfirst⟩ :=
        splitLabel_eq_none_cons.mp (h (c :: first) (by simp))
      rw [splitLabel_eq_none_cons]
      refine ⟨?_, ih ?_⟩
      · -- The four characters of the mark are no dots, so they stand in one
        -- segment.
        rintro ⟨a, s, label, htext, ha, hs⟩
        obtain ⟨rfl, rfl⟩ := List.cons.inj htext
        have hadot : a ≠ '.' := by rintro rfl; exact absurd ha (by decide)
        have hsdot : s ≠ '.' := by rintro rfl; exact absurd hs (by decide)
        obtain ⟨third, _, hlabel, hblank⟩ :=
          segments_cons (by decide : ' ' ≠ '.') label
        obtain ⟨second, _, hsecond, hsmark⟩ := segments_cons hsdot (' ' :: label)
        obtain ⟨_, _, hthird, hamark⟩ := segments_cons hadot (s :: ' ' :: label)
        rw [hblank] at hsecond
        obtain ⟨rfl, rfl⟩ := List.cons.inj hsecond
        rw [hsmark] at hthird
        obtain ⟨rfl, rfl⟩ := List.cons.inj hthird
        rw [hamark] at hrest
        obtain ⟨rfl, rfl⟩ := List.cons.inj hrest
        exact hahead ⟨a, s, third, rfl, ha, hs⟩
      · rw [hrest]
        intro segment hsegment
        rcases List.mem_cons.mp hsegment with rfl | hsegment
        · exact hfirst
        · exact h segment (List.mem_cons_of_mem _ hsegment)

variable {g : Grammar}

theorem ReadablePath.splitLabel {column : String} (h : g.ReadablePath column) :
    splitLabel? column.toList = none :=
  splitLabel_of_segments fun segment hsegment =>
    splitLabel_eq_none_iff.mpr (h segment hsegment).label

theorem nameable_of_readable {path : List Char}
    (h : ∀ segment ∈ segments path, g.Readable segment) : Nameable path := by
  refine ⟨?_, fun segment hsegment => (h segment hsegment).star⟩
  intro hbracket
  obtain ⟨segment, hsegment, hmem⟩ := mem_segments_of_mem hbracket (by decide)
  exact (h segment hsegment).bracket hmem

theorem ReadablePath.nameable {column : String} (h : g.ReadablePath column) :
    Nameable (pathOf column) := by
  rw [pathOf, h.splitLabel]
  exact nameable_of_readable h

theorem ReadablePath.lexed {column : String} (h : g.ReadablePath column) :
    g.Lexed column :=
  h.nameable.lexed g

/-! ## Tokens that stand for names -/

theorem asciiLower_of_isPlainChar {c : Char} (h : isPlainChar c = true) :
    Text.asciiLower c = c := by
  cases hupper : Text.isUpper c with
  | false => exact (Text.asciiLower_eq_self rfl hupper).symm
  | true =>
    simp only [Text.isUpper, isPlainChar, Text.isLower, Text.isDigit,
      Bool.or_eq_true, Bool.and_eq_true, decide_eq_true_eq, Char.le_def,
      beq_iff_eq] at hupper h
    have hlow : 65 ≤ c.toNat := hupper.1
    have hhigh : c.toNat ≤ 90 := hupper.2
    rcases h with (h | h) | rfl
    · have hlower : 97 ≤ c.toNat := h.1
      omega
    · have hdigit : c.toNat ≤ 57 := h.2
      omega
    · exact absurd hhigh (by decide)

theorem map_asciiLower_of_isPlainName {name : List Char}
    (h : isPlainName name = true) : name.map Text.asciiLower = name := by
  cases name with
  | nil => rfl
  | cons c rest =>
    simp only [isPlainName, Bool.and_eq_true, List.all_eq_true] at h
    have hc : isPlainChar c = true := by
      have hfirst := h.1
      simp only [isPlainChar, Bool.or_eq_true] at hfirst ⊢
      exact hfirst.elim (fun hlower => .inl (.inl hlower)) .inr
    rw [List.map_cons, asciiLower_of_isPlainChar hc]
    have hrest : rest.map Text.asciiLower = rest.map id :=
      List.map_congr_left fun d hd => asciiLower_of_isPlainChar (h.2 d hd)
    rw [hrest, List.map_id]

/-- A bare name is read in small letters. -/
theorem nameOf_name {text lowered : String}
    (h : text.toList.map Text.asciiLower = lowered.toList) :
    Parser.nameOf? (.name text) = some lowered := by
  refine congrArg some (String.toList_injective ?_)
  rw [Text.toAsciiLower, String.toList_map, h]

/-- The token of a segment stands for the segment. -/
theorem nameOf_segmentToken {segment : List Char} (h : g.Word segment) :
    Parser.nameOf? (g.segmentToken segment) = some (String.ofList segment) := by
  unfold segmentToken
  cases hdialect : g.dialect with
  | sql => rfl
  | cql =>
    dsimp only
    split
    · next hplain =>
      have hlower := map_asciiLower_of_isPlainName hplain
      rw [Token.ofWord, hlower]
      cases hkeyword : Keyword.ofText? (String.ofList segment) with
      | none =>
        exact nameOf_name (by rw [String.toList_ofList, hlower])
      | some k =>
        have hk : k.text = String.ofList segment := by
          simpa using List.find?_some hkeyword
        have hsoft := h hdialect k (by rw [hk, String.toList_ofList])
        simp [Parser.nameOf?, hsoft, hk]
    · rfl

theorem path_intersperse {names : List (List Char)} (hsome : names ≠ [])
    (h : ∀ name ∈ names, g.Word name) :
    Parser.Path ((names.map g.segmentToken).intersperse (.symbol .dot))
      (String.ofList (names.getLastD [])) := by
  induction names with
  | nil => exact absurd rfl hsome
  | cons name names ih =>
    have hname := nameOf_segmentToken (h name (List.mem_cons_self ..))
    cases names with
    | nil => exact .last hname
    | cons next names =>
      exact .qualified hname (ih (by simp) fun other hother =>
        h other (List.mem_cons_of_mem name hother))

theorem path_pathTokens {path : List Char}
    (h : ∀ segment ∈ segments path, g.Word segment) :
    Parser.Path (g.pathTokens path) (lastSegment path) :=
  path_intersperse (segments_ne_nil path) h

theorem ReadablePath.path {column : String} (h : g.ReadablePath column) :
    Parser.Path (g.columnTokens column) (lastSegment column.toList) := by
  rw [columnTokens_eq g h.nameable, referenceTokens, h.splitLabel]
  exact path_pathTokens fun segment hsegment => (h segment hsegment).word

/-- The segments of a table name, and of the qualifier it may get. -/
def ReadableTable (g : Grammar) (table : String) : Prop :=
  (∀ segment ∈ segments table.toList, g.Word segment) ∧
    ∀ qualifier ∈ g.qualifier, g.Word qualifier.toList

instance (g : Grammar) (table : String) : Decidable (g.ReadableTable table) :=
  inferInstanceAs (Decidable (_ ∧ _))

theorem ReadableTable.path {table : String} (h : g.ReadableTable table) :
    Parser.Path (g.tableTokens table) (lastSegment table.toList) := by
  have hpath := path_pathTokens h.1
  unfold tableTokens
  cases hqualifier : g.qualifier with
  | none => exact hpath
  | some qualifier =>
    dsimp only
    split
    · exact hpath
    · exact .qualified (nameOf_segmentToken (h.2 qualifier hqualifier)) hpath

/-! ## Reading back -/

/-- The text of a column is read as the last segment of the column, to its end.
Readable paths are read back, and so is a star. -/
def ReadsBack (g : Grammar) (column : String) : Prop :=
  Parser.whole? Parser.columnName (g.wrapColumn column) =
    some (lastSegment column.toList)

/-- The text of a table name is read as the last segment of the name, to its end. -/
def ReadsBackTable (g : Grammar) (table : String) : Prop :=
  Parser.whole? Parser.tableName (g.wrapTable table) =
    some (lastSegment table.toList)

theorem ReadsBack.exists_path {column : String} (h : g.ReadsBack column) :
    g.Lexed column ∧
      Parser.ColumnPath (g.columnTokens column) (lastSegment column.toList) := by
  obtain ⟨tokens, hlexes, hpath⟩ :=
    Parser.exists_tokens_of_whole Parser.inverts_columnName h
  have htokens : g.columnTokens column = tokens := Token.cut_of_lexes hlexes
  rw [Lexed, htokens]
  exact ⟨hlexes, hpath⟩

theorem ReadsBack.lexed {column : String} (h : g.ReadsBack column) :
    g.Lexed column :=
  h.exists_path.1

theorem ReadsBack.path {column : String} (h : g.ReadsBack column) :
    Parser.ColumnPath (g.columnTokens column) (lastSegment column.toList) :=
  h.exists_path.2

theorem readsBack_of_path {column : String} (hlexed : g.Lexed column)
    (hpath : Parser.ColumnPath (g.columnTokens column)
      (lastSegment column.toList)) : g.ReadsBack column := by
  have hreads := Parser.reads_columnName hpath 0 [] (by simp)
  rw [List.append_nil] at hreads
  exact Parser.whole_of_takes hlexed hreads

theorem ReadablePath.readsBack {column : String} (h : g.ReadablePath column) :
    g.ReadsBack column := readsBack_of_path h.lexed h.path.column

theorem ReadsBackTable.path {table : String} (h : g.ReadsBackTable table) :
    Parser.Path (g.tableTokens table) (lastSegment table.toList) := by
  obtain ⟨tokens, hlexes, hpath⟩ :=
    Parser.exists_tokens_of_whole Parser.inverts_tableName h
  have hcut := Token.cut_of_lexes (lexes_wrapTable g table)
  rw [Token.cut_of_lexes hlexes] at hcut
  rwa [hcut] at hpath

theorem readsBackTable_of_path {table : String}
    (hpath : Parser.Path (g.tableTokens table) (lastSegment table.toList)) :
    g.ReadsBackTable table := by
  have hreads := Parser.reads_tableName hpath 0 [] (by simp)
  rw [List.append_nil] at hreads
  exact Parser.whole_of_takes (lexes_wrapTable g table) hreads

theorem ReadableTable.readsBack {table : String} (h : g.ReadableTable table) :
    g.ReadsBackTable table := readsBackTable_of_path h.path

end Grammar

end EntityMapper
