import EntityMapper.Proofs.Grammar.Names
import EntityMapper.Query.Intent
import EntityMapper.Store.Evaluation

/-!
# What a query with a join says

The store in memory has no joins. This module gives a query with one join its
meaning, as a backend that has joins is to answer it: for each row of the
queried table, in their order, and each row of the joined one, a row if the two
satisfy the comparison of the join and the predicates of the query. Comparisons
are those of the store.

Columns are referred to by paths, in which the table stands before the last dot.
The two tables can be one and the same; then the first column of the join and
the columns of the predicates are those of the joined rows, and the second
column of the join is that of the queried ones.
-/

namespace EntityMapper

/-! ## References -/

/-- An item of a select list: a column of a table, under a label or its own
name, or every column of a table. -/
inductive SelectedItem
  | column (table column label : String)
  | all (table : String)
deriving DecidableEq

namespace SelectedItem

/-- What a path stands for. -/
def ofPath (path : List Char) (label : Option (List Char)) : SelectedItem :=
  let table := String.ofList (Grammar.joinDots (Grammar.segments path).dropLast)
  let column := lastSegment path
  match label with
  | some label => .column table column (String.ofList label)
  | none => if column = "*" then .all table else .column table column column

/-- What a text stands for, its label being cut off as the grammars do. -/
def ofText (text : String) : SelectedItem :=
  match Grammar.splitLabel? text.toList with
  | some (path, label) => ofPath (Text.trimChars path) (some (Text.trimChars label))
  | none => ofPath text.toList none

end SelectedItem

/-! ## Names without blanks -/

/-- A text without blanks. -/
def Unbroken (text : List Char) : Prop := ∀ c ∈ text, Text.isBlank c = false

/-- A name of one segment, without blanks, that is no star. -/
structure SimpleName (name : String) : Prop where
  unbroken : Unbroken name.toList
  single : '.' ∉ name.toList
  star : name ≠ "*"

instance (text : List Char) : Decidable (Unbroken text) :=
  decidable_of_iff (text.all fun c => !Text.isBlank c) (by simp [Unbroken])

instance (name : String) : Decidable (SimpleName name) :=
  decidable_of_iff (Unbroken name.toList ∧ '.' ∉ name.toList ∧ name ≠ "*")
    ⟨fun ⟨hunbroken, hsingle, hstar⟩ => ⟨hunbroken, hsingle, hstar⟩,
      fun h => ⟨h.unbroken, h.single, h.star⟩⟩

variable {text path : List Char} {table column label : String}

theorem Unbroken.append (h : Unbroken text) (hpath : Unbroken path) :
    Unbroken (text ++ path) :=
  List.forall_mem_append.mpr ⟨h, hpath⟩

theorem Unbroken.ne_blank (h : Unbroken text) {c : Char} (hc : c ∈ text) :
    c ≠ ' ' := by
  rintro rfl
  exact Bool.false_ne_true ((h ' ' hc).symm.trans (by decide))

theorem Unbroken.trimChars (h : Unbroken text) : Text.trimChars text = text := by
  have hkept {chars : List Char} (hchars : Unbroken chars) :
      chars.dropWhile Text.isBlank = chars := by
    cases chars with
    | nil => rfl
    | cons c rest =>
      rw [List.dropWhile_cons_of_neg (by simp [hchars c (List.mem_cons_self ..)])]
  have hreverse : Unbroken text.reverse := fun c hc => h c (List.mem_reverse.mp hc)
  calc
    Text.trimChars text = (text.reverse.dropWhile Text.isBlank).reverse := by
      rw [Text.trimChars, hkept h]
    _ = text.reverse.reverse := by rw [hkept hreverse]
    _ = text := List.reverse_reverse text

theorem Unbroken.splitLabel (h : Unbroken text) :
    Grammar.splitLabel? text = none := by
  rw [Grammar.splitLabel_eq_none_iff]
  intro hmark
  obtain ⟨c, hc, hlower⟩ := List.mem_map.mp (hmark.subset (List.mem_cons_self ..))
  exact h.ne_blank hc (Grammar.eq_blank_of_asciiLower hlower)

/-- A text without blanks is cut from its label. -/
theorem Unbroken.splitLabel_append (h : Unbroken path) (label : List Char) :
    Grammar.splitLabel? (path ++ ' ' :: 'a' :: 's' :: ' ' :: label) =
      some (path, label) := by
  induction path with
  | nil =>
    rw [List.nil_append, Grammar.splitLabel?]
    exact if_pos (by decide)
  | cons c rest ih =>
    have hahead : ¬ Grammar.LabelAhead
        (c :: (rest ++ ' ' :: 'a' :: 's' :: ' ' :: label)) := by
      rintro ⟨a, s, label, htext, -⟩
      exact h.ne_blank (List.mem_cons_self ..) (List.cons.inj htext).1
    rw [List.cons_append, Grammar.splitLabel_cons hahead,
      ih fun d hd => h d (List.mem_cons_of_mem c hd)]
    rfl

namespace Grammar

theorem segments_append_dot (first : List Char) {last : List Char}
    (h : '.' ∉ last) :
    segments (first ++ '.' :: last) = segments first ++ [last] := by
  have hlast : segments last = [last] := by
    induction last with
    | nil => rfl
    | cons c rest ih =>
      rw [List.mem_cons, not_or] at h
      rw [segments, if_neg (Ne.symm h.1), ih h.2]
  induction first with
  | nil =>
    change [] :: segments last = [[], last]
    rw [hlast]
  | cons c rest ih =>
    by_cases hc : c = '.'
    · calc
        segments (c :: (rest ++ '.' :: last)) =
            [] :: segments (rest ++ '.' :: last) := by
          rw [segments, if_pos hc]
        _ = [] :: (segments rest ++ [last]) := by rw [ih]
        _ = segments (c :: rest) ++ [last] := by
          rw [segments, if_pos hc, List.cons_append]
    · obtain ⟨segment, more, hrest, hcons⟩ := segments_cons hc rest
      calc
        segments (c :: (rest ++ '.' :: last)) =
            (c :: segment) :: (more ++ [last]) := by
          rw [segments, if_neg hc, ih, hrest]
          rfl
        _ = segments (c :: rest) ++ [last] := by rw [hcons]; rfl

theorem joinDots_segments (path : List Char) : joinDots (segments path) = path := by
  induction path with
  | nil => rfl
  | cons c rest ih =>
    by_cases hc : c = '.'
    · obtain ⟨segment, more, hrest⟩ :=
        List.exists_cons_of_ne_nil (segments_ne_nil rest)
      calc
        joinDots (segments (c :: rest)) = joinDots ([] :: segment :: more) := by
          rw [segments, if_pos hc, hrest]
        _ = '.' :: joinDots (segments rest) := by
          rw [hrest]
          rfl
        _ = c :: rest := by rw [ih, hc]
    · obtain ⟨segment, more, hrest, hcons⟩ := segments_cons hc rest
      rw [hrest] at ih
      rw [hcons]
      cases more with
      | nil => exact congrArg (c :: ·) ih
      | cons next more => exact congrArg (c :: ·) ih

end Grammar

namespace SelectedItem

/-- A path of a table and a last segment stands for that segment of the table. -/
theorem ofPath_append_dot (hsingle : '.' ∉ column.toList)
    (label : Option (List Char)) :
    ofPath (table.toList ++ '.' :: column.toList) label = match label with
      | some label => .column table column (String.ofList label)
      | none =>
          if column = "*" then .all table else .column table column column := by
  have hlast : lastSegment (table.toList ++ '.' :: column.toList) = column := by
    rw [lastSegment, Grammar.segments_append_dot _ hsingle, List.getLastD_concat,
      String.ofList_toList]
  unfold ofPath
  rw [hlast, Grammar.segments_append_dot _ hsingle, List.dropLast_concat,
    Grammar.joinDots_segments, String.ofList_toList]

theorem ofText_path (htable : Unbroken table.toList) (hcolumn : SimpleName column) :
    ofText (table ++ "." ++ column) = .column table column column := by
  have htext : (table ++ "." ++ column).toList =
      table.toList ++ '.' :: column.toList := by
    simp
  have hunbroken : Unbroken (table.toList ++ '.' :: column.toList) :=
    htable.append (List.forall_mem_cons.mpr ⟨by decide, hcolumn.unbroken⟩)
  rw [ofText, htext, hunbroken.splitLabel]
  calc
    ofPath (table.toList ++ '.' :: column.toList) none =
        if column = "*" then .all table else .column table column column :=
      ofPath_append_dot hcolumn.single none
    _ = .column table column column := if_neg hcolumn.star

theorem ofText_all (htable : Unbroken table.toList) :
    ofText (table ++ ".*") = .all table := by
  have htext : (table ++ ".*").toList = table.toList ++ '.' :: "*".toList := by simp
  have hunbroken : Unbroken (table.toList ++ '.' :: "*".toList) :=
    htable.append (by decide)
  rw [ofText, htext, hunbroken.splitLabel]
  calc
    ofPath (table.toList ++ '.' :: "*".toList) none =
        if "*" = "*" then .all table else .column table "*" "*" :=
      ofPath_append_dot (by decide) none
    _ = .all table := if_pos rfl

theorem ofText_labelled (htable : Unbroken table.toList)
    (hcolumn : SimpleName column) (hlabel : Unbroken label.toList) :
    ofText (table ++ "." ++ column ++ " as " ++ label) =
      .column table column label := by
  have htext : (table ++ "." ++ column ++ " as " ++ label).toList =
      (table.toList ++ '.' :: column.toList) ++ ' ' :: 'a' :: 's' :: ' ' ::
        label.toList := by
    simp
  have hunbroken : Unbroken (table.toList ++ '.' :: column.toList) :=
    htable.append (List.forall_mem_cons.mpr ⟨by decide, hcolumn.unbroken⟩)
  rw [ofText, htext, hunbroken.splitLabel_append]
  dsimp only
  rw [hunbroken.trimChars, hlabel.trimChars, ofPath_append_dot hcolumn.single]
  dsimp only
  rw [String.ofList_toList]

end SelectedItem

/-- Rows by the names of their tables. Of two rows under one name the first is
meant. -/
abbrev NamedRows := List (String × Row)

namespace NamedRows

def row (rows : NamedRows) (table : String) : Row :=
  (NameMap.lookup table rows).getD ∅

/-- The value of a column that is referred to by a path. -/
def cell (rows : NamedRows) (path : String) : Value :=
  match SelectedItem.ofText path with
  | .column table column _ => Store.cell (rows.row table) column
  | .all _ => .null

end NamedRows

/-! ## Answers -/

namespace Join

/-- A row of the queried table and a row of the joined one, the joined one first. -/
def joinedFirst (join : Join) (table : String) (base joined : Row) : NamedRows :=
  [(join.table, joined), (table, base)]

/-- A row of the queried table and a row of the joined one, the queried one
first. -/
def baseFirst (join : Join) (table : String) (base joined : Row) : NamedRows :=
  [(table, base), (join.table, joined)]

/-- Whether two rows satisfy the comparison of a join. -/
def links (join : Join) (table : String) (base joined : Row) : Bool :=
  Store.holds join.operator ((join.joinedFirst table base joined).cell join.first)
    ((join.baseFirst table base joined).cell join.second)

end Join

/-- Whether rows of several tables satisfy a comparison. Other conditions are
not asked of them. -/
def Condition.holdsAmong (rows : NamedRows) : Condition → Bool
  | .basic path operator value => Store.holds operator (rows.cell path) value
  | _ => false

namespace Intent

/-- Whether the query has a row for two rows. Its predicates are comparisons,
all of them required. -/
def pairs (q : Intent) (join : Join) (base joined : Row) : Bool :=
  join.links q.table base joined && q.wheres.all
      fun w => w.condition.holdsAmong (join.joinedFirst q.table base joined)

/-- Put an item of a select list into a row. -/
def addItem (join : Join) (table : String) (base joined row : Row)
    (name : String) : Row :=
  match SelectedItem.ofText name with
  | .all every => row.extend ((join.baseFirst table base joined).row every)
  | .column source column label =>
    row.insert label
      (Store.cell ((join.joinedFirst table base joined).row source) column)

/-- The row that the query has for two rows, item by item. -/
def pairRow (q : Intent) (join : Join) (base joined : Row) : Row :=
  q.selection.names.foldl (addItem join q.table base joined) ∅

/-- The answer to a query with one inner join and without groups, an order and
limits, of the rows of the queried and the joined table. -/
def joinRows (q : Intent) (base joined : List Row) : List Row :=
  match q.joins, q.groups, q.havings, q.orders, q.limit, q.offset with
  | [join], [], [], [], none, none =>
    if join.kind = .inner then
      base.flatMap
        fun row => (joined.filter (q.pairs join row)).map (q.pairRow join row)
    else []
  | _, _, _, _, _, _ => []

end Intent

end EntityMapper
