import EntityMapper.Proofs.Grammar.Compilation
import EntityMapper.Proofs.Statement.Lexing
import EntityMapper.Proofs.Statement.Reading

/-!
# The tokens of compiled commands

Each part of the grammars has its tokens, and the text of the part is cut into
just these. A segment of a name is one token whatever characters it holds, so a
path is segments between dots and a list is paths between commas. A column that
is passed on as it is, a function call or a star, has the tokens its text is cut
into.
-/

namespace EntityMapper

/-- The tokens of a text; none if it has a part that is no token. -/
def Token.cut (text : String) : List Token :=
  match Token.read text with
  | .ok spanned => spanned.map SpannedToken.token
  | .error _ => []

theorem Token.cut_of_lexes {text : String} {tokens : List Token}
    (h : Token.Lexes text.toList tokens) : Token.cut text = tokens := by
  obtain ⟨spanned, hread, hmap⟩ := Token.read_eq_ok_iff.mpr h
  rw [Token.cut, hread]
  exact hmap

namespace Grammar

open Token (Lexes Closed Tail Joint commas commas_cons_cons)

/-! ## Names -/

/-- The token of a segment: a bare word, or a quoted name. -/
def segmentToken (g : Grammar) (name : List Char) : Token :=
  match g.dialect with
  | .cql =>
    if isPlainName name then Token.ofWord name else .quotedName (String.ofList name)
  | .sql => .quotedName (String.ofList name)

/-- The tokens of a path without a label. -/
def pathTokens (g : Grammar) (path : List Char) : List Token :=
  ((segments path).map g.segmentToken).intersperse (.symbol .dot)

/-- The tokens of a table name with its qualifier. -/
def tableTokens (g : Grammar) (table : String) : List Token :=
  match g.qualifier with
  | some qualifier =>
    if table.toList.contains '.' then g.pathTokens table.toList
    else g.segmentToken qualifier.toList :: .symbol .dot ::
      g.pathTokens table.toList
  | none => g.pathTokens table.toList

/-- The tokens of a column reference of which every segment is written as a name. -/
def referenceTokens (g : Grammar) (column : String) : List Token :=
  match splitLabel? column.toList with
  | some (path, label) =>
    g.pathTokens (Text.trimChars path) ++
      [.keyword .as, g.segmentToken (Text.trimChars label)]
  | none => g.pathTokens column.toList

/-- The token of a segment of a column, where a star stays bare. -/
def pieceToken (g : Grammar) (segment : List Char) : Token :=
  if segment = ['*'] then .symbol .star else g.segmentToken segment

/-- The tokens of a path of a column without a label. -/
def pieceTokens (g : Grammar) (path : List Char) : List Token :=
  ((segments path).map g.pieceToken).intersperse (.symbol .dot)

/-- The tokens of a column reference that is no function call. -/
def writtenTokens (g : Grammar) (column : String) : List Token :=
  match splitLabel? column.toList with
  | some (path, label) =>
    g.pieceTokens (Text.trimChars path) ++
      [.keyword .as, g.segmentToken (Text.trimChars label)]
  | none => g.pieceTokens column.toList

/-- The tokens of a column reference. -/
def columnTokens (g : Grammar) (column : String) : List Token :=
  Token.cut (g.wrapColumn column)

/-- The text of a column reference is made of tokens. -/
def Lexed (g : Grammar) (column : String) : Prop :=
  Lexes (g.wrapColumn column).toList (g.columnTokens column)

/-- A path of which every segment is written as a name: no function call and no
star. -/
def Nameable (path : List Char) : Prop :=
  '(' ∉ path ∧ ∀ segment ∈ segments path, segment ≠ ['*']

/-- The path of a column reference, without its label. -/
def pathOf (column : String) : List Char :=
  match splitLabel? column.toList with
  | some (path, _) => Text.trimChars path
  | none => column.toList

/-- Behind a segment stands no character that would make it longer. -/
def EndsSegment (c : Char) : Prop := Token.isNameChar c = false ∧ c ≠ '"'

theorem isNameChar_of_isPlainName {name : List Char} (h : isPlainName name = true) :
    ∃ c rest, name = c :: rest ∧ Token.isNameStart c = true ∧
      ∀ d ∈ name, Token.isNameChar d = true := by
  cases name with
  | nil => simp [isPlainName] at h
  | cons c rest =>
    simp only [isPlainName, Bool.and_eq_true, List.all_eq_true] at h
    obtain ⟨hc, hrest⟩ := h
    have hstart : Token.isNameStart c = true := by
      simp only [Token.isNameStart, Text.isLetter, Bool.or_eq_true] at hc ⊢
      rcases hc with hc | hc
      · exact .inl (.inl hc)
      · exact .inr hc
    refine ⟨c, rest, rfl, hstart, ?_⟩
    intro d hd
    rcases List.mem_cons.mp hd with rfl | hd
    · simp [Token.isNameChar, hstart]
    · have hplain := hrest d hd
      simp only [isPlainChar, Token.isNameChar, Token.isNameStart, Text.isLetter,
        Bool.or_eq_true] at hplain ⊢
      rcases hplain with (hplain | hplain) | hplain
      · exact .inl (.inl (.inl hplain))
      · exact .inr hplain
      · exact .inl (.inr hplain)

theorem unquote_doubleQuotes (name : List Char) {rest : List Char}
    (hrest : ∀ c ∈ rest.head?, c ≠ '"') :
    Token.unquote? '"' (doubleQuotes name ++ '"' :: rest) = some (name, rest) :=
  Token.unquote_doubled '"' name hrest

/-- A segment is one token, up to a character that ends it. -/
theorem next_segmentChars (g : Grammar) (name : List Char) {rest : List Char}
    (hrest : ∀ c ∈ rest.head?, EndsSegment c) :
    Token.next (g.segmentChars name ++ rest) = .ok (g.segmentToken name, rest) := by
  have hquoted : Token.next (quotedSegment name ++ rest) =
      .ok (.quotedName (String.ofList name), rest) := by
    have hbody := unquote_doubleQuotes name fun c hc => (hrest c hc).2
    have hsplit : quotedSegment name ++ rest =
        '"' :: (doubleQuotes name ++ '"' :: rest) := by
      simp [quotedSegment]
    rw [hsplit]
    simp only [Token.next, hbody]
    rfl
  unfold segmentChars segmentToken
  cases g.dialect with
  | sql => exact hquoted
  | cql =>
    dsimp only
    split
    · next hplain =>
      obtain ⟨c, more, rfl, hstart, hall⟩ := isNameChar_of_isPlainName hplain
      have hname : ∀ d ∈ rest.head?, Token.isNameChar d = false :=
        fun d hd => (hrest d hd).1
      have htake : (c :: more ++ rest).takeWhile Token.isNameChar = c :: more := by
        calc
          (c :: more ++ rest).takeWhile Token.isNameChar =
              c :: more ++ rest.takeWhile Token.isNameChar :=
            List.takeWhile_append_of_pos hall
          _ = c :: more := by
            simpa using Token.takeWhile_append_of_head hname []
      have hdrop : (c :: more ++ rest).dropWhile Token.isNameChar = rest := by
        calc
          (c :: more ++ rest).dropWhile Token.isNameChar =
              rest.dropWhile Token.isNameChar := List.dropWhile_append_of_pos hall
          _ = rest := by simpa using Token.dropWhile_append_of_head hname []
      rw [List.cons_append] at htake hdrop ⊢
      simp only [Token.next]
      rw [if_pos hstart, htake, hdrop]
    · exact hquoted

theorem isBlank_of_isNameStart {c : Char} (h : Token.isNameStart c = true) :
    Token.isBlank c = false := by
  rw [Bool.eq_false_iff]
  intro hblank
  simp only [Token.isBlank, Bool.or_eq_true, beq_iff_eq] at hblank
  obtain ((rfl | rfl) | rfl) | rfl := hblank <;> revert h <;> decide

/-- A written segment begins with no blank. -/
theorem dropWhile_segmentChars (g : Grammar) (name rest : List Char) :
    (g.segmentChars name ++ rest).dropWhile Token.isBlank =
      g.segmentChars name ++ rest := by
  have hquoted : (quotedSegment name ++ rest).dropWhile Token.isBlank =
      quotedSegment name ++ rest := List.dropWhile_cons_of_neg (by decide)
  unfold segmentChars
  cases g.dialect with
  | sql => exact hquoted
  | cql =>
    dsimp only
    split
    · next hplain =>
      obtain ⟨c, more, rfl, hstart, -⟩ := isNameChar_of_isPlainName hplain
      exact List.dropWhile_cons_of_neg (by simp [isBlank_of_isNameStart hstart])
    · exact hquoted

theorem lexes_segmentChars (g : Grammar) (name : List Char) {rest : List Char}
    {more : List Token} (hrest : Lexes rest more)
    (hhead : ∀ c ∈ rest.head?, EndsSegment c) :
    Lexes (g.segmentChars name ++ rest) (g.segmentToken name :: more) := by
  refine .token ?_ hrest
  rw [dropWhile_segmentChars]
  exact next_segmentChars g name hhead

theorem lexes_segment (g : Grammar) (name : List Char) :
    Lexes (g.segmentChars name) [g.segmentToken name] := by
  have h : Lexes (g.segmentChars name ++ []) [g.segmentToken name] :=
    lexes_segmentChars g name (.done rfl) (by simp)
  rwa [List.append_nil] at h

theorem lexes_dot {rest : List Char} {more : List Token} (h : Lexes rest more) :
    Lexes ('.' :: rest) (.symbol .dot :: more) := .token rfl h

/-- Segments between dots are lexed one by one, if each is one token up to a
character that ends it. -/
theorem lexes_joinDots {chars : List Char → List Char} {token : List Char → Token}
    (h : ∀ name {rest more}, Lexes rest more → (∀ c ∈ rest.head?, EndsSegment c) →
      Lexes (chars name ++ rest) (token name :: more)) (names : List (List Char)) :
    Lexes (joinDots (names.map chars))
      ((names.map token).intersperse (.symbol .dot)) := by
  induction names with
  | nil => exact .done rfl
  | cons name names ih =>
    cases names with
    | nil =>
      have hlast := h name (.done rfl : Lexes [] []) (by simp)
      rwa [List.append_nil] at hlast
    | cons next names => exact h name (lexes_dot ih) (by simp [EndsSegment]; decide)

theorem lexes_pathChars (g : Grammar) {path : List Char} (h : '(' ∉ path) :
    Lexes (g.pathChars path) (g.pieceTokens path) := by
  rw [pathChars, if_neg (by simpa using h)]
  refine lexes_joinDots (fun name rest more hrest hhead => ?_) (segments path)
  unfold pieceToken
  split
  · next hstar => exact hstar ▸ .token rfl hrest
  · exact lexes_segmentChars g name hrest hhead

theorem pieceTokens_eq (g : Grammar) {path : List Char} (h : Nameable path) :
    g.pieceTokens path = g.pathTokens path :=
  congrArg (List.intersperse _)
    (List.map_congr_left fun segment hsegment => if_neg (h.2 segment hsegment))

theorem lexes_wrapTable (g : Grammar) (table : String) :
    Lexes (g.wrapTable table).toList (g.tableTokens table) := by
  have hpath := lexes_joinDots (lexes_segmentChars g) (segments table.toList)
  unfold wrapTable tableTokens
  cases g.qualifier with
  | none =>
    rw [String.toList_ofList]
    exact hpath
  | some qualifier =>
    dsimp only
    split
    · rw [String.toList_ofList]
      exact hpath
    · rw [String.toList_ofList]
      exact lexes_segmentChars g _ (lexes_dot hpath) (by simp [EndsSegment]; decide)

theorem joint_as : Joint [' ', 'A', 'S', ' '] [.keyword .as] :=
  Token.joint_word (rfl : Token.read "AS" = .ok _)

theorem lexes_writtenTokens (g : Grammar) {column : String}
    (h : '(' ∉ pathOf column) :
    Lexes (g.wrapColumn column).toList (g.writtenTokens column) := by
  unfold wrapColumn columnChars writtenTokens
  unfold pathOf at h
  rw [String.toList_ofList]
  cases hlabel : splitLabel? column.toList with
  | none =>
    rw [hlabel] at h
    exact lexes_pathChars g h
  | some parts =>
    rw [hlabel] at h
    dsimp only at h ⊢
    rw [List.append_assoc]
    exact (lexes_pathChars g h).tail (joint_as.tail (lexes_segment g _))

theorem lexes_wrapColumn (g : Grammar) {column : String}
    (h : Nameable (pathOf column)) :
    Lexes (g.wrapColumn column).toList (g.referenceTokens column) := by
  have hlexes := lexes_writtenTokens g h.1
  unfold writtenTokens at hlexes
  unfold referenceTokens
  unfold pathOf at h
  cases hlabel : splitLabel? column.toList with
  | none =>
    rw [hlabel] at h hlexes
    rwa [pieceTokens_eq g h] at hlexes
  | some parts =>
    rw [hlabel] at h hlexes
    dsimp only at h hlexes ⊢
    rwa [pieceTokens_eq g h] at hlexes

theorem columnTokens_eq (g : Grammar) {column : String}
    (h : Nameable (pathOf column)) :
    g.columnTokens column = g.referenceTokens column :=
  Token.cut_of_lexes (lexes_wrapColumn g h)

theorem Nameable.lexed {column : String} (h : Nameable (pathOf column))
    (g : Grammar) : g.Lexed column := by
  rw [Lexed, columnTokens_eq g h]
  exact lexes_wrapColumn g h

/-! ## Lists -/

theorem joint_comma : Joint ", ".toList [.symbol .comma] :=
  ⟨(Token.lexes_of_read (rfl : Token.read "," = .ok _)).closed_blank,
    by decide, by simp⟩

/-- A list is lexed item by item. -/
theorem lexes_join {α : Type} {items : List α} {text : α → String}
    {tokens : α → List Token}
    (h : ∀ item ∈ items, Lexes (text item).toList (tokens item)) :
    Lexes (Text.join ", " (items.map text)).toList (commas (items.map tokens)) := by
  induction items with
  | nil => exact .done rfl
  | cons item items ih =>
    have hitem := h item (List.mem_cons_self ..)
    have hrest := ih fun next hnext => h next (List.mem_cons_of_mem item hnext)
    cases items with
    | nil => simpa [Text.join] using hitem
    | cons next items =>
      simp only [List.map_cons, Text.join, String.toList_append, List.append_assoc,
        commas_cons_cons] at hrest ⊢
      exact hitem.tail (joint_comma.tail hrest)

/-- The tokens of column references with commas between them. -/
def columnsTokens (g : Grammar) (columns : List String) : List Token :=
  commas (columns.map g.columnTokens)

theorem lexes_columnize (g : Grammar) {columns : List String}
    (h : ∀ column ∈ columns, g.Lexed column) :
    Lexes (g.columnize columns).toList (g.columnsTokens columns) :=
  lexes_join h

theorem lexes_placeholder : Lexes "?".toList [.symbol .param] :=
  Token.lexes_of_read (rfl : Token.read "?" = .ok _)

theorem text_join (separator : String) (fragments : List Fragment) :
    (Fragment.join separator fragments).text =
      Text.join separator (fragments.map Fragment.text) := by
  induction fragments with
  | nil => rfl
  | cons f rest ih =>
    cases rest with
    | nil => rfl
    | cons next rest =>
      have hcons : Fragment.join separator (f :: next :: rest) =
          f ++ .lit separator ++ Fragment.join separator (next :: rest) := by
        simp [Fragment.join]
      calc
        (Fragment.join separator (f :: next :: rest)).text =
            f.text ++ separator ++ (Fragment.join separator (next :: rest)).text := by
          rw [hcons, Fragment.text_append, Fragment.text_append]
          rfl
        _ = f.text ++ separator ++
            Text.join separator ((next :: rest).map Fragment.text) := by rw [ih]
        _ = Text.join separator ((f :: next :: rest).map Fragment.text) := rfl

theorem lexes_parameterize (values : List Value) :
    Lexes (parameterize values).text.toList (Token.placeholders values) := by
  rw [parameterize, text_join, List.map_map]
  exact lexes_join fun _ _ => lexes_placeholder

/-! ## Conditions -/

/-- The tokens of one condition. -/
def conditionTokens (g : Grammar) : Condition → List Token
  | .basic column operator _ =>
    g.columnTokens column ++ (operator.tokens ++ [.symbol .param])
  | .isIn column values =>
    g.columnTokens column ++ (.keyword .in :: .symbol .leftParen ::
      (Token.placeholders values ++ [.symbol .rightParen]))
  | .notIn column values =>
    g.columnTokens column ++ (.keyword .not :: .keyword .in :: .symbol .leftParen ::
      (Token.placeholders values ++ [.symbol .rightParen]))
  | .between column _ _ =>
    (g.columnTokens column ++ [.symbol .ge, .symbol .param]) ++
      .keyword .and :: (g.columnTokens column ++ [.symbol .le, .symbol .param])
  | .isNull column => g.columnTokens column ++ [.keyword .is, .keyword .null]
  | .notNull column =>
    g.columnTokens column ++ [.keyword .is, .keyword .not, .keyword .null]
  | .token columns operator values =>
    .keyword .token :: .symbol .leftParen ::
      (g.columnsTokens columns ++ .symbol .rightParen ::
        (operator.tokens ++ .keyword .token :: .symbol .leftParen ::
          (Token.placeholders values ++ [.symbol .rightParen])))
  | .raw text => Token.cut text

/-- The tokens of predicates after the first. -/
def moreTokens (g : Grammar) : List Predicate → List Token
  | [] => []
  | p :: rest =>
    p.connector.token :: (g.conditionTokens p.condition ++ g.moreTokens rest)

/-- The tokens of a list of predicates. -/
def wheresTokens (g : Grammar) : List Predicate → List Token
  | [] => []
  | p :: rest => g.conditionTokens p.condition ++ g.moreTokens rest

/-- The columns of the condition are made of tokens, and so is a raw text. -/
def Lexable (g : Grammar) (c : Condition) : Prop :=
  (∀ column ∈ c.columns, g.Lexed column) ∧
    ∀ text ∈ c.rawText?, Lexes text.toList (Token.cut text)

theorem joint_operator (operator : Operator) :
    Joint (' ' :: operator.text.toList ++ [' ']) operator.tokens := by
  have hread : ∃ spanned, Token.read operator.text = .ok spanned ∧
      spanned.map SpannedToken.token = operator.tokens := by
    cases operator <;> exact ⟨_, rfl, rfl⟩
  obtain ⟨spanned, hread, htokens⟩ := hread
  rw [← htokens]
  exact Token.joint_word hread

theorem joint_connector (connector : Connector) :
    Joint (' ' :: connector.keyword.toList ++ [' ']) [connector.token] := by
  have hread : ∃ spanned, Token.read connector.keyword = .ok spanned ∧
      spanned.map SpannedToken.token = [connector.token] := by
    cases connector <;> exact ⟨_, rfl, rfl⟩
  obtain ⟨spanned, hread, htokens⟩ := hread
  rw [← htokens]
  exact Token.joint_word hread

/-- A fixed text that begins with a blank or a bracket and ends in an opening
bracket. -/
theorem joint_bracket {text : String} {spanned : List SpannedToken}
    (h : Token.read text = .ok spanned) (hseam : Token.Seam text.toList) :
    Joint (text.toList ++ ['('])
      (spanned.map SpannedToken.token ++ [.symbol .leftParen]) := by
  refine ⟨(Token.lexes_of_read h).closed_mark '(' (by simp) rfl,
    hseam.append (by decide), by simp⟩

theorem tail_close : Tail [')'] [.symbol .rightParen] :=
  ⟨Token.lexes_of_read (rfl : Token.read ")" = .ok _), by decide⟩

theorem lexes_condition (g : Grammar) {c : Condition} (h : g.Lexable c) :
    Lexes (g.condition c).text.toList (g.conditionTokens c) := by
  have hcolumn : ∀ column ∈ c.columns, g.Lexed column := h.1
  cases c with
  | basic column operator value =>
    have h := (hcolumn column (by simp [Condition.columns])).tail
      ((joint_operator operator).tail lexes_placeholder)
    simpa [condition, conditionTokens] using h
  | isIn column values =>
    have hin : Joint " IN (".toList [.keyword .in, .symbol .leftParen] :=
      joint_bracket (rfl : Token.read " IN " = .ok _) (by decide)
    have h := (hcolumn column (by simp [Condition.columns])).tail
      (hin.tail ((lexes_parameterize values).tail tail_close))
    simpa [condition, conditionTokens] using h
  | notIn column values =>
    have hin : Joint " NOT IN (".toList [.keyword .not, .keyword .in,
        .symbol .leftParen] :=
      joint_bracket (rfl : Token.read " NOT IN " = .ok _) (by decide)
    have h := (hcolumn column (by simp [Condition.columns])).tail
      (hin.tail ((lexes_parameterize values).tail tail_close))
    simpa [condition, conditionTokens] using h
  | between column low high =>
    have hand : Joint " AND ".toList [.keyword .and] := joint_connector .and
    have hlow := (hcolumn column (by simp [Condition.columns])).tail
      ((joint_operator .ge).tail lexes_placeholder)
    have hhigh := (hcolumn column (by simp [Condition.columns])).tail
      ((joint_operator .le).tail lexes_placeholder)
    have h := hlow.tail (hand.tail hhigh)
    simpa [condition, conditionTokens, Operator.text, Operator.tokens] using h
  | isNull column =>
    have hnull : Tail " IS NULL".toList [.keyword .is, .keyword .null] :=
      ⟨Token.lexes_of_read (rfl : Token.read " IS NULL" = .ok _), by decide⟩
    have h := (hcolumn column (by simp [Condition.columns])).tail hnull
    simpa [condition, conditionTokens] using h
  | notNull column =>
    have hnull : Tail " IS NOT NULL".toList [.keyword .is, .keyword .not,
        .keyword .null] :=
      ⟨Token.lexes_of_read (rfl : Token.read " IS NOT NULL" = .ok _), by decide⟩
    have h := (hcolumn column (by simp [Condition.columns])).tail hnull
    simpa [condition, conditionTokens] using h
  | token columns operator values =>
    have hopen : Closed "TOKEN(".toList [.keyword .token, .symbol .leftParen] :=
      (Token.lexes_of_read (rfl : Token.read "TOKEN" = .ok _)).closed_mark '('
        (by simp) rfl
    have hcolumns := lexes_columnize g h.1
    have hvalues := (lexes_parameterize values).tail tail_close
    have hclose :=
      tail_close.append ((joint_operator operator).tail (hopen hvalues))
    have h := hopen (hcolumns.tail hclose)
    simpa [condition, conditionTokens, Condition.columns] using h
  | raw text => exact h.2 text rfl

theorem tail_moreWheres (g : Grammar) {predicates : List Predicate}
    (h : ∀ p ∈ predicates, g.Lexable p.condition) :
    Tail (g.moreWheres predicates).text.toList (g.moreTokens predicates) := by
  induction predicates with
  | nil => exact Token.tail_nil
  | cons p rest ih =>
    have hcondition := lexes_condition g (h p (List.mem_cons_self ..))
    have hrest := ih fun q hq => h q (List.mem_cons_of_mem p hq)
    have h := (joint_connector p.connector).tail (hcondition.tail hrest)
    simpa [moreWheres, moreTokens] using h

theorem lexes_wheres (g : Grammar) {predicates : List Predicate}
    (h : ∀ p ∈ predicates, g.Lexable p.condition) :
    Lexes (g.wheres predicates).text.toList (g.wheresTokens predicates) := by
  cases predicates with
  | nil => exact .done rfl
  | cons p rest =>
    have hcondition := lexes_condition g (h p (List.mem_cons_self ..))
    have hrest := tail_moreWheres g fun q hq => h q (List.mem_cons_of_mem p hq)
    rw [wheres, Fragment.text_append, String.toList_append]
    exact hcondition.tail hrest

end Grammar

end EntityMapper
