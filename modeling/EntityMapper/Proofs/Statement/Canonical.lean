import EntityMapper.Proofs.Statement.Clauses
import EntityMapper.Proofs.Statement.Numerals

/-!
# The canonical text of a statement

Every statement has a text of its own. It is written token by token, with one
blank in between: keywords in capitals, every name between double quotes, texts
between single quotes, and quotes inside them doubled. Brackets stand where the
structure asks for them and nowhere else: a chain of terms inside a chain of
terms has them, except that alternatives may be chains of ANDs without them. The
clauses stand in the order of the grammar, and those that say nothing are left
out.

Cutting the text into tokens gives back the tokens it was written from.
-/

namespace EntityMapper

/-! ## Tokens as they are written -/

/-- The characters of a symbol. -/
def Symbol.chars : Symbol → List Char
  | .param => ['?']
  | .eq => ['=']
  | .ne => ['!', '=']
  | .le => ['<', '=']
  | .ge => ['>', '=']
  | .lt => ['<']
  | .gt => ['>']
  | .dot => ['.']
  | .comma => [',']
  | .leftParen => ['(']
  | .rightParen => [')']
  | .star => ['*']
  | .semicolon => [';']

namespace Token

/-- A text between quotes. -/
def quotation (quote : Char) (body : List Char) : List Char :=
  quote :: (doubled quote body ++ [quote])

/-- The characters of a token. -/
def chars : Token → List Char
  | .keyword k => k.text.toList.map Text.asciiUpper
  | .symbol s => s.chars
  | .name text => text.toList
  | .quotedName text => quotation '"' text.toList
  | .string text => quotation '\'' text.toList
  | .int n => (Decimal.intText n.toInt).toList
  | .float x => (Decimal.Layout.diagnostic.text x).toList

/-- The tokens that canonical texts are made of: names are quoted, and there are
no floating point numbers. -/
def isCanonical : Token → Bool
  | .name _ | .float _ => false
  | _ => true

/-- Tokens on a line, with a blank between them. -/
def line : List Token → List Char
  | [] => []
  | [t] => t.chars
  | t :: rest => t.chars ++ ' ' :: line rest

theorem lexes_keyword (k : Keyword) : Lexes (chars (.keyword k)) [.keyword k] := by
  cases k <;> exact .token rfl (.done rfl : Lexes [] [])

theorem lexes_symbol (s : Symbol) : Lexes (chars (.symbol s)) [.symbol s] := by
  cases s <;> exact .token rfl (.done rfl : Lexes [] [])

theorem unquote_quotation (quote : Char) (body : List Char) :
    unquote? quote (doubled quote body ++ [quote]) = some (body, []) :=
  unquote_doubled quote body (by simp)

theorem lexes_quotedName (text : String) :
    Lexes (chars (.quotedName text)) [.quotedName text] := by
  have hbody := unquote_quotation '"' text.toList
  refine .token ?_ (.done rfl : Lexes [] [])
  rw [chars, quotation, List.dropWhile_cons_of_neg (by decide)]
  simp only [next, hbody, String.ofList_toList]
  rfl

theorem lexes_string (text : String) :
    Lexes (chars (.string text)) [.string text] := by
  have hbody := unquote_quotation '\'' text.toList
  refine .token ?_ (.done rfl : Lexes [] [])
  rw [chars, quotation, List.dropWhile_cons_of_neg (by decide)]
  simp only [next, hbody, String.ofList_toList]
  rfl

theorem lexes_chars {t : Token} (h : t.isCanonical = true) : Lexes t.chars [t] := by
  cases t with
  | keyword k => exact lexes_keyword k
  | symbol s => exact lexes_symbol s
  | name text => cases h
  | quotedName text => exact lexes_quotedName text
  | string text => exact lexes_string text
  | int n => exact lexes_intText n
  | float x => cases h

/-- A line is cut into the tokens it was written from. -/
theorem lexes_line {tokens : List Token} (h : tokens.all isCanonical = true) :
    Lexes (line tokens) tokens := by
  induction tokens with
  | nil => exact .done rfl
  | cons t rest ih =>
    rw [List.all_cons, Bool.and_eq_true] at h
    have hfirst := lexes_chars h.1
    have hrest := ih h.2
    cases rest with
    | nil => exact hfirst
    | cons s rest =>
      have hclosed := hfirst.closed_blank hrest
      rwa [List.append_assoc] at hclosed

/-- Tokens between brackets. -/
def bracketed (tokens : List Token) : List Token :=
  .symbol .leftParen :: (tokens ++ [.symbol .rightParen])

/-- Names with commas between them. -/
def names (columns : List String) : List Token :=
  commas (columns.map fun column => [.quotedName column])

end Token

/-! ## Values -/

/-- Whether a value can be written as a literal of a canonical text. -/
def Value.isLiteral : Value → Bool
  | .null | .bool _ | .int _ | .text _ => true
  | _ => false

/-- The literal of a value. Values that have none are written as null. -/
def Value.token : Value → Token
  | .bool true => .keyword .trueLiteral
  | .bool false => .keyword .falseLiteral
  | .int n => .int n
  | .text s => .string s
  | _ => .keyword .null

namespace Operand

def wellFormed : Operand → Bool
  | .param _ => true
  | .literal value => value.isLiteral

def token : Operand → Token
  | .param _ => .symbol .param
  | .literal value => value.token

/-- Values with commas between them. -/
def list (operands : List Operand) : List Token :=
  Token.commas (operands.map fun o => [o.token])

end Operand

/-! ## Filters -/

namespace Filter

/-- Whether the filter is a chain of alternatives. -/
def isAny : Filter → Bool
  | .any _ => true
  | _ => false

/-- Whether the filter is a chain of terms or of alternatives. -/
def isChain : Filter → Bool
  | .all _ | .any _ => true
  | _ => false

mutual

/-- Chains have two parts at least, and every part of a filter has a text. -/
def wellFormed : Filter → Bool
  | .all terms => decide (2 ≤ terms.length) && wellFormedAll terms
  | .any terms => decide (2 ≤ terms.length) && wellFormedAll terms
  | .compare _ _ operand => operand.wellFormed
  | .member _ _ operands => operands.all Operand.wellFormed
  | .isNull _ _ => true
  | .token columns operator operands =>
    !columns.isEmpty && operator.isComparison && !operands.isEmpty &&
      operands.all Operand.wellFormed

def wellFormedAll : List Filter → Bool
  | [] => true
  | term :: rest => term.wellFormed && wellFormedAll rest

end

mutual

/-- The tokens of a filter that stands on its own or between brackets. -/
def tokens : Filter → List Token
  | .all terms => [Token.keyword .and].intercalate (conjunctTokens terms)
  | .any terms => [Token.keyword .or].intercalate (alternativeTokens terms)
  | .compare column operator operand =>
    .quotedName column :: (operator.tokens ++ [operand.token])
  | .member column negated operands =>
    .quotedName column :: ((if negated then [.keyword .not] else []) ++
      .keyword .in :: Token.bracketed (Operand.list operands))
  | .isNull column negated =>
    .quotedName column :: .keyword .is ::
      ((if negated then [.keyword .not] else []) ++ [.keyword .null])
  | .token columns operator operands =>
    .keyword .token :: (Token.bracketed (Token.names columns) ++
      (operator.tokens ++ .keyword .token ::
        Token.bracketed (Operand.list operands)))

/-- The tokens of terms between ANDs: every chain has brackets. -/
def conjunctTokens : List Filter → List (List Token)
  | [] => []
  | term :: rest =>
    (if term.isChain then Token.bracketed term.tokens else term.tokens) ::
      conjunctTokens rest

/-- The tokens of alternatives between ORs: a chain of alternatives has brackets. -/
def alternativeTokens : List Filter → List (List Token)
  | [] => []
  | term :: rest =>
    (if term.isAny then Token.bracketed term.tokens else term.tokens) ::
      alternativeTokens rest

end

/-- A filter behind its keyword, or nothing. -/
def clause (k : Keyword) (filter : Option Filter) : List Token :=
  filter.elim [] fun f => .keyword k :: f.tokens

end Filter

/-! ## Statements -/

/-- A number behind its keywords, or nothing. -/
def Token.countClause (heads : List Keyword) (count : Option Nat) : List Token :=
  count.elim [] fun n => heads.map .keyword ++ [.int (Int64.ofInt n)]

/-- A list behind its keyword and BY, or nothing if it is empty. -/
def Token.byClause {α : Type} (k : Keyword) (items : List α)
    (tokens : α → List Token) : List Token :=
  if items.isEmpty then []
    else .keyword k :: .keyword .by :: commas (items.map tokens)

def ProjectedColumn.tokens (c : ProjectedColumn) : List Token :=
  .quotedName c.name ::
    c.label.elim [] fun label => [.keyword .as, .quotedName label]

def Projection.tokens : Projection → List Token
  | .all => [.symbol .star]
  | .count => .keyword .count :: Token.bracketed [.symbol .star]
  | .columns items => Token.commas (items.map ProjectedColumn.tokens)

def SelectStatement.tokens (s : SelectStatement) : List Token :=
  s.projection.tokens ++ .keyword .from :: .quotedName s.table ::
    (Filter.clause .where s.filter ++
      (Token.byClause .group s.groupBy (fun column => [.quotedName column]) ++
        (Token.byClause .order s.orderBy
            (fun o => [.quotedName o.1, Parser.directionToken o.2]) ++
          (Token.countClause [.limit] s.limit ++
            (Token.countClause [.offset] s.offset ++ if s.allowFiltering then
                [.keyword .allow, .keyword .filtering] else [])))))

def InsertStatement.tokens (s : InsertStatement) : List Token :=
  .keyword .into :: .quotedName s.table ::
    (Token.bracketed (Token.names s.columns) ++ .keyword .values ::
      (Token.bracketed (Operand.list s.values) ++
        ((if s.ifNotExists then [.keyword .if, .keyword .not, .keyword .exists]
            else []) ++ Token.countClause [.using, .ttl] s.ttl)))

def UpdateStatement.tokens (s : UpdateStatement) : List Token :=
  .quotedName s.table ::
    (Token.countClause [.using, .ttl] s.ttl ++ .keyword .set :: (Token.commas
        (s.assignments.map fun a => [.quotedName a.1, .symbol .eq, a.2.token]) ++
      (Filter.clause .where s.filter ++ Filter.clause .if s.conditions)))

def DeleteStatement.tokens (s : DeleteStatement) : List Token :=
  Token.names s.columns ++ .keyword .from :: .quotedName s.table ::
    (Filter.clause .where s.filter ++ Filter.clause .if s.conditions)

namespace Statement

/-- The canonical tokens of a statement. -/
def tokens : Statement → List Token
  | .select s => .keyword .select :: s.tokens
  | .insert s => .keyword .insert :: s.tokens
  | .update s => .keyword .update :: s.tokens
  | .delete s => .keyword .delete :: s.tokens

/-- The canonical text of a statement. -/
def canonical (s : Statement) : String := String.ofList (Token.line s.tokens)

end Statement

/-- Whether a number of rows or seconds fits 64 bits. -/
def fitsCount (count : Option Nat) : Bool :=
  count.all fun n => decide (n ≤ Nat.pow 2 63 - 1)

def Projection.wellFormed : Projection → Bool
  | .columns items => !items.isEmpty && items.all fun c => decide (c.name ≠ "*")
  | _ => true

/-- What a statement has to be like to have a text: its lists are not empty
where the grammar wants an item, its numbers fit, its values are literals or
parameters, and its filters are well-formed. -/
def Statement.wellFormed : Statement → Bool
  | .select s =>
    s.projection.wellFormed && s.filter.all Filter.wellFormed &&
      fitsCount s.limit && fitsCount s.offset
  | .insert s =>
    !s.columns.isEmpty && decide (s.columns.length = s.values.length) &&
      s.values.all Operand.wellFormed && fitsCount s.ttl
  | .update s =>
    !s.assignments.isEmpty && (s.assignments.all fun a => a.2.wellFormed) &&
      s.filter.all Filter.wellFormed && s.conditions.all Filter.wellFormed &&
      fitsCount s.ttl
  | .delete s =>
    s.filter.all Filter.wellFormed && s.conditions.all Filter.wellFormed

/-! ## Cutting canonical texts -/

namespace Token

variable {items : List (List Token)} {separator : Token}

/-- All tokens of a text are canonical ones. -/
def Canonical (tokens : List Token) : Prop := tokens.all isCanonical = true

theorem canonical_nil : Canonical [] := rfl

theorem Canonical.cons {t : Token} {tokens : List Token} (ht : t.isCanonical = true)
    (h : Canonical tokens) : Canonical (t :: tokens) := by
  rw [Canonical, List.all_cons, ht, h]
  rfl

theorem Canonical.append {first second : List Token} (hfirst : Canonical first)
    (hsecond : Canonical second) : Canonical (first ++ second) := by
  rw [Canonical, List.all_append, hfirst, hsecond]
  rfl

theorem canonical_intercalate (hseparator : separator.isCanonical = true)
    (h : ∀ item ∈ items, Canonical item) :
    Canonical ([separator].intercalate items) := by
  induction items with
  | nil => exact canonical_nil
  | cons item rest ih =>
    have hitem := h item (List.mem_cons_self ..)
    have hrest := ih fun other hother => h other (List.mem_cons_of_mem item hother)
    cases rest with
    | nil => simpa using hitem
    | cons next rest =>
      rw [List.intercalate_cons_cons]
      exact (hitem.append (.cons hseparator canonical_nil)).append hrest

theorem Canonical.bracketed {tokens : List Token} (h : Canonical tokens) :
    Canonical (bracketed tokens) := .cons rfl (h.append (.cons rfl canonical_nil))

theorem canonical_commas {α : Type} {xs : List α} {tokens : α → List Token}
    (h : ∀ x, Canonical (tokens x)) : Canonical (commas (xs.map tokens)) := by
  refine canonical_intercalate rfl fun item hitem => ?_
  obtain ⟨x, -, rfl⟩ := List.mem_map.mp hitem
  exact h x

theorem canonical_names (columns : List String) : Canonical (names columns) :=
  canonical_commas fun _ => rfl

theorem canonical_operator (operator : Operator) : Canonical operator.tokens := by
  cases operator <;> rfl

theorem canonical_countClause (heads : List Keyword) (count : Option Nat) :
    Canonical (countClause heads count) := by
  cases count with
  | none => exact canonical_nil
  | some n =>
    refine Canonical.append ?_ rfl
    simp [Canonical, isCanonical]

theorem canonical_byClause {α : Type} (k : Keyword) {items : List α}
    {tokens : α → List Token} (h : ∀ x, Canonical (tokens x)) :
    Canonical (byClause k items tokens) := by
  unfold byClause
  split
  · exact canonical_nil
  · exact .cons rfl (.cons rfl (canonical_commas h))

end Token

open Token (Canonical canonical_nil canonical_intercalate canonical_commas
  canonical_names canonical_operator canonical_countClause canonical_byClause)

theorem Operand.isCanonical_token (o : Operand) : o.token.isCanonical = true := by
  unfold Operand.token Value.token
  split
  · rfl
  · split <;> rfl

theorem Operand.canonical_list (operands : List Operand) :
    Canonical (Operand.list operands) :=
  canonical_commas fun o => .cons o.isCanonical_token canonical_nil

namespace Filter

mutual

theorem canonical_tokens : (f : Filter) → Canonical f.tokens
  | .all terms => canonical_intercalate rfl (canonical_conjuncts terms)
  | .any terms => canonical_intercalate rfl (canonical_alternatives terms)
  | .compare _ operator operand =>
    .cons rfl ((canonical_operator operator).append
      (.cons operand.isCanonical_token canonical_nil))
  | .member _ negated operands => by
    have hoperands := (Operand.canonical_list operands).bracketed
    cases negated with
    | true => exact .cons rfl (.cons rfl (.cons rfl hoperands))
    | false => exact .cons rfl (.cons rfl hoperands)
  | .isNull _ negated => by cases negated <;> rfl
  | .token columns operator operands =>
    .cons rfl ((canonical_names columns).bracketed.append ((canonical_operator
        operator).append (.cons rfl (Operand.canonical_list operands).bracketed)))

theorem canonical_conjuncts : (terms : List Filter) →
    ∀ item ∈ conjunctTokens terms, Canonical item
  | [] => by simp [conjunctTokens]
  | term :: rest => by
    have hterm := canonical_tokens term
    have hrest := canonical_conjuncts rest
    rw [conjunctTokens, List.forall_mem_cons]
    refine ⟨?_, hrest⟩
    split
    · exact hterm.bracketed
    · exact hterm

theorem canonical_alternatives : (terms : List Filter) →
    ∀ item ∈ alternativeTokens terms, Canonical item
  | [] => by simp [alternativeTokens]
  | term :: rest => by
    have hterm := canonical_tokens term
    have hrest := canonical_alternatives rest
    rw [alternativeTokens, List.forall_mem_cons]
    refine ⟨?_, hrest⟩
    split
    · exact hterm.bracketed
    · exact hterm

end

theorem canonical_clause (k : Keyword) (filter : Option Filter) :
    Canonical (clause k filter) := by
  cases filter with
  | none => exact canonical_nil
  | some f => exact .cons rfl f.canonical_tokens

end Filter

theorem ProjectedColumn.canonical_tokens (c : ProjectedColumn) :
    Canonical c.tokens := by
  obtain ⟨name, label⟩ := c
  cases label <;> rfl

theorem Projection.canonical_tokens (p : Projection) : Canonical p.tokens := by
  cases p with
  | all => rfl
  | count => rfl
  | columns items => exact canonical_commas ProjectedColumn.canonical_tokens

namespace Statement

theorem canonical_tokens (s : Statement) : Canonical s.tokens := by
  have hflag (b : Bool) {tokens : List Token} (h : Canonical tokens) :
      Canonical (if b then tokens else []) := by
    cases b with
    | true => exact h
    | false => exact canonical_nil
  cases s with
  | select s =>
    have horder (o : String × Direction) :
        Canonical [.quotedName o.1, Parser.directionToken o.2] := by
      obtain ⟨column, direction⟩ := o
      cases direction <;> rfl
    have hgroup (column : String) : Canonical [.quotedName column] := rfl
    have hallow : Canonical [.keyword .allow, .keyword .filtering] := rfl
    exact .cons rfl (s.projection.canonical_tokens.append
      (.cons rfl (.cons rfl ((Filter.canonical_clause .where s.filter).append
        ((canonical_byClause .group hgroup).append ((canonical_byClause .order
            horder).append ((canonical_countClause _ s.limit).append
              ((canonical_countClause _ s.offset).append (hflag _ hallow)))))))))
  | insert s =>
    have habsent : Canonical [.keyword .if, .keyword .not, .keyword .exists] := rfl
    exact .cons rfl
      (.cons rfl (.cons rfl ((canonical_names s.columns).bracketed.append
        (.cons rfl ((Operand.canonical_list s.values).bracketed.append
          ((hflag _ habsent).append (canonical_countClause _ s.ttl)))))))
  | update s =>
    have hassignment (a : String × Operand) :
        Canonical [.quotedName a.1, .symbol .eq, a.2.token] :=
      .cons rfl (.cons rfl (.cons a.2.isCanonical_token canonical_nil))
    exact .cons rfl (.cons rfl ((canonical_countClause _ s.ttl).append (.cons rfl
      ((canonical_commas hassignment).append ((Filter.canonical_clause .where
          s.filter).append (Filter.canonical_clause .if s.conditions))))))
  | delete s =>
    exact .cons rfl ((canonical_names s.columns).append (.cons rfl (.cons rfl
      ((Filter.canonical_clause .where s.filter).append
        (Filter.canonical_clause .if s.conditions)))))

/-- The canonical text is cut into the canonical tokens. -/
theorem lexes_canonical (s : Statement) :
    Token.Lexes s.canonical.toList s.tokens := by
  rw [canonical, String.toList_ofList]
  exact Token.lexes_line s.canonical_tokens

end Statement

end EntityMapper
