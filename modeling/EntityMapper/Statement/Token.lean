import EntityMapper.Decimal.Layout
import EntityMapper.Text.Ascii
import EntityMapper.Text.Quoted

/-!
# Tokens of the command language

A token is a keyword, a symbol, a name or a literal. Keywords ignore letter
case; some of them may also stand where a name is expected.
-/

namespace EntityMapper

inductive Keyword
  | select | insert | update | delete
  | «from» | «where» | into | values | set | group | order | «by» | asc | desc |
      limit | offset
  | allow | filtering | using | ttl | «if» | «exists» | on | conflict | «do»
      | nothing | as
  | count | token
  | and | or | not | «in» | is | like | contains | key
  | trueLiteral | falseLiteral | null
deriving DecidableEq, Inhabited

namespace Keyword

/-- The small letters of a keyword. -/
def text : Keyword → String
  | .select => "select"
  | .insert => "insert"
  | .update => "update"
  | .delete => "delete"
  | .from => "from"
  | .where => "where"
  | .into => "into"
  | .values => "values"
  | .set => "set"
  | .group => "group"
  | .order => "order"
  | .by => "by"
  | .asc => "asc"
  | .desc => "desc"
  | .limit => "limit"
  | .offset => "offset"
  | .allow => "allow"
  | .filtering => "filtering"
  | .using => "using"
  | .ttl => "ttl"
  | .if => "if"
  | .exists => "exists"
  | .on => "on"
  | .conflict => "conflict"
  | .do => "do"
  | .nothing => "nothing"
  | .as => "as"
  | .count => "count"
  | .token => "token"
  | .and => "and"
  | .or => "or"
  | .not => "not"
  | .in => "in"
  | .is => "is"
  | .like => "like"
  | .contains => "contains"
  | .key => "key"
  | .trueLiteral => "true"
  | .falseLiteral => "false"
  | .null => "null"

/-- Every keyword. -/
def all : List Keyword :=
  [.select, .insert, .update, .delete, .from, .where, .into, .values, .set, .group,
    .order, .by, .asc, .desc, .limit, .offset, .allow, .filtering, .using, .ttl,
    .if, .exists, .on, .conflict, .do, .nothing, .as, .count, .token, .and, .or,
    .not, .in, .is, .like, .contains, .key, .trueLiteral, .falseLiteral, .null]

/-- The keyword with the given small letters. -/
def ofText? (text : String) : Option Keyword :=
  all.find? fun k => decide (k.text = text)

/-- Whether the keyword may stand for a name. -/
def isSoft : Keyword → Bool
  | .key | .ttl | .count | .exists | .filtering | .allow | .asc | .desc |
      .nothing | .conflict
  | .do | .values => true
  | _ => false

/-- How a diagnostic names the keyword: with a capital, and the token function
by its own name. -/
def diagnostic (k : Keyword) : String :=
  match k with
  | .token => "TokenFn"
  | k =>
    match k.text.toList with
    | [] => ""
    | c :: rest => String.ofList (Text.asciiUpper c :: rest)

end Keyword

inductive Symbol
  | param | eq | ne | le | ge | lt | gt | dot | comma | leftParen | rightParen |
      star | semicolon
deriving DecidableEq, Inhabited

def Symbol.diagnostic : Symbol → String
  | .param => "Param"
  | .eq => "Eq"
  | .ne => "Ne"
  | .le => "Le"
  | .ge => "Ge"
  | .lt => "Lt"
  | .gt => "Gt"
  | .dot => "Dot"
  | .comma => "Comma"
  | .leftParen => "LParen"
  | .rightParen => "RParen"
  | .star => "Star"
  | .semicolon => "Semicolon"

/-- A token. Names and strings hold their text without quotes. -/
inductive Token
  | keyword (k : Keyword)
  | symbol (s : Symbol)
  | name (text : String)
  | quotedName (text : String)
  | string (text : String)
  | int (value : Int64)
  | float (value : Binary64)
deriving DecidableEq, Inhabited

/-- How a diagnostic shows a token. -/
def Token.diagnostic : Token → String
  | .keyword k => k.diagnostic
  | .symbol s => s.diagnostic
  | .name text => "Ident(" ++ Text.quoted text ++ ")"
  | .quotedName text => "QuotedIdent(" ++ Text.quoted text ++ ")"
  | .string text => "String(" ++ Text.quoted text ++ ")"
  | .int value => "Int(" ++ Decimal.intText value.toInt ++ ")"
  | .float value => "Float(" ++ Decimal.Layout.diagnostic.text value ++ ")"

/-- A range of byte offsets into a command. -/
structure Span where
  start : Nat
  stop : Nat
deriving DecidableEq, Inhabited

/-- The number of bytes in a span. -/
def Span.size (span : Span) : Nat := span.stop - span.start

/-- A token and where it stands. -/
structure SpannedToken where
  token : Token
  span : Span
deriving DecidableEq, Inhabited

end EntityMapper
