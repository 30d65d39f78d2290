import EntityMapper.Statement.Lexer
import EntityMapper.Statement.Tree

/-!
# Parsing

A recursive descent over the tokens of a command. The parser's state is the list
of tokens that are left, the number of placeholders met so far, which is the
position of the next one, and the size of the command, where an unexpected end
is reported. AND binds tighter than OR.
-/

namespace EntityMapper

/-- Where a parser stands. -/
structure Cursor where
  tokens : List SpannedToken
  placeholders : Nat
  size : Nat

/-- A parser step: a result and the cursor after it, or a syntax error. -/
abbrev Parser := StateT Cursor (Except SyntaxError)

namespace Parser

def fail (fault : SyntaxFault) (span : Span) : Parser α := throw ⟨fault, span⟩

/-- Take the next token; there has to be one. -/
def nextToken : Parser SpannedToken := fun cursor =>
  match cursor.tokens with
  | [] => .error ⟨.endOfInput, ⟨cursor.size, cursor.size⟩⟩
  | token :: rest => .ok (token, { cursor with tokens := rest })

/-- Whether the next token is the given one. -/
def check (token : Token) : Parser Bool := fun cursor =>
  match cursor.tokens with
  | [] => .ok (false, cursor)
  | next :: _ => .ok (decide (next.token = token), cursor)

/-- Take the next token if it is the given one. -/
def eat (token : Token) : Parser Bool := fun cursor =>
  match cursor.tokens with
  | [] => .ok (false, cursor)
  | next :: rest =>
    if next.token = token then .ok (true, { cursor with tokens := rest })
      else .ok (false, cursor)

/-- Take the next token, which has to be the given one. -/
def expect (token : Token) : Parser SpannedToken := do
  let next ← nextToken
  if next.token = token then return next
  fail (.expected token next.token) next.span

def eatKeyword (k : Keyword) : Parser Bool := eat (.keyword k)

def eatSymbol (s : Symbol) : Parser Bool := eat (.symbol s)

def expectKeyword (k : Keyword) : Parser Unit := do discard (expect (.keyword k))

def expectSymbol (s : Symbol) : Parser Unit := do discard (expect (.symbol s))

/-- The name a token stands for: bare names fold to small letters, quoted ones
stay as they are, and soft keywords are names too. -/
def nameOf? : Token → Option String
  | .name text => some (Text.toAsciiLower text)
  | .quotedName text => some text
  | .keyword k => if k.isSoft then some k.text else none
  | _ => none

def expectName : Parser String := do
  let next ← nextToken
  match nameOf? next.token with
  | some name => return name
  | none => fail (.expectedName next.token) next.span

/-- A number of rows or seconds. -/
def expectCount : Parser Nat := do
  let next ← nextToken
  match next.token with
  | .int n =>
    if 0 ≤ n.toInt then return n.toInt.toNat
      else fail (.expectedCount next.token) next.span
  | _ => fail (.expectedCount next.token) next.span

/-- More items, each behind the separator. -/
def moreItems (separator : Token) (item : Parser α) : Nat → Parser (List α)
  | 0 => return []
  | fuel + 1 => do
    if ← eat separator then
      let first ← item
      let rest ← moreItems separator item fuel
      return first :: rest
    else return []

/-- One item or more, with separators between them. Every separator is a token,
so the tokens that are left bound their number. -/
def separated (separator : Token) (item : Parser α) : Parser (List α) := do
  let first ← item
  let cursor ← get
  let rest ← moreItems separator item cursor.tokens.length
  return first :: rest

def commaSeparated (item : Parser α) : Parser (List α) :=
  separated (.symbol .comma) item

/-- The segments of a table name after the first; the last one is kept. -/
def tableTail : Nat → String → Parser String
  | 0, name => return name
  | fuel + 1, name => do
    if ← eatSymbol .dot then tableTail fuel (← expectName) else return name

/-- A table name without its qualifier. -/
def tableName : Parser String := do
  let name ← expectName
  tableTail (← get).tokens.length name

/-- The segments of a column reference after the first; a star ends it. -/
def columnTail : Nat → String → Parser String
  | 0, name => return name
  | fuel + 1, name => do
    if ← eatSymbol .dot then
      if ← eatSymbol .star then return "*"
      columnTail fuel (← expectName)
    else return name

/-- A column reference, of which the last segment is kept. -/
def columnName : Parser String := do
  if ← eatSymbol .star then return "*"
  let name ← expectName
  columnTail (← get).tokens.length name

def columnList : Parser (List String) := commaSeparated columnName

/-- A value: a placeholder takes the next position. -/
def operand : Parser Operand := do
  let next ← nextToken
  match next.token with
  | .symbol .param =>
    let cursor ← get
    set { cursor with placeholders := cursor.placeholders + 1 }
    return .param cursor.placeholders
  | .int n => return .literal (.int n)
  | .float x => return .literal (.float x)
  | .string text => return .literal (.text text)
  | .keyword .trueLiteral => return .literal (.bool true)
  | .keyword .falseLiteral => return .literal (.bool false)
  | .keyword .null => return .literal .null
  | found => fail (.expectedValue found) next.span

def operandList : Parser (List Operand) := commaSeparated operand

/-- The comparison a symbol stands for. -/
def comparison? : Token → Option Operator
  | .symbol .eq => some .eq
  | .symbol .ne => some .ne
  | .symbol .lt => some .lt
  | .symbol .le => some .le
  | .symbol .gt => some .gt
  | .symbol .ge => some .ge
  | _ => none

def comparison : Parser Operator := do
  let next ← nextToken
  match comparison? next.token with
  | some operator => return operator
  | none => fail (.expectedComparison next.token) next.span

/-- The bracketed operands of a membership test; there may be none. -/
def memberList (column : String) (negated : Bool) : Parser Filter := do
  expectSymbol .leftParen
  let operands ← if ← check (.symbol .rightParen) then pure [] else operandList
  expectSymbol .rightParen
  return .member column negated operands

/-- A comparison of partition tokens, after the first word. -/
def tokenFilter : Parser Filter := do
  expectSymbol .leftParen
  let columns ← columnList
  expectSymbol .rightParen
  let operator ← comparison
  expectKeyword .token
  expectSymbol .leftParen
  let operands ← operandList
  expectSymbol .rightParen
  return .token columns operator operands

/-- A condition on one column. -/
def columnFilter : Parser Filter := do
  let column ← columnName
  let next ← nextToken
  match next.token with
  | .keyword .like => return .compare column .like (← operand)
  | .keyword .contains =>
    let operator := if ← eatKeyword .key then Operator.containsKey else .contains
    return .compare column operator (← operand)
  | .keyword .in => memberList column false
  | .keyword .not =>
    expectKeyword .in
    memberList column true
  | .keyword .is =>
    let negated ← eatKeyword .not
    expectKeyword .null
    return .isNull column negated
  | token =>
    match comparison? token with
    | some operator => return .compare column operator (← operand)
    | none => fail (.expectedPredicate token) next.span

/-- Several terms as one filter; a single term stands for itself. -/
def conjunction : List Filter → Filter
  | [term] => term
  | terms => .all terms

def disjunction : List Filter → Filter
  | [term] => term
  | terms => .any terms

/-- A filter. The fuel bounds the nesting of brackets. -/
def filterWithin : Nat → Parser Filter
  | 0 => do
    let cursor ← get
    fail .endOfInput ⟨cursor.size, cursor.size⟩
  | fuel + 1 => do
    let term : Parser Filter := do
      if ← eatSymbol .leftParen then
        let inner ← filterWithin fuel
        expectSymbol .rightParen
        return inner
      else if ← eatKeyword .token then tokenFilter
      else columnFilter
    let terms ← separated (.keyword .or) do
      return conjunction (← separated (.keyword .and) term)
    return disjunction terms

/-- A filter. Each nesting takes a bracket, so the tokens that are left bound it. -/
def filter : Parser Filter := do filterWithin ((← get).tokens.length + 1)

/-- A filter behind a keyword, if the keyword is there. -/
def filterAfter (k : Keyword) : Parser (Option Filter) := do
  if ← eatKeyword k then return some (← filter) else return none

/-- A number behind a keyword, if the keyword is there. -/
def countAfter (k : Keyword) : Parser (Option Nat) := do
  if ← eatKeyword k then return some (← expectCount) else return none

/-- The lifetime clause. -/
def ttl : Parser (Option Nat) := do
  if ← eatKeyword .using then
    expectKeyword .ttl
    return some (← expectCount)
  else return none

/-- Whether the list goes on like a call of the count function. -/
def atCount : Parser Bool := fun cursor =>
  match cursor.tokens with
  | first :: second :: _ =>
    .ok (decide (first.token = .keyword .count) &&
      decide (second.token = .symbol .leftParen), cursor)
  | _ => .ok (false, cursor)

/-- A column of a select list; a star has no column of its own. -/
def projectedColumn : Parser (Option ProjectedColumn) := do
  let name ← columnName
  if name = "*" then return none
  let label ← if ← eatKeyword .as then some <$> expectName else pure none
  return some ⟨name, label⟩

/-- A select list. A star anywhere in it selects every column. -/
def projection : Parser Projection := do
  if ← eatSymbol .star then return .all
  if ← atCount then
    expectKeyword .count
    expectSymbol .leftParen
    expectSymbol .star
    expectSymbol .rightParen
    return .count
  let columns ← commaSeparated projectedColumn
  if columns.any Option.isNone then return .all
  return .columns (columns.filterMap id)

/-- An ordering; ascending unless it says otherwise. -/
def orderItem : Parser (String × Direction) := do
  let column ← columnName
  if ← eatKeyword .desc then return (column, .desc)
  discard (eatKeyword .asc)
  return (column, .asc)

def select : Parser SelectStatement := do
  let projection ← projection
  expectKeyword .from
  let table ← tableName
  let filter ← filterAfter .where
  let groupBy ← if ← eatKeyword .group then
    expectKeyword .by
    columnList
  else pure []
  let orderBy ← if ← eatKeyword .order then
    expectKeyword .by
    commaSeparated orderItem
  else pure []
  let limit ← countAfter .limit
  let offset ← countAfter .offset
  let allowFiltering ← if ← eatKeyword .allow then
    expectKeyword .filtering
    pure true
  else pure false
  return {
    table, projection, filter, groupBy, orderBy, limit, offset, allowFiltering }

/-- The clause that keeps an insert from overwriting, in either dialect. -/
def ifAbsent : Parser Bool := do
  if ← eatKeyword .if then
    expectKeyword .not
    expectKeyword .exists
    return true
  else if ← eatKeyword .on then
    expectKeyword .conflict
    expectKeyword .do
    expectKeyword .nothing
    return true
  else return false

def insert : Parser InsertStatement := do
  expectKeyword .into
  let table ← tableName
  expectSymbol .leftParen
  let columns ← columnList
  expectSymbol .rightParen
  expectKeyword .values
  expectSymbol .leftParen
  let values ← operandList
  let close ← expect (.symbol .rightParen)
  if columns.length ≠ values.length then
    fail (.columnCount columns.length values.length) close.span
  let ifNotExists ← ifAbsent
  let ttl ← ttl
  return { table, columns, values, ifNotExists, ttl }

def assignment : Parser (String × Operand) := do
  let column ← columnName
  expectSymbol .eq
  return (column, ← operand)

def update : Parser UpdateStatement := do
  let table ← tableName
  let ttl ← ttl
  expectKeyword .set
  let assignments ← commaSeparated assignment
  let filter ← filterAfter .where
  let conditions ← filterAfter .if
  return { table, ttl, assignments, filter, conditions }

def delete : Parser DeleteStatement := do
  let columns ← if ← check (.keyword .from) then pure [] else columnList
  expectKeyword .from
  let table ← tableName
  let filter ← filterAfter .where
  let conditions ← filterAfter .if
  return { table, columns, filter, conditions }

def statement : Parser Statement := do
  let first ← nextToken
  match first.token with
  | .keyword .select => return .select (← select)
  | .keyword .insert => return .insert (← insert)
  | .keyword .update => return .update (← update)
  | .keyword .delete => return .delete (← delete)
  | found => fail (.expectedStatement found) first.span

/-- The end of a command: nothing, or one semicolon. -/
def finish : Parser Unit := do
  discard (eatSymbol .semicolon)
  match (← get).tokens with
  | [] => return
  | next :: _ => fail (.trailing next.token) next.span

def command : Parser ParsedCommand := do
  let statement ← statement
  finish
  return ⟨statement, (← get).placeholders⟩

end Parser

/-- Parse a command. -/
def ParsedCommand.parse (source : String) : Except SyntaxError ParsedCommand := do
  let tokens ← Token.read source
  let (command, _) ← Parser.command.run ⟨tokens, 0, source.utf8ByteSize⟩
  return command

end EntityMapper
