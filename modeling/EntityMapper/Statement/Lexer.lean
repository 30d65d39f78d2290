import EntityMapper.Decimal.Reading
import EntityMapper.Statement.Error

/-!
# Lexing

A command is cut into tokens from the left, each as long as possible, with
blanks skipped between them. A word that spells a keyword is that keyword.
Inside quotes a doubled quote stands for one quote; a quote that is never closed
makes the rest of the command unreadable.
-/

namespace EntityMapper.Token

/-- Blanks between tokens. -/
def isBlank (c : Char) : Bool := c == ' ' || c == '\t' || c == '\r' || c == '\n'

def isNameStart (c : Char) : Bool := Text.isLetter c || c == '_'

def isNameChar (c : Char) : Bool := isNameStart c || Text.isDigit c

/-- The token of a word: the keyword it spells in any letter case, or a name. -/
def ofWord (word : List Char) : Token :=
  match Keyword.ofText? (String.ofList (word.map Text.asciiLower)) with
  | some k => .keyword k
  | none => .name (String.ofList word)

/-- The text up to the closing quote, doubled quotes made single, and what
follows the quote. -/
def unquote? (quote : Char) : List Char → Option (List Char × List Char)
  | [] => none
  | [c] => if c = quote then some ([], []) else none
  | c :: d :: rest =>
    if c = quote then
      if d = quote then
        (unquote? quote rest).map fun (body, more) => (quote :: body, more)
      else some ([], d :: rest)
    else (unquote? quote (d :: rest)).map fun (body, more) => (c :: body, more)

/-- A number, given its sign and what follows it: an integer, or a decimal if a
point with a digit behind it follows the digits. Integers have to fit 64 bits.
-/
def number (sign rest : List Char) : Except (List Char) (Token × List Char) :=
  let digits := rest.takeWhile Text.isDigit
  let after := rest.dropWhile Text.isDigit
  let whole : Except (List Char) (Token × List Char) :=
    match Decimal.readInt64 (sign ++ digits) with
    | .ok n => .ok (.int n, after)
    | .error _ => .error (sign ++ digits)
  match after with
  | '.' :: d :: more =>
    if Text.isDigit d then
      let fraction := (d :: more).takeWhile Text.isDigit
      match Decimal.readBinary64 (sign ++ digits ++ '.' :: fraction) with
      | .ok x => .ok (.float x, (d :: more).dropWhile Text.isDigit)
      | .error _ => .error (sign ++ digits ++ '.' :: fraction)
    else whole
  | _ => whole

/-- A symbol of one or two characters. -/
def symbol? : List Char → Option (Symbol × List Char)
  | '!' :: '=' :: rest => some (.ne, rest)
  | '<' :: '>' :: rest => some (.ne, rest)
  | '<' :: '=' :: rest => some (.le, rest)
  | '>' :: '=' :: rest => some (.ge, rest)
  | '?' :: rest => some (.param, rest)
  | '=' :: rest => some (.eq, rest)
  | '<' :: rest => some (.lt, rest)
  | '>' :: rest => some (.gt, rest)
  | '.' :: rest => some (.dot, rest)
  | ',' :: rest => some (.comma, rest)
  | '(' :: rest => some (.leftParen, rest)
  | ')' :: rest => some (.rightParen, rest)
  | '*' :: rest => some (.star, rest)
  | ';' :: rest => some (.semicolon, rest)
  | _ => none

/-- The token at the front of a text, and what follows it; or the characters
that are none. -/
def next (text : List Char) : Except (List Char) (Token × List Char) :=
  match text with
  | [] => .error []
  | c :: rest =>
    if isNameStart c then
      .ok (ofWord (text.takeWhile isNameChar), text.dropWhile isNameChar)
    else if Text.isDigit c then number [] text
    else if c = '"' then
      match unquote? '"' rest with
      | some (body, more) => .ok (.quotedName (String.ofList body), more)
      | none => .error text
    else if c = '\'' then
      match unquote? '\'' rest with
      | some (body, more) => .ok (.string (String.ofList body), more)
      | none => .error text
    else if c = '-' then
      match rest with
      | d :: _ => if Text.isDigit d then number ['-'] rest else .error ['-']
      | [] => .error ['-']
    else
      match symbol? text with
      | some (s, more) => .ok (.symbol s, more)
      | none => .error [c]

/-- The tokens of a text that begins at a byte offset. The fuel bounds the
number of tokens; each takes at least one character. -/
def readFrom : (fuel : Nat) → (offset : Nat) → List Char →
    Except SyntaxError (List SpannedToken)
  | 0, _, _ => .ok []
  | fuel + 1, offset, text =>
    let start := offset + Text.byteSize (text.takeWhile isBlank)
    match text.dropWhile isBlank with
    | [] => .ok []
    | text =>
      match next text with
      | .error bad =>
        .error
          ⟨.unknownText (String.ofList bad), ⟨start, start + Text.byteSize bad⟩⟩
      | .ok (token, rest) =>
        let stop := start + Text.byteSize (text.take (text.length - rest.length))
        match readFrom fuel stop rest with
        | .ok tokens => .ok (⟨token, ⟨start, stop⟩⟩ :: tokens)
        | .error e => .error e

/-- The tokens of a command, or the first text in it that is no token. -/
def read (source : String) : Except SyntaxError (List SpannedToken) :=
  readFrom (source.length + 1) 0 source.toList

end EntityMapper.Token
