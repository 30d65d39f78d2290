import EntityMapper.Json.Document
import EntityMapper.Json.Number
import EntityMapper.Text.Hex

/-!
# Reading JSON text

Reading happens in two steps. The text is first read into a tree that keeps what
is written: members in their order with repetitions, numbers and strings that
have no value. A strict reading refuses such numbers and strings, and more than
127 levels of nesting, at the place where they stand; a lenient one lets them
pass, for parts of a text that are to be skipped. The tree of a strict reading
is then a document.
-/

namespace EntityMapper.Json

/-- A JSON text as it is written. A number out of range and a string with an
unpaired surrogate have no value. -/
inductive Tree
  | null
  | bool (value : Bool)
  | number (value : Option Number)
  | string (value : Option String)
  | array (items : List Tree)
  | object (members : List (Option String × Tree))

/-- White space between the parts of a text. -/
def isSpace (c : Char) : Bool := c == ' ' || c == '\n' || c == '\t' || c == '\r'

def skipSpace (text : List Char) : List Char := text.dropWhile isSpace

/-- Read the remaining letters of a word. -/
def readWord : List Char → Reader Unit
  | [], text => .ok ((), text)
  | _ :: _, [] => .error (.here .endInValue [])
  | w :: word, c :: rest =>
    if w = c then readWord word rest else .error (.next .expectedWord (c :: rest))

/-- Read the four digits of a code unit. -/
def readCodeUnit : Reader Nat := fun text =>
  match text with
  | a :: b :: c :: d :: rest =>
    match Text.hexValue? a, Text.hexValue? b, Text.hexValue? c, Text.hexValue? d with
    | some a, some b, some c, some d => .ok (((a * 16 + b) * 16 + c) * 16 + d, rest)
    | _, _, _, _ => .error ⟨.invalidEscape, Text.byteSize text - 4⟩
  | _ =>
    if 4 ≤ Text.byteSize text then .error ⟨.invalidEscape, Text.byteSize text - 4⟩
    else .error ⟨.endInString, 0⟩

/-- The character that a letter after a backslash stands for. -/
def escapeValue? (c : Char) : Option Char :=
  if c = '"' then some '"'
  else if c = '\\' then some '\\'
  else if c = '/' then some '/'
  else if c = 'b' then some (Char.ofNat 8)
  else if c = 'f' then some (Char.ofNat 12)
  else if c = 'n' then some '\n'
  else if c = 'r' then some '\r'
  else if c = 't' then some '\t'
  else none

def isLeading (unit : Nat) : Bool :=
  decide (0xd800 ≤ unit) && decide (unit ≤ 0xdbff)

def isTrailing (unit : Nat) : Bool :=
  decide (0xdc00 ≤ unit) && decide (unit ≤ 0xdfff)

/-- The character of a code unit escape, after its letter. A leading surrogate
has to be followed by the escape of a trailing one. A lenient reading takes an
unpaired surrogate for no character. -/
def readUnitEscape (strict : Bool) : Reader (Option Char) := fun text => do
  let (unit, rest) ← readCodeUnit text
  if isTrailing unit then
    if strict then .error (.here .loneSurrogate rest) else .ok (none, rest)
  else if isLeading unit then
    match rest with
    | [] => if strict then .error (.here .endInString []) else .ok (none, [])
    | '\\' :: after =>
      match after with
      | [] => if strict then .error (.here .endInString []) else .ok (none, rest)
      | 'u' :: digits =>
        if strict then
          let (second, final) ← readCodeUnit digits
          if isTrailing second then
            .ok (some (Char.ofNat
                (0x10000 + (unit - 0xd800) * 0x400 + (second - 0xdc00))), final)
          else .error (.here .loneSurrogate final)
        else
          match readCodeUnit digits with
          | .ok (second, final) =>
            if isTrailing second then
              .ok (some (Char.ofNat (0x10000 + (unit - 0xd800) * 0x400 +
                    (second - 0xdc00))), final)
            else .ok (none, rest)
          | .error _ => .ok (none, rest)
      | c :: more =>
        if strict then .error (.next .missingSurrogate (c :: more))
          else .ok (none, rest)
    | c :: more =>
      if strict then .error (.next .missingSurrogate (c :: more))
        else .ok (none, rest)
  else .ok (some (Char.ofNat unit), rest)

/-- The rest of a string after its opening quote. The characters read so far are
in reverse; they are lost once one of them has no value. The fuel bounds the
number of characters. -/
def readStringTail (strict : Bool) :
    Nat → Option (List Char) → Reader (Option String)
  | 0, _, text => .error (.here .endInString text)
  | fuel + 1, read, text =>
    match text with
    | [] => .error (.here .endInString [])
    | '"' :: rest => .ok (read.map fun chars => String.ofList chars.reverse, rest)
    | '\\' :: [] => .error (.here .endInString [])
    | '\\' :: 'u' :: rest =>
      match readUnitEscape strict rest with
      | .ok (some c, more) => readStringTail strict fuel (read.map (c :: ·)) more
      | .ok (none, more) => readStringTail strict fuel none more
      | .error fault => .error fault
    | '\\' :: c :: rest =>
      match escapeValue? c with
      | some value => readStringTail strict fuel (read.map (value :: ·)) rest
      | none => .error (.next .invalidEscape (c :: rest))
    | c :: rest =>
      if c.toNat < 32 then .error (.here .controlCharacter rest)
      else readStringTail strict fuel (read.map (c :: ·)) rest

/-- A string after its opening quote. -/
def readString (strict : Bool) : Reader (Option String) := fun text =>
  readStringTail strict (text.length + 1) (some []) text

/-- The colon after a member's name. -/
def readColon : Reader Unit := fun text =>
  match skipSpace text with
  | ':' :: rest => .ok ((), rest)
  | [] => .error (.next .endInObject [])
  | rest => .error (.next .expectedColon rest)

mutual

/-- Read a value. `depth` is one more than the number of levels that may still
be opened, and the fuel bounds the number of steps. -/
def readTree (strict : Bool) : (fuel : Nat) → (depth : Nat) → Reader Tree
  | 0, _, text => .error (.next .endInValue text)
  | fuel + 1, depth, text =>
    match skipSpace text with
    | [] => .error (.next .endInValue [])
    | 'n' :: rest =>
      (readWord ['u', 'l', 'l'] rest).map fun (_, more) => (.null, more)
    | 't' :: rest =>
      (readWord ['r', 'u', 'e'] rest).map fun (_, more) => (.bool true, more)
    | 'f' :: rest =>
      (readWord ['a', 'l', 's', 'e'] rest).map fun (_, more) => (.bool false, more)
    | '-' :: rest =>
      (readNumber strict true rest).map fun (n, more) => (.number n, more)
    | '"' :: rest => (readString strict rest).map fun (s, more) => (.string s, more)
    | '[' :: rest =>
      if strict && decide (depth ≤ 1) then .error (.next .tooDeep ('[' :: rest))
      else
        (readItems strict fuel (depth - 1) true [] rest).map fun (items, more) =>
          (.array items, more)
    | '\x7b' :: rest =>
      if strict && decide (depth ≤ 1) then .error (.next .tooDeep ('\x7b' :: rest))
      else (readMembers strict fuel (depth - 1) true [] rest).map
        fun (members, more) => (.object members, more)
    | c :: rest =>
      if Text.isDigit c then
        (readNumber strict false (c :: rest)).map fun (n, more) => (.number n, more)
      else .error (.next .expectedValue (c :: rest))

/-- Read the items of an array up to its bracket; the items so far are in
reverse. -/
def readItems (strict : Bool) :
    (fuel : Nat) → (depth : Nat) → (first : Bool) → List Tree → Reader (List Tree)
  | 0, _, _, _, text => .error (.next .endInArray text)
  | fuel + 1, depth, first, items, text =>
    let item (rest : List Char) : Except Fault (List Tree × List Char) :=
      match readTree strict fuel depth rest with
      | .ok (tree, more) => readItems strict fuel depth false (tree :: items) more
      | .error fault => .error fault
    match skipSpace text with
    | [] => .error (.next .endInArray [])
    | ']' :: rest => .ok (items.reverse, rest)
    | c :: rest =>
      if first then item (c :: rest)
      else if c = ',' then
        match skipSpace rest with
        | [] => .error (.next .endInValue [])
        | ']' :: more => .error (.next .trailingComma (']' :: more))
        | more => item more
      else .error (.next .expectedCommaOrBracket (c :: rest))

/-- Read the members of an object up to its brace; the members so far are in
reverse. -/
def readMembers (strict : Bool) :
    (fuel : Nat) → (depth : Nat) → (first : Bool) → List (Option String × Tree) →
      Reader (List (Option String × Tree))
  | 0, _, _, _, text => .error (.next .endInObject text)
  | fuel + 1, depth, first, members, text =>
    let member (rest : List Char) :
        Except Fault (List (Option String × Tree) × List Char) :=
      match readString strict rest with
      | .error fault => .error fault
      | .ok (name, afterName) =>
        match readColon afterName with
        | .error fault => .error fault
        | .ok (_, afterColon) =>
          match readTree strict fuel depth afterColon with
          | .ok (tree, more) =>
            readMembers strict fuel depth false ((name, tree) :: members) more
          | .error fault => .error fault
    match skipSpace text with
    | [] => .error (.next .endInObject [])
    | '\x7d' :: rest => .ok (members.reverse, rest)
    | c :: rest =>
      if first then
        if c = '"' then member rest else .error (.next .nameNotString (c :: rest))
      else if c = ',' then
        match skipSpace rest with
        | [] => .error (.next .endInValue [])
        | '"' :: more => member more
        | '\x7d' :: more => .error (.next .trailingComma ('\x7d' :: more))
        | more => .error (.next .nameNotString more)
      else .error (.next .expectedCommaOrBrace (c :: rest))

end

/-- The number of nested levels a strict reading allows, and one. -/
def levels : Nat := 128

/-- Read a whole text into a tree; nothing but white space may follow the value. -/
def Tree.read (strict : Bool) (text : List Char) : Except Fault Tree :=
  match readTree strict (2 * text.length + 2) levels text with
  | .error fault => .error fault
  | .ok (tree, rest) =>
    match skipSpace rest with
    | [] => .ok tree
    | more => .error (.next .trailingCharacters more)

mutual

/-- The document of a tree, if every part of it has a value and it opens fewer
levels than `depth`. -/
def Tree.document? (depth : Nat) : Tree → Option Document
  | .null => some .null
  | .bool b => some (.bool b)
  | .number (some (.int n)) => some (.int n)
  | .number (some (.float x)) => some (.float x)
  | .number none => none
  | .string (some s) => some (.string s)
  | .string none => none
  | .array items =>
    if depth ≤ 1 then none else (Tree.documents? (depth - 1) items).map .array
  | .object members =>
    if depth ≤ 1 then none
      else (Tree.members? (depth - 1) members).map Document.ofMembers

def Tree.documents? (depth : Nat) : List Tree → Option (List Document)
  | [] => some []
  | tree :: rest =>
    match Tree.document? depth tree, Tree.documents? depth rest with
    | some d, some ds => some (d :: ds)
    | _, _ => none

def Tree.members? (depth : Nat) :
    List (Option String × Tree) → Option (List (String × Document))
  | [] => some []
  | (some name, tree) :: rest =>
    match Tree.document? depth tree, Tree.members? depth rest with
    | some d, some ds => some ((name, d) :: ds)
    | _, _ => none
  | (none, _) :: _ => none

end

/-- Read a whole text as a document. -/
def Document.read (text : List Char) : Except Fault Document :=
  match Tree.read true text with
  | .error fault => .error fault
  | .ok tree =>
    match tree.document? levels with
    | some document => .ok document
    | none => .error (.here .tooDeep [])

end EntityMapper.Json
