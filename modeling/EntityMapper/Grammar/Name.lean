import EntityMapper.Dialect
import EntityMapper.Text.Ascii
import EntityMapper.Text.Blank
import EntityMapper.Text.Join

/-!
# Names in commands

How a grammar writes the names of tables and columns. A name is a path of
segments between dots. The relational dialect quotes every segment; the
partitioned one leaves plain lower-case names bare. A quote inside a quoted
segment is written twice. A column reference may carry a label, and a function
call is passed on as it is.
-/

namespace EntityMapper

/-- A dialect, and the keyspace or schema that qualifies tables without one. -/
structure Grammar where
  dialect : Dialect
  qualifier : Option String := none
deriving DecidableEq, Inhabited

namespace Grammar

/-- The characters of a bare name after its first. -/
def isPlainChar (c : Char) : Bool := Text.isLower c || Text.isDigit c || c == '_'

/-- Whether the partitioned dialect writes a name bare: small letters, digits
and underscores, not starting with a digit. -/
def isPlainName : List Char → Bool
  | [] => false
  | c :: rest => (Text.isLower c || c == '_') && rest.all isPlainChar

/-- Write every double quote twice. -/
def doubleQuotes (name : List Char) : List Char :=
  name.flatMap fun c => if c = '"' then ['"', '"'] else [c]

/-- A segment between double quotes. -/
def quotedSegment (name : List Char) : List Char :=
  '"' :: doubleQuotes name ++ ['"']

/-- A segment as the grammar writes it. -/
def segmentChars (g : Grammar) (name : List Char) : List Char :=
  match g.dialect with
  | .cql => if isPlainName name then name else quotedSegment name
  | .sql => quotedSegment name

/-- A single segment, whatever characters it holds. -/
def quoteName (g : Grammar) (name : String) : String :=
  String.ofList (g.segmentChars name.toList)

/-- The segments of a path. There is always at least one, and it may be empty. -/
def segments : List Char → List (List Char)
  | [] => [[]]
  | c :: rest =>
    if c = '.' then [] :: segments rest
    else match segments rest with
      | [] => [[c]]
      | segment :: more => (c :: segment) :: more

/-- Segments with dots between them. -/
def joinDots : List (List Char) → List Char
  | [] => []
  | [segment] => segment
  | segment :: rest => segment ++ '.' :: joinDots rest

/-- A table name, qualified if it has a single segment and the grammar has a
qualifier. -/
def wrapTable (g : Grammar) (table : String) : String :=
  let wrapped := joinDots ((segments table.toList).map g.segmentChars)
  match g.qualifier with
  | some qualifier =>
    if table.toList.contains '.' then String.ofList wrapped
    else String.ofList (g.segmentChars qualifier.toList ++ '.' :: wrapped)
  | none => String.ofList wrapped

/-- A column path without a label. A path with an opening bracket is a function
call and stays as it is; a segment that is a star stays bare. -/
def pathChars (g : Grammar) (path : List Char) : List Char :=
  if path.contains '(' then path
  else joinDots ((segments path).map fun segment =>
    if segment = ['*'] then segment else g.segmentChars segment)

/-- Cut a column reference at the first ` as `, in either case of letters. -/
def splitLabel? : List Char → Option (List Char × List Char)
  | [] => none
  | c :: rest =>
    match c :: rest with
    | ' ' :: a :: s :: ' ' :: label =>
      if Text.asciiLower a = 'a' ∧ Text.asciiLower s = 's' then some ([], label)
      else (splitLabel? rest).map fun (path, label) => (c :: path, label)
    | _ => (splitLabel? rest).map fun (path, label) => (c :: path, label)

/-- A column reference: a path, possibly with a label. Blanks around the two
parts are dropped. -/
def columnChars (g : Grammar) (column : List Char) : List Char :=
  match splitLabel? column with
  | some (path, label) =>
    g.pathChars (Text.trimChars path) ++ [' ', 'A', 'S', ' '] ++
      g.segmentChars (Text.trimChars label)
  | none => g.pathChars column

def wrapColumn (g : Grammar) (column : String) : String :=
  String.ofList (g.columnChars column.toList)

/-- Column references with commas between them. -/
def columnize (g : Grammar) (columns : List String) : String :=
  Text.join ", " (columns.map g.wrapColumn)

end Grammar

end EntityMapper
