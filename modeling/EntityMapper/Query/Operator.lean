import EntityMapper.Text.Ascii
import EntityMapper.Text.Blank

/-!
# Comparison operators, connectors and directions
-/

namespace EntityMapper

/-- A comparison between a column and a value. -/
inductive Operator
  | eq
  | ne
  | lt
  | le
  | gt
  | ge
  | like
  | contains
  | containsKey
deriving DecidableEq, Inhabited

namespace Operator

/-- How the operator is written in a command. -/
def text : Operator → String
  | .eq => "="
  | .ne => "!="
  | .lt => "<"
  | .le => "<="
  | .gt => ">"
  | .ge => ">="
  | .like => "LIKE"
  | .contains => "CONTAINS"
  | .containsKey => "CONTAINS KEY"

/-- Read an operator, ignoring blanks around it and the case of ASCII letters.
Equality and inequality have two spellings each. -/
def ofText? (text : String) : Option Operator :=
  match Text.toAsciiUpper (Text.trim text) with
  | "=" => some .eq
  | "==" => some .eq
  | "!=" => some .ne
  | "<>" => some .ne
  | "<" => some .lt
  | "<=" => some .le
  | ">" => some .gt
  | ">=" => some .ge
  | "LIKE" => some .like
  | "CONTAINS" => some .contains
  | "CONTAINS KEY" => some .containsKey
  | _ => none

/-- Whether the operator is one of the six comparisons by order and equality. -/
def isComparison : Operator → Bool
  | .eq | .ne | .lt | .le | .gt | .ge => true
  | .like | .contains | .containsKey => false

end Operator

/-- The connector in front of a predicate. -/
inductive Connector
  | and
  | or
deriving DecidableEq, Inhabited

def Connector.keyword : Connector → String
  | .and => "AND"
  | .or => "OR"

/-- A sort direction. -/
inductive Direction
  | asc
  | desc
deriving DecidableEq, Inhabited

def Direction.name : Direction → String
  | .asc => "asc"
  | .desc => "desc"

def Direction.keyword : Direction → String
  | .asc => "ASC"
  | .desc => "DESC"

end EntityMapper
