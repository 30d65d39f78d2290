import EntityMapper.Command
import EntityMapper.Grammar.Name
import EntityMapper.Query.Intent

/-!
# Clauses of commands

The parts that the statements share: value lists, predicates, orderings and
assignments. Each gives a fragment, so the bound values come in the order of
their placeholders.
-/

namespace EntityMapper.Grammar

/-- Placeholders with commas between them. -/
def parameterize (values : List Value) : Fragment := .join ", " (values.map .bind)

/-- One condition. The bounds of a range become two comparisons. -/
def condition (g : Grammar) : Condition → Fragment
  | .basic column operator value =>
    .lit (g.wrapColumn column ++ " " ++ operator.text ++ " ") ++ .bind value
  | .isIn column values =>
    .lit (g.wrapColumn column ++ " IN (") ++ parameterize values ++ .lit ")"
  | .notIn column values =>
    .lit (g.wrapColumn column ++ " NOT IN (") ++ parameterize values ++ .lit ")"
  | .between column low high =>
    .lit (g.wrapColumn column ++ " >= ") ++ .bind low ++
      .lit (" AND " ++ g.wrapColumn column ++ " <= ") ++ .bind high
  | .isNull column => .lit (g.wrapColumn column ++ " IS NULL")
  | .notNull column => .lit (g.wrapColumn column ++ " IS NOT NULL")
  | .token columns operator values =>
    .lit ("TOKEN(" ++ g.columnize columns ++ ") " ++ operator.text ++ " TOKEN(") ++
      parameterize values ++ .lit ")"
  | .raw text => .lit text

/-- Predicates after the first, each behind its own connector. -/
def moreWheres (g : Grammar) : List Predicate → Fragment
  | [] => .empty
  | p :: rest =>
    .lit (" " ++ p.connector.keyword ++ " ") ++ g.condition p.condition ++
      g.moreWheres rest

/-- A list of predicates. The connector of the first one is not written. -/
def wheres (g : Grammar) : List Predicate → Fragment
  | [] => .empty
  | p :: rest => g.condition p.condition ++ g.moreWheres rest

/-- The select list; an empty one selects every column. -/
def selection (g : Grammar) : Selection → String
  | .all => "*"
  | .columns [] => "*"
  | .columns names => g.columnize names

/-- Ordered columns with commas between them. -/
def orderList (g : Grammar) (orders : List Order) : String :=
  Text.join ", "
    (orders.map fun o => g.wrapColumn o.column ++ " " ++ o.direction.keyword)

def orderClause (g : Grammar) (orders : List Order) : String :=
  if orders.isEmpty then "" else " ORDER BY " ++ g.orderList orders

def groupClause (g : Grammar) (groups : List String) : String :=
  if groups.isEmpty then "" else " GROUP BY " ++ g.columnize groups

/-- A keyword and a number, or nothing. -/
def countClause (keyword : String) : Option Nat → String
  | none => ""
  | some n => keyword ++ Decimal.natText n

/-- Assignments of values to columns. -/
def assignments (g : Grammar) (values : Pairs) : Fragment :=
  .join ", " (values.map fun (column, value) =>
    .lit (g.wrapColumn column ++ " = ") ++ .bind value)

end EntityMapper.Grammar
