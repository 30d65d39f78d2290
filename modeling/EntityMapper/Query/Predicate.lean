import EntityMapper.Query.Operator
import EntityMapper.Value

/-!
# Predicates

A predicate is one filter condition with the connector that stands before it in
a list. Its bound values are listed in the order of their placeholders.
-/

namespace EntityMapper

/-- The shape of a filter condition. -/
inductive Condition
  /-- A column against one value. -/
  | basic (column : String) (operator : Operator) (value : Value)
  /-- A column among values. -/
  | isIn (column : String) (values : List Value)
  /-- A column among none of the values. -/
  | notIn (column : String) (values : List Value)
  /-- A column within a closed range. -/
  | between (column : String) (low high : Value)
  | isNull (column : String)
  | notNull (column : String)
  /-- The partition token of columns against the token of values. -/
  | token (columns : List String) (operator : Operator) (values : List Value)
  /-- Command text that is taken as it is. -/
  | raw (text : String)
deriving BEq, Inhabited

/-- A condition and the connector before it. The connector of the first
predicate of a list has no effect. -/
structure Predicate where
  connector : Connector
  condition : Condition
deriving BEq, Inhabited

/-- The bound values of a condition, in the order of their placeholders. -/
def Condition.bindings : Condition → List Value
  | .basic _ _ value => [value]
  | .isIn _ values => values
  | .notIn _ values => values
  | .between _ low high => [low, high]
  | .isNull _ => []
  | .notNull _ => []
  | .token _ _ values => values
  | .raw _ => []

/-- The number of placeholders of a condition. -/
def Condition.placeholderCount : Condition → Nat
  | .basic _ _ _ => 1
  | .isIn _ values => values.length
  | .notIn _ values => values.length
  | .between _ _ _ => 2
  | .isNull _ => 0
  | .notNull _ => 0
  | .token _ _ values => values.length
  | .raw _ => 0

namespace Predicate

def bindings (p : Predicate) : List Value := p.condition.bindings

def placeholderCount (p : Predicate) : Nat := p.condition.placeholderCount

/-- The bound values of a list of predicates, in the order of their placeholders. -/
def allBindings (predicates : List Predicate) : List Value :=
  predicates.flatMap bindings

end Predicate

end EntityMapper
