import EntityMapper.Store.Evaluation

/-!
# Sorting of rows

Rows are sorted by insertion, the sorted part being searched from its end. Equal
rows keep their order.
-/

namespace EntityMapper.Store

/-- Put an element into a list that is sorted from the greatest down, behind
those it precedes. -/
def insertFromEnd (less : α → α → Bool) (x : α) : List α → List α
  | [] => [x]
  | y :: rest => if less x y then y :: insertFromEnd less x rest else x :: y :: rest

/-- Sort a list, equal elements keeping their order. -/
def stableSort (less : α → α → Bool) (items : List α) : List α :=
  (items.foldl (fun sorted x => insertFromEnd less x sorted) []).reverse

/-- The order of two rows by columns and directions; the first column that tells
them apart decides. -/
def rowOrder : List (String × Direction) → Row → Row → Ordering
  | [], _, _ => .eq
  | (column, direction) :: rest, a, b =>
    let order := sortOrder (cell a column) (cell b column)
    let directed := match direction with
      | .asc => order
      | .desc => order.swap
    directed.then (rowOrder rest a b)

/-- Rows in the order that a query asks for. -/
def sortRows (orders : List (String × Direction)) (rows : List Row) : List Row :=
  stableSort (fun a b => rowOrder orders a b == .lt) rows

end EntityMapper.Store
