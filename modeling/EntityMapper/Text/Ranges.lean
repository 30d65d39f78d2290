/-!
# Sets of code points

A set of code points is given by its boundaries: the points at which membership
changes, in increasing order, the first of them being the least member. A point
is a member iff an odd number of boundaries lie at or below it.
-/

namespace EntityMapper.Text

/-- Membership in the set with the given boundaries. -/
def inBoundaries (boundaries : List Nat) (point : Nat) : Bool :=
  (boundaries.takeWhile fun boundary => decide (boundary ≤ point)).length % 2 == 1

end EntityMapper.Text
