/-!
# Sets of characters

A set of characters is written as its *boundaries*: the sorted code points at
which membership changes, beginning outside the set. Sets that contain many
long runs have short lists of boundaries.
-/

namespace ResultHints

/-- A set of code points, given by the points where membership changes. -/
structure CharSet where
  boundaries : List Nat

namespace CharSet

/-- Whether `n` lies inside, when membership before the first of the boundaries
    is `inside`. -/
def holds (n : Nat) : Bool → List Nat → Bool
  | inside, [] => inside
  | inside, b :: bs => if n < b then inside else holds n (!inside) bs

/-- Whether a character belongs to the set. -/
def mem (s : CharSet) (c : Char) : Bool := holds c.toNat false s.boundaries

end CharSet

end ResultHints
