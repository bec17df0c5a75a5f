/-!
# Sets of code points

A property of characters is given by the code points that have it: closed ranges, rising and
apart from one another.

## Main definitions

* `Ranges` — a set of code points.
* `Ranges.holds` — membership.
-/

namespace Redline.Text

/-- A set of code points, as rising closed ranges. -/
abbrev Ranges := List (Nat × Nat)

/-- Membership.  The ranges rise, so the search ends at the first one that lies beyond `n`. -/
def Ranges.holds : Ranges → Nat → Bool
  | [], _ => false
  | (first, last) :: rest, n =>
    if n < first then false else if n ≤ last then true else Ranges.holds rest n

end Redline.Text
