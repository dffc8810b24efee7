/-!
# Sets of code points

A class of characters is a list of closed ranges of code points in increasing order.
-/

namespace TinyLang

/-- Closed ranges of code points, in increasing order and apart from each other. -/
abbrev CodeRanges := List (Nat × Nat)

/-- Whether a code point lies in one of the ranges. The search ends at the first range that
starts after it. -/
def CodeRanges.contains : CodeRanges → Nat → Bool
  | [], _ => false
  | (low, high) :: rest, c => if c < low then false else c ≤ high || contains rest c

end TinyLang
