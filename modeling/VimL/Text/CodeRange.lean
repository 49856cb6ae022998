namespace VimL.Text

/-!
# Sets of code points

A character class is a sorted list of disjoint runs. A run holds every code point, or every
second one, between its ends: alphabets that alternate capital and small letters need the latter.
-/

/-- Every `step`-th code point from `first` to `last`. -/
structure CodeRange where
  first : Nat
  last : Nat
  step : Nat

namespace CodeRange

def contains (r : CodeRange) (n : Nat) : Bool :=
  decide (r.first ≤ n) && decide (n ≤ r.last) && (n - r.first) % r.step == 0

end CodeRange

/-- Runs in increasing order, so that a search may stop at the first run above its target. -/
abbrev CodeSet := List CodeRange

namespace CodeSet

def contains : CodeSet → Nat → Bool
  | [], _ => false
  | r :: rest, n => if n < r.first then false else r.contains n || contains rest n

/-- The set of whole intervals. -/
def ofIntervals (intervals : List (Nat × Nat)) : CodeSet :=
  intervals.map fun (first, last) => ⟨first, last, 1⟩

end CodeSet

end VimL.Text
