/-!
# Sets of characters

A set of characters is a table of code point ranges in increasing order, both ends
included. Membership is decided by binary search.
-/

namespace StepCalc.Text

structure CharSet where
  ranges : Array (Nat × Nat)

namespace CharSet

/-- Looks for a code point among the ranges from number `lo` on and before number `hi`. -/
def search (s : CharSet) (n lo hi : Nat) : Bool :=
  if lo < hi then
    let mid := (lo + hi) / 2
    match s.ranges[mid]? with
    | none => false
    | some (first, last) =>
      if n < first then s.search n lo mid
      else if last < n then s.search n (mid + 1) hi
      else true
  else false
termination_by hi - lo

def contains (s : CharSet) (c : Char) : Bool :=
  s.search c.toNat 0 s.ranges.size

end CharSet

end StepCalc.Text
