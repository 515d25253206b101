/-!
# Sets of code points as runs

A set of code points is written as the ascending list of the positions at which membership
changes: it starts to hold at the first, stops at the second, starts again at the third.
-/

namespace TsProject.Text

/-- **Membership**: an odd number of changes lies at or before `n`. -/
def inRuns (bounds : List Nat) (n : Nat) : Bool :=
  (bounds.takeWhile (· ≤ n)).length % 2 == 1

end TsProject.Text
