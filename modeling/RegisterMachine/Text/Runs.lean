/-!
# Runs of code points

A character class is given by its runs: closed intervals of code points, in increasing order.
-/

namespace RegisterMachine.Text

/-- The code point `n` lies in one of the runs. -/
def inRuns (runs : List (Nat × Nat)) (n : Nat) : Bool :=
  runs.any fun run => run.1 ≤ n && n ≤ run.2

end RegisterMachine.Text
