import NumberPuzzles.Factorial
import NumberPuzzles.Word

/-!
# Paths through a square grid

A path from corner to corner makes as many moves right as down, and is told by
which of its moves go right.
-/

namespace NumberPuzzles.LatticePath

/-- The number of shortest paths through a grid of the given side. -/
def count (side : Nat) : Run FactorialMemo Fault Nat := do
  binomial (← Checked.mul halfWord 2 side) side

def answer (side : Nat) : Checked Nat := ((count side).run.run FactorialMemo.initial).1

end NumberPuzzles.LatticePath
