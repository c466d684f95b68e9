import NumberPuzzles.Fixture.Triangle
import NumberPuzzles.Word

/-!
# The heaviest path down a triangle

The rows are folded from the lowest up, so that each cell comes to hold the
greatest sum of a path that starts at it.
-/

namespace NumberPuzzles.TrianglePath

/-- The greater of the first two entries, or zero when there is none. -/
def greaterOfTwo : List Nat → Nat
  | [] => 0
  | [only] => only
  | first :: second :: _ => max first second

/-- The best sums from the cells of a row, by the best sums from the row below. -/
def liftRow : (row best : List Nat) → Checked (List Nat)
  | [], _ => .ok []
  | value :: row, best => do
      let sum ← Checked.add word value (greaterOfTwo best)
      return sum :: (← liftRow row best.tail)

/-- The greatest sum of a path from the top to the lowest row, moving to one of
the two cells below each time; zero for no rows. -/
def maxPathSum (triangle : Triangle) : Checked Nat := do
  let best ← triangle.rows.reverse.foldlM (fun best row => liftRow row best) []
  return best.headD 0

end NumberPuzzles.TrianglePath
