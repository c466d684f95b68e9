import NumberPuzzles.Progression
import NumberPuzzles.Word

/-!
# The diagonals of a number spiral

A ring of an odd side adds four corners, each one less than the side after the
one before it.
-/

namespace NumberPuzzles.SpiralDiagonal

/-- The last corner reached, and the sum of all corners so far. -/
structure Corner where
  value : Nat
  sum : Nat
  deriving Repr, DecidableEq

/-- Moves so many corners on, at a distance, and adds each. -/
def turn (distance : Nat) : (corners : Nat) → Corner → Checked Corner
  | 0, corner => .ok corner
  | corners + 1, corner => do
      let value ← Checked.add word corner.value distance
      let sum ← Checked.add word corner.sum value
      turn distance corners ⟨value, sum⟩

/-- Passes the four corners of the ring with the given side. -/
def passRing (corner : Corner) (side : Nat) : Checked Corner := do
  turn (← Checked.sub side 1) 4 corner

def diagonalSum (side : Nat) : Checked Nat := do
  let corner ← (Progression.stride 3 (side + 1) 2).foldM (⟨1, 1⟩ : Corner) passRing
  return corner.sum

end NumberPuzzles.SpiralDiagonal
