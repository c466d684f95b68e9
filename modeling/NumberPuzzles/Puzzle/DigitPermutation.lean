import NumberPuzzles.Arrangement.Ranked

/-!
# Permutations of the ten digits by position

Positions are counted from one, and there are two ways to a position: walking to
it, and reading it as a rank.
-/

namespace NumberPuzzles.DigitPermutation

def tenDigits : List Char := ['0', '1', '2', '3', '4', '5', '6', '7', '8', '9']

/-- The permutation at a position, met on a walk through all of them. -/
def walkedTo (position : Nat) : Checked (Option String) :=
  match position with
  | 0 => .ok none
  | skipped + 1 => do
      let walk := Walk.start .ascending tenDigits
      let found ← ((Walk.next.nth skipped).run.run walk).1
      return found.map String.ofList

/-- The permutation at a position, read from its rank. -/
def atPosition (position : Nat) : Checked (Option String) :=
  match position with
  | 0 => .ok none
  | rank + 1 => do
      let found ← Arrangement.ranked? tenDigits rank
      return found.map String.ofList

end NumberPuzzles.DigitPermutation
