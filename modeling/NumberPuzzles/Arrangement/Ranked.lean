import NumberPuzzles.Arrangement.Walk
import NumberPuzzles.Word

/-!
# Arrangements by rank

The rank of an arrangement of distinct entries, written in the factorial number
system, tells entry by entry which of the entries still unused comes next.  The
place values are factorials; those that are past the machine words are held at
the greatest word.
-/

namespace NumberPuzzles.Arrangement

/-- The greatest machine word, which stands for every larger place value. -/
def saturation : Nat := word - 1

/-- A place value multiplied by a factor, or the greatest word. -/
def nextPlace (place factor : Nat) : Nat :=
  if place * factor < word then place * factor else saturation

/-- The place values of as many places as told, the most significant first, in
front of a list, and the first value past them. -/
def placesFrom (place factor : Nat) : (count : Nat) → List Nat → List Nat × Nat
  | 0, places => (places, place)
  | count + 1, places => placesFrom (nextPlace place factor) (factor + 1) count (place :: places)

def takeOut? {α : Type} : Nat → List α → Option (α × List α)
  | _, [] => none
  | 0, entry :: entries => some (entry, entries)
  | position + 1, entry :: entries =>
      (takeOut? position entries).map fun (chosen, rest) => (chosen, entry :: rest)

/-- Reads a rank place by place, taking one entry out of the pool at each. -/
def readRank {α : Type} : (places : List Nat) → (rank : Nat) → (pool : List α) → Checked (List α)
  | [], _, _ => .ok []
  | place :: places, rank, pool =>
      match takeOut? (rank / place) pool with
      | none => .error .outOfRange
      | some (chosen, pool) => do
          return chosen :: (← readRank places (rank % place) pool)

/-- The arrangement with a given rank, the least one having rank zero. -/
def ranked? {α : Type} [LT α] [DecidableLT α] (entries : List α) (rank : Nat) :
    Checked (Option (List α)) := do
  let pool := Walk.sorted entries
  let (places, bound) := placesFrom 1 1 pool.length []
  if bound ≤ rank then return none
  return some (← readRank places rank pool)

end NumberPuzzles.Arrangement
