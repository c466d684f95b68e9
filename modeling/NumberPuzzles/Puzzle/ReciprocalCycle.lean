import NumberPuzzles.Progression
import NumberPuzzles.Word

/-!
# Recurring cycles of unit fractions

Long division of one by a number repeats as soon as a remainder does.  A table
holds, for each remainder, the step at which it was first seen; the cycle is as
long as the distance between two visits.
-/

namespace NumberPuzzles.ReciprocalCycle

/-- Divides on from a remainder, at most as many steps as told, until a remainder
is zero or was seen before. -/
def divideFrom (divisor : Nat) :
    (passes : Nat) → (seen : Array (Option Nat)) → (remainder step : Nat) → Checked Nat
  | 0, _, _, _ => .error .endless
  | passes + 1, seen, remainder, step =>
      if remainder = 0 then .ok 0
      else if inside : remainder < seen.size then
        match seen[remainder] with
        | some first => Checked.sub step first
        | none => do
            let following ← Checked.rem (← Checked.mul word remainder 10) divisor
            divideFrom divisor passes (seen.set remainder (some step) inside) following
              (← Checked.add word step 1)
      else .error .outOfRange

/-- The length of the recurring cycle of one over a number; zero if the division
ends.  There are only as many remainders as the divisor, so one pass more than
that comes to an end. -/
def cycleLength (divisor : Nat) : Checked Nat := do
  let remainder ← Checked.rem 1 divisor
  divideFrom divisor (divisor + 1) (Array.replicate divisor none) remainder 0

structure Cycle where
  divisor : Nat
  length : Nat
  deriving Repr, DecidableEq

/-- The first divisor below a limit whose cycle is the longest; one if none recurs. -/
def answer (limit : Nat) : Checked Nat := do
  let best ← (Progression.below 1 limit).foldM (⟨1, 0⟩ : Cycle) fun best divisor => do
    let length ← cycleLength divisor
    return if best.length < length then ⟨divisor, length⟩ else best
  return best.divisor

end NumberPuzzles.ReciprocalCycle
