import NumberPuzzles.Progression
import NumberPuzzles.SquareRoot

/-!
# Divisors

Every divisor above the square root is the quotient by one below it, so trial
division up to the root finds them all, in pairs.
-/

namespace NumberPuzzles

/-- The positive divisors of a number, ascending; none for zero. -/
def factors (number : Nat) : Checked (List Nat) := do
  if number = 0 then return []
  let root ← isqrt number
  let small := (Progression.inclusive 1 root).filter fun divisor => number % divisor = 0
  let large := (small.filter fun divisor => divisor * divisor ≠ number).map (number / ·)
  return small ++ large.reverse

def properDivisors (number : Nat) : Checked (List Nat) := do
  return (← factors number).filter (· ≠ number)

def sumOfDivisors (number : Nat) : Checked Nat := do
  Checked.sum word (← properDivisors number)

def isAbundant (number : Nat) : Checked Bool := do
  return decide (number < (← sumOfDivisors number))

/-- The other number of an amicable pair, if there is one. -/
def amicablePartner? (number : Nat) : Checked (Option Nat) := do
  let partner ← sumOfDivisors number
  if partner = number then return none
  return if (← sumOfDivisors partner) = number then some partner else none

end NumberPuzzles
