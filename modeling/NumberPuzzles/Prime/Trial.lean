import NumberPuzzles.SquareRoot

/-!
# Trial division by known primes

A number that has a proper divisor has a prime divisor at most its square root.
With every prime up to the root known, dividing by those alone therefore tells
primes from composites.
-/

namespace NumberPuzzles

/-- The number tried after a given one: three after two, and then the odd numbers. -/
def nextTrial (candidate : Nat) : Nat := if candidate = 2 then 3 else candidate + 2

theorem lt_nextTrial (candidate : Nat) : candidate < nextTrial candidate := by
  unfold nextTrial
  split <;> omega

/-- Some known prime from the given position on, at most the root, divides the number. -/
def dividesFrom (known : Array Nat) (number root index : Nat) : Checked Bool :=
  if inside : index < known.size then
    let prime := known[index]
    if prime ≤ root then
      if prime = 0 then .error .remainder
      else if number % prime = 0 then .ok true
      else dividesFrom known number root (index + 1)
    else .ok false
  else .ok false
termination_by known.size - index

/-- Some prime of an ascending list, at most the square root, divides the number. -/
def hasKnownDivisor (known : Array Nat) (number : Nat) : Checked Bool := do
  dividesFrom known number (← isqrt number) 0

end NumberPuzzles
