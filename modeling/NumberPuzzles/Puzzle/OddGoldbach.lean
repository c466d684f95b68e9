import NumberPuzzles.Prime.Table
import NumberPuzzles.Progression

/-!
# Odd numbers as a prime and twice a square
-/

namespace NumberPuzzles.OddGoldbach

def lessTwiceSquare (number root : Nat) : Checked Nat := do
  Checked.sub number (← Checked.mul word (← Checked.mul word 2 root) root)

def isPrimePlusTwiceSquare (number : Nat) : Run PrimeTable Fault Bool := do
  let found ← (Progression.inclusive 1 (← isqrt (number / 2))).findM? fun root => do
    isPrime (← lessTwiceSquare number root)
  return found.isSome

/-- A number that is neither prime nor a prime and twice a square. -/
def isCounterexample (number : Nat) : Run PrimeTable Fault Bool := do
  if ← isPrime number then return false
  return !(← isPrimePlusTwiceSquare number)

/-- The least odd counterexample below a limit.  The search starts at 35; the odd
composites below it are no counterexamples. -/
def smallestCounterexample (limit : Nat) : Checked (Option Nat) :=
  let found := (Progression.stride 35 limit 2).findM? isCounterexample
  (found.run.run PrimeTable.initial).1

def searchLimit : Nat := 100000

end NumberPuzzles.OddGoldbach
