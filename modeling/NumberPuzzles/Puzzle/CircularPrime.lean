import NumberPuzzles.Digits
import NumberPuzzles.Prime.Table
import NumberPuzzles.Progression

/-!
# Circular primes
-/

namespace NumberPuzzles.CircularPrime

/-- Every number of a list is prime; none is tested after one that is not. -/
def allPrime : List Nat → Run PrimeMemo Fault Bool
  | [] => pure true
  | number :: numbers => do
      if ← isPrimeCached number then allPrime numbers else pure false

def isCircularPrime (number : Nat) : Run PrimeMemo Fault Bool := do
  if ← isPrimeUncached number then allPrime (← rotations number) else pure false

def countBelow (limit : Nat) : Checked Nat :=
  let count := (Progression.below 2 limit).foldM 0 fun count number => do
    if ← isCircularPrime number then Checked.add word count 1 else pure count
  (count.run.run PrimeMemo.initial).1

end NumberPuzzles.CircularPrime
