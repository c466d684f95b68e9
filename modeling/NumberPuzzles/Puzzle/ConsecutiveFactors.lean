import NumberPuzzles.Prime.Factors

/-!
# Neighbours with the same number of prime factors
-/

namespace NumberPuzzles.ConsecutiveFactors

/-- Looks on from a number, behind a run of so many numbers that each have as many
distinct prime factors as wanted, until the run is as long as wanted. -/
def searchFrom (wanted number run : Nat) : Checked Nat :=
  match distinctPrimeFactors number with
  | .error fault => .error fault
  | .ok factors =>
      let run := if factors.length = wanted then run + 1 else 0
      if factors.length = wanted ∧ run = wanted then do
        Checked.sub (← Checked.add word number 1) wanted
      else if _inside : number + 1 < word then searchFrom wanted (number + 1) run
      else .error .add
termination_by word - number

/-- The first of as many numbers in a row as wanted that have as many distinct
prime factors each. -/
def firstConsecutive (wanted : Nat) : Checked Nat := searchFrom wanted 2 0

end NumberPuzzles.ConsecutiveFactors
