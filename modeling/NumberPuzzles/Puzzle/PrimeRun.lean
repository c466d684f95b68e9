import NumberPuzzles.Prime.Sieve
import NumberPuzzles.Prime.Table
import NumberPuzzles.Progression

/-!
# Primes as sums of consecutive primes

The sums of the primes from the first one on are kept in a table, so that the sum
of a run is one difference.  Runs no longer than the best one are not looked at.
-/

namespace NumberPuzzles.PrimeRun

/-- A prime and the length of the run of primes that it is the sum of. -/
structure RunSum where
  sum : Nat
  length : Nat
  deriving Repr, DecidableEq

/-- Appends to a table the sums of its last entry and more and more numbers. -/
def partialSums : (numbers : List Nat) → (sum : Nat) → Array Nat → Checked (Array Nat)
  | [], _, sums => .ok sums
  | number :: numbers, sum, sums => do
      let sum ← Checked.add word sum number
      partialSums numbers sum (sums.push sum)

/-- Tries the runs from a start that end at a position or at one of the so many
positions after it, as long as they stay below the limit. -/
def tryEnds (limit : Nat) (sums : Array Nat) (start : Nat) :
    (position positions : Nat) → RunSum → Run PrimeTable Fault RunSum
  | _, 0, best => pure best
  | position, positions + 1, best => do
      let sum ← Checked.sub (← Checked.entry sums position) (← Checked.entry sums start)
      if limit ≤ sum then return best
      let best := if ← isPrime sum then ⟨sum, position - start⟩ else best
      tryEnds limit sums start (position + 1) positions best

/-- Tries the runs from each start in turn that are longer than the best one. -/
def tryStarts (limit : Nat) (sums : Array Nat) (count : Nat) (best : RunSum) :
    Run PrimeTable Fault RunSum :=
  (Progression.below 0 count).foldM best fun best start =>
    let position := start + best.length + 1
    tryEnds limit sums start position (count + 1 - position) best

/-- The longest run of consecutive primes with a prime sum below a limit.  The
primes are those below the limit modulo the number of 32-bit words. -/
def longestRun (limit : Nat) : Checked RunSum := do
  let primes := primesBelow (limit % halfWord)
  let sums ← partialSums primes 0 #[0]
  ((tryStarts limit sums primes.length ⟨0, 0⟩).run.run PrimeTable.initial).1

def answer (limit : Nat) : Checked Nat := do
  return (← longestRun limit).sum

end NumberPuzzles.PrimeRun
