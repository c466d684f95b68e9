import NumberPuzzles.Prime.Trial
import NumberPuzzles.Source

/-!
# The stream of primes

The primes in ascending order, each tested against those already handed out.
The candidates are two and then every odd number from three on.
-/

namespace NumberPuzzles

/-- The primes handed out so far, and the next number to test. -/
structure PrimeStream where
  found : Array Nat
  candidate : Nat
  deriving Repr

namespace PrimeStream

def initial : PrimeStream := ⟨#[], 2⟩

instance : Inhabited PrimeStream := ⟨initial⟩

/-- Tests candidates in turn up to the first prime.  The stream has moved past a
candidate before the candidate is tested. -/
def search (found : Array Nat) (candidate : Nat) :
    Except Fault (Option Nat) × PrimeStream :=
  if _inside : nextTrial candidate < word then
    match hasKnownDivisor found candidate with
    | .error fault => (.error fault, ⟨found, nextTrial candidate⟩)
    | .ok true => search found (nextTrial candidate)
    | .ok false => (.ok (some candidate), ⟨found.push candidate, nextTrial candidate⟩)
  else (.error .add, ⟨found, candidate⟩)
termination_by word - candidate
decreasing_by
  have := lt_nextTrial candidate
  omega

def next : Source PrimeStream Fault Nat := fun ⟨found, candidate⟩ => search found candidate

end PrimeStream

/-- The prime at a position counted from one; there is none at position zero. -/
def nthPrime (position : Nat) : Checked (Option Nat) :=
  match position with
  | 0 => .ok none
  | skipped + 1 => ((PrimeStream.next.nth skipped).run.run PrimeStream.initial).1

end NumberPuzzles
