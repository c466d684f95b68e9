import NumberPuzzles.Arrangement.Walk
import NumberPuzzles.Digits
import NumberPuzzles.Prime.Table

/-!
# Pandigital primes

The numbers that use each of the digits from one up to some digit once, the
largest first.  A last digit above nine counts as one entry all the same, carried
into the place before it.
-/

namespace NumberPuzzles.PandigitalPrime

def entriesUpTo (last : Nat) : List Nat := List.range' 1 last

def start (last : Nat) : Walk Nat := Walk.start .descending (entriesUpTo last)

/-- Hands out the next number.  The walk has moved on before the number is
computed. -/
def next : Run (Walk Nat) Fault (Option Nat) := do
  match ← Walk.next with
  | none => return none
  | some entries => return some (← ofDigits entries)

/-- The largest prime that uses each digit from one up to the last once. -/
def largestUpTo (last : Nat) : Run PrimeTable Fault (Option Nat) :=
  Walk.findM? .descending (entriesUpTo last) fun entries => do
    let number ← ofDigits entries
    return if ← isPrime number then some number else none

/-- The first answer for a last digit, from the given one down. -/
def largestFrom : (last : Nat) → Run PrimeTable Fault (Option Nat)
  | 0 => pure none
  | last + 1 => do
      match ← largestUpTo (last + 1) with
      | some prime => return some prime
      | none => largestFrom last

/-- The largest pandigital prime with digits up to the last one; more digits make a
larger number. -/
def largestPandigitalPrime (last : Nat) : Checked (Option Nat) :=
  ((largestFrom last).run.run PrimeTable.initial).1

end NumberPuzzles.PandigitalPrime
