import NumberPuzzles.Digits
import NumberPuzzles.Prime.Table
import NumberPuzzles.Progression
import NumberPuzzles.Text.Numeral

/-!
# Prime permutations in arithmetic progression
-/

namespace NumberPuzzles.PrimePermutation

def step : Nat := 3330

structure Triple where
  first : Nat
  second : Nat
  third : Nat
  deriving Repr, DecidableEq

/-- The three terms from a first one on. -/
def tripleFrom (first : Nat) : Triple := ⟨first, first + step, first + 2 * step⟩

/-- The three terms are primes and have the same digits. -/
def isPrimePermutation (triple : Triple) : Run PrimeTable Fault Bool := do
  unless ← isPrime triple.first do return false
  unless ← isPrime triple.second do return false
  unless ← isPrime triple.third do return false
  return sameDigits triple.first triple.second && sameDigits triple.first triple.third

def fourDigits : Progression := Progression.inclusive 1000 9999

/-- The triples of primes with the same digits, by their first terms. -/
def triples (starts : Progression) : Checked (List Triple) := do
  let firsts := starts.filterM fun first =>
    isPrimePermutation (tripleFrom first)
  return (← (firsts.run.run PrimeTable.initial).1).map tripleFrom

def Triple.text (triple : Triple) : List Char :=
  Text.decimal triple.first ++ Text.decimal triple.second ++ Text.decimal triple.third

/-- The triples other than the known one that starts at 1487. -/
def answer (starts : Progression) : Checked String := do
  let others := (← triples starts).filter fun triple => triple.first ≠ 1487
  return String.ofList (others.flatMap Triple.text)

end NumberPuzzles.PrimePermutation
