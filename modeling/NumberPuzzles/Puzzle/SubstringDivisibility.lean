import NumberPuzzles.Arrangement.Walk
import NumberPuzzles.Digits

/-!
# Sub-string divisibility

Three neighbouring digits of a ten-digit number, from the second one on, have to
be divisible by the first prime, the three from the third one on by the second
prime, and so on.
-/

namespace NumberPuzzles.SubstringDivisibility

def divisors : List Nat := [2, 3, 5, 7, 11, 13, 17]

/-- The three digits in front of a list are divisible by the first divisor, the
three from the second one on by the next, and so on. -/
def allDivisible : (divisors entries : List Nat) → Checked Bool
  | [], _ => .ok true
  | divisor :: divisors, entries => do
      if (← Checked.rem (← ofDigits (entries.take 3)) divisor) = 0 then
        allDivisible divisors (entries.drop 1)
      else return false

/-- Ten entries with the sub-string property. -/
def hasProperty (entries : List Nat) : Checked Bool :=
  if entries.length = 10 then allDivisible divisors (entries.drop 1) else .ok false

def tenDigits : List Nat := List.range 10

/-- The numbers with the sub-string property that are arrangements of some digits
and do not begin with a zero, ascending. -/
def divisiblePandigitals (digits : List Nat) : Checked (List Nat) :=
  Walk.collectM .ascending digits fun entries => do
    if entries.head? = some 0 then return none
    if ← hasProperty entries then return some (← ofDigits entries) else return none

def answer (digits : List Nat) : Checked Nat := do
  Checked.sum word (← divisiblePandigitals digits)

end NumberPuzzles.SubstringDivisibility
