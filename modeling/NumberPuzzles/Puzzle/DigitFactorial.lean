import NumberPuzzles.Digits
import NumberPuzzles.Progression

/-!
# Sums of digit factorials

A number of eight digits is larger than eight times the factorial of nine, so a
number that equals the sum of the factorials of its digits has at most seven.
-/

namespace NumberPuzzles.DigitFactorial

/-- The most digits that such a number has. -/
def mostDigits : Nat := 7

/-- The bound of a search: so many times the factorial of nine. -/
def searchBound (places : Nat) : Checked Nat := do
  Checked.mul word places (← smallFactorial 9)

/-- The numbers from ten up to the bound for so many digits that equal the sum of
the factorials of their digits. -/
def digitFactorials (places : Nat) : Checked (List Nat) := do
  (Progression.inclusive 10 (← searchBound places)).filterM fun number => do
    return decide ((← digitFactorialSum number) = number)

def answer (places : Nat) : Checked Nat := do Checked.sum word (← digitFactorials places)

end NumberPuzzles.DigitFactorial
