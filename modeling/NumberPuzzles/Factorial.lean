import NumberPuzzles.Memo
import NumberPuzzles.Progression

/-!
# Factorials and binomial coefficients

Both are natural numbers of any size.  A binomial coefficient is the quotient of
three factorials, and the factorials are kept from one question to the next.
-/

namespace NumberPuzzles

def factorial (number : Nat) : Nat :=
  (Progression.inclusive 1 number).fold 1 fun product current => product * current

abbrev FactorialMemo := Memo Nat Nat Unit

namespace FactorialMemo

def initial : FactorialMemo := Memo.empty ()

end FactorialMemo

/-- The factorial of a number, computed at the first question about it. -/
def factorialCached (number : Nat) : Run FactorialMemo Fault Nat :=
  Memo.apply (fun number => pure (factorial number)) number

/-- How many ways there are to choose as many things as `chosen` out of `number`. -/
def binomial (number chosen : Nat) : Run FactorialMemo Fault Nat := do
  if number < chosen then return 0
  let all ← factorialCached number
  let inside ← factorialCached chosen
  let outside ← factorialCached (number - chosen)
  return all / (inside * outside)

end NumberPuzzles
