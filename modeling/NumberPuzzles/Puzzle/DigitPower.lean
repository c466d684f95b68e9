import NumberPuzzles.Digits
import NumberPuzzles.Progression

/-!
# Sums of digit powers

A number with `d` digits has a digit power sum of at most `d` times the power of
nine, so a number that equals its own sum has at most one digit more than the
exponent.
-/

namespace NumberPuzzles.DigitPower

/-- The bound of the search: one more than the exponent, times the power of nine. -/
def searchBound (power : Nat) : Checked Nat := do
  let places ← Checked.add word power 1
  match wordPower? 9 power with
  | some largest => Checked.mul word places largest
  | none => .error .exponentiate

/-- The numbers from two on that equal the sum of their digits, each raised to
the power. -/
def digitPowerNumbers (power : Nat) : Checked (List Nat) := do
  return (Progression.inclusive 2 (← searchBound power)).filter fun number =>
    digitPowerSum? power number = some number

def answer (power : Nat) : Checked Nat := do
  Checked.sum word (← digitPowerNumbers power)

end NumberPuzzles.DigitPower
