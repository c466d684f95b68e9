import NumberPuzzles.Progression
import NumberPuzzles.Text.Numeral

/-!
# The last digits of a sum of self powers

Powers are reduced at every step.  The base is squared for each bit of the
exponent and multiplied in where the bit is set, in words of twice the width.
-/

namespace NumberPuzzles.SelfPower

/-- Multiplies a power of a base into a result, modulo a number. -/
def powerInto (modulus result base exponent : Nat) : Checked Nat :=
  if _positive : exponent = 0 then .ok result
  else do
    let result ←
      if exponent % 2 = 1 then
        Checked.rem (← Checked.mul doubleWord result base) modulus
      else pure result
    let base ← Checked.rem (← Checked.mul doubleWord base base) modulus
    powerInto modulus result base (exponent / 2)
termination_by exponent

def powerMod (base exponent modulus : Nat) : Checked Nat := do
  let result ← Checked.rem 1 modulus
  let base ← Checked.rem base modulus
  powerInto modulus result base exponent

def modulus : Nat := Nat.pow 10 10

/-- The last ten digits of the sum of the numbers up to a limit, each raised to
itself, with zeros in front where they are zeros. -/
def lastDigits (limit : Nat) : Checked (List Char) := do
  let sum ← (Progression.inclusive 1 limit).foldM 0 fun sum number => do
    Checked.rem (← Checked.add word sum (← powerMod number number modulus)) modulus
  return Text.padded 10 sum

def answer (limit : Nat) : Checked String := do
  return String.ofList (← lastDigits limit)

end NumberPuzzles.SelfPower
