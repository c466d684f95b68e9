import NumberPuzzles.Progression
import NumberPuzzles.Text.Numeral

/-!
# Fractions that survive a wrong cancellation

Striking a shared digit from both sides of a fraction is no way to cancel it, but
a few fractions keep their value under it.
-/

namespace NumberPuzzles.CancellingFraction

def greatestCommonDivisor (left right : Nat) : Nat :=
  if _positive : right = 0 then left else greatestCommonDivisor right (left % right)
termination_by right
decreasing_by exact Nat.mod_lt left (Nat.pos_of_ne_zero _positive)

/-- The text without the first occurrence of a character. -/
def strike? (letter : Char) : List Char → Option (List Char)
  | [] => none
  | first :: rest =>
      if first = letter then some rest else (strike? letter rest).map (first :: ·)

/-- The number without the first occurrence of a digit, if it has the digit and
another one beside it. -/
def withoutDigit? (number : Nat) (digit : Char) : Option Nat := do
  match Text.readWord (← strike? digit (Text.decimal number)) with
  | .ok value => some value
  | .error _ => none

/-- The first digit of a text, other than zero, that another text has as well. -/
def sharedDigit? (numerator denominator : List Char) : Option Char :=
  numerator.find? fun digit => digit ≠ '0' && denominator.contains digit

/-- Striking the first digit that both sides share leaves an equal fraction. -/
def isCancelling (numerator denominator : Nat) : Checked Bool :=
  match sharedDigit? (Text.decimal numerator) (Text.decimal denominator) with
  | none => .ok false
  | some digit =>
      match withoutDigit? numerator digit, withoutDigit? denominator digit with
      | some above, some below =>
          if above = 0 ∧ below = 0 then .ok false
          else do
            let left ← Checked.mul word numerator below
            let right ← Checked.mul word denominator above
            return decide (left = right)
      | _, _ => .ok false

structure Fraction where
  numerator : Nat
  denominator : Nat
  deriving Repr, DecidableEq

/-- The fractions below one with two digits on both sides that survive. -/
def fractions : Checked (List Fraction) := do
  let found ← (Progression.inclusive 10 98).foldM [] fun found numerator =>
    (Progression.inclusive (numerator + 1) 99).foldM found fun found denominator => do
      if ← isCancelling numerator denominator then
        return ⟨numerator, denominator⟩ :: found
      else return found
  return found.reverse

def times (left right : Fraction) : Checked Fraction := do
  let numerator ← Checked.mul word left.numerator right.numerator
  let denominator ← Checked.mul word left.denominator right.denominator
  return ⟨numerator, denominator⟩

/-- The denominator of the product of the surviving fractions, in lowest terms. -/
def answer : Checked Nat := do
  let product ← (← fractions).foldlM times ⟨1, 1⟩
  let shared := greatestCommonDivisor product.numerator product.denominator
  if shared = 0 then throw .divide
  return product.denominator / shared

end NumberPuzzles.CancellingFraction
