import NumberPuzzles.Digits
import NumberPuzzles.Source

/-!
# Champernowne's constant

The digits behind the point are those of the numbers from one on, written one
after the other.
-/

namespace NumberPuzzles

/-- The digits of the number reached that are still to be handed out, and the
number after it. -/
structure Champernowne where
  pending : List Nat
  number : Nat
  deriving Repr, DecidableEq

namespace Champernowne

def initial : Champernowne := ⟨[], 1⟩

instance : Inhabited Champernowne := ⟨initial⟩

def next : Source Champernowne Fault Nat := fun ⟨pending, number⟩ =>
  match pending with
  | digit :: pending => (.ok (some digit), ⟨pending, number⟩)
  | [] =>
      if number + 1 < word then
        match digits number with
        | digit :: pending => (.ok (some digit), ⟨pending, number + 1⟩)
        | [] => (.ok none, ⟨[], number + 1⟩)
      else (.error .add, ⟨[], number⟩)

end Champernowne

/-- A power of ten, found by dividing by ten while that leaves no remainder. -/
def isPowerOfTen (number : Nat) : Bool :=
  if _divides : 10 ≤ number ∧ number % 10 = 0 then isPowerOfTen (number / 10)
  else number = 1
termination_by number

/-- Multiplies the digits at the positions that are powers of ten, over so many
positions after the given one. -/
def digitProductFrom (product position : Nat) : Nat → Run Champernowne Fault Nat
  | 0 => pure product
  | count + 1 => do
      match ← Champernowne.next with
      | none => pure product
      | some digit =>
          let product ←
            if isPowerOfTen (position + 1) then Checked.mul halfWord product digit
            else pure product
          digitProductFrom product (position + 1) count

/-- The product of the digits at the positions 1, 10, 100, …, up to a position. -/
def digitProduct (last : Nat) : Checked Nat :=
  ((digitProductFrom 1 0 last).run.run Champernowne.initial).1

end NumberPuzzles
