import NumberPuzzles.Word

/-!
# Exact integer square roots

A root is found in two steps: an estimate, and a walk that settles it.  The walk
first goes down while the square is too large and then up while the next square
still fits, so its answer does not depend on how good the estimate was; the
estimate only decides how long the walk is.
-/

namespace NumberPuzzles

namespace SquareRoot

/-- How a root is squared: `none` says that the square is past every number
whose root is sought. -/
abbrev Squaring := Nat → Checked (Option Nat)

/-- Squares of 64-bit words, of which some are not words again. -/
@[inline] def squareWord : Squaring := fun root =>
  .ok (if root * root < word then some (root * root) else none)

/-- Squares in 128-bit words, where a square that does not fit is a fault. -/
@[inline] def squareDoubleWord : Squaring := fun root =>
  (Checked.mul doubleWord root root).map some

/-- The largest root, from the given one down, whose square is at most the number. -/
@[specialize] def lower (square : Squaring) (number : Nat) : Nat → Checked Nat
  | 0 => do
      match ← square 0 with
      | some squared => if number < squared then .error .subtract else .ok 0
      | none => .error .subtract
  | root + 1 => do
      match ← square (root + 1) with
      | some squared => if number < squared then lower square number root else .ok (root + 1)
      | none => lower square number root

/-- The last root, from the given one up, before the square passes the number. -/
@[specialize] def raise (limit : Nat) (square : Squaring) (number root : Nat) : Checked Nat :=
  if _inside : root + 1 < limit then do
    match ← square (root + 1) with
    | some squared =>
        if squared ≤ number then raise limit square number (root + 1) else .ok root
    | none => .ok root
  else .error .add
termination_by limit - root

/-- Settles an estimate to the largest root whose square is at most the number. -/
@[inline] def settle (limit : Nat) (square : Squaring) (number estimate : Nat) : Checked Nat := do
  raise limit square number (← lower square number estimate)

/-- Improves an upper estimate by averaging it with its quotient, until that no
longer lowers it or the steps are used up. -/
def improve (number : Nat) : Nat → Nat → Nat
  | 0, estimate => estimate
  | steps + 1, estimate =>
      let better := (estimate + number / estimate) / 2
      if better < estimate then improve number steps better else estimate

/-- An estimate that starts from the power of two above half the bit length.
Eight steps bring it to the root of every number below `2 ^ 70`. -/
def estimate (number : Nat) : Nat :=
  improve number 8 (Nat.pow 2 (Nat.log2 number / 2 + 1))

end SquareRoot

/-- The integer square root of a machine word. -/
def isqrt (number : Nat) : Checked Nat :=
  SquareRoot.settle word SquareRoot.squareWord number (SquareRoot.estimate number)

/-- The root of a perfect square, searched in 128-bit words from an estimate of it. -/
def exactRootFrom? (number estimate : Nat) : Checked (Option Nat) := do
  let root ← SquareRoot.settle doubleWord SquareRoot.squareDoubleWord number estimate
  let squared ← Checked.mul doubleWord root root
  return if squared = number then some root else none

def exactRoot? (number : Nat) : Checked (Option Nat) :=
  exactRootFrom? number (SquareRoot.estimate number)

end NumberPuzzles
