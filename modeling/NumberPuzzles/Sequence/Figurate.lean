import NumberPuzzles.SquareRoot
import NumberPuzzles.Source

/-!
# Triangle and pentagonal numbers

Each sequence is summed from its differences, and each has a test for its
members: a triangle number is one that makes an odd square of eight times itself
and one, and a pentagonal number one that makes, of twenty-four times itself and
one, a square whose root leaves five on division by six.
-/

namespace NumberPuzzles

/-- A sequence summed so far: how many terms were handed out, and their last one. -/
structure Figurate where
  index : Nat
  value : Nat
  deriving Repr, DecidableEq

namespace Figurate

def initial : Figurate := ⟨0, 0⟩

instance : Inhabited Figurate := ⟨initial⟩

/-- Hands out the next sum.  The index has moved on before the difference of that
index is computed and added. -/
def nextBy (difference : Nat → Checked Nat) : Run Figurate Fault (Option Nat) := do
  let index ← Checked.add word (← get).index 1
  modify fun figurate => { figurate with index }
  let value ← Checked.add word (← get).value (← difference index)
  modify fun figurate => { figurate with value }
  return some value

/-- Hands out the next triangle number; the differences are the indices. -/
def nextTriangle : Source Figurate Fault Nat := nextBy fun index => pure index

def pentagonalDifference (index : Nat) : Checked Nat := do
  Checked.sub (← Checked.mul word 3 index) 2

def nextPentagonal : Source Figurate Fault Nat := nextBy pentagonalDifference

end Figurate

/-- Eight times the number and one is a square. -/
def isTriangleNumber (number : Nat) : Checked Bool := do
  if number = 0 then return false
  let scaled ← Checked.mul doubleWord 8 number
  return (← exactRoot? (← Checked.add doubleWord scaled 1)).isSome

/-- Twenty-four times the number and one is a square whose root leaves five on
division by six. -/
def isPentagonal (number : Nat) : Checked Bool := do
  if number = 0 then return false
  let scaled ← Checked.mul doubleWord 24 number
  match ← exactRoot? (← Checked.add doubleWord scaled 1) with
  | some root => return root % 6 = 5
  | none => return false

end NumberPuzzles
