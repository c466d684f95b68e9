import NumberPuzzles.Memo.Recursion
import NumberPuzzles.Progression
import NumberPuzzles.Word

/-!
# Longest Collatz chains

A chain halves even terms and takes an odd term to three times itself and one.
Its length counts both its start and the one that it ends at.  All lengths met
on the way are kept, so chains that run together are followed only once.
-/

namespace NumberPuzzles.Collatz

abbrev LengthMemo := Memo Nat Nat Unit

def noLengths : LengthMemo := Memo.empty ()

def afterOdd (term : Nat) : Checked Nat := do
  Checked.add word (← Checked.mul word 3 term) 1

/-- The length of a chain by the length of the chain from its second term on. -/
def lengthScript (start : Nat) : Script Nat Nat Unit Fault Nat := do
  if start < 2 then return 1
  let following ← if start % 2 = 0 then pure (start / 2) else afterOdd start
  let rest ← Script.self following
  Checked.add word rest 1

def chainLength (start : Nat) : Run LengthMemo Fault Nat :=
  Memo.recurse lengthScript word start

structure Chain where
  start : Nat
  length : Nat
  deriving Repr, DecidableEq

/-- The first start among some whose chain is longer than the one to beat and
than every other. -/
def longestAmong (starts : Progression) : Run LengthMemo Fault Chain :=
  starts.foldM ⟨1, 1⟩ fun best start => do
    let length ← chainLength start
    return if best.length < length then ⟨start, length⟩ else best

/-- The longest chain from a start below a limit.  Twice a start has the longer
chain, so only the starts from half the limit on are tried. -/
def longestChainBelow (limit : Nat) : Checked Chain :=
  ((longestAmong (Progression.below (max (limit / 2) 1) limit)).run.run noLengths).1

def answer (limit : Nat) : Checked Nat := do
  return (← longestChainBelow limit).start

end NumberPuzzles.Collatz
