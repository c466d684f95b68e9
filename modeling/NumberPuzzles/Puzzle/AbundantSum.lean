import NumberPuzzles.Divisor

/-!
# Sums of two abundant numbers

A table with one mark for each number up to a limit; the sums are marked pair by
pair, and the second number of a pair is never the smaller one.
-/

namespace NumberPuzzles.AbundantSum

def abundantUpTo (limit : Nat) : Checked (List Nat) :=
  (Progression.inclusive 1 limit).filterM isAbundant

/-- Marks the sums of one number with others, which ascend, up to a limit. -/
def markSums (limit left : Nat) : (others : List Nat) → Array Bool → Checked (Array Bool)
  | [], marks => .ok marks
  | right :: others, marks => do
      let sum ← Checked.add word left right
      if limit < sum then return marks
      markSums limit left others (← Checked.write marks sum true)

/-- Marks the sums of any two numbers of an ascending list, up to a limit. -/
def markPairs (limit : Nat) : (numbers : List Nat) → Array Bool → Checked (Array Bool)
  | [], marks => .ok marks
  | number :: numbers, marks => do
      markPairs limit numbers (← markSums limit number (number :: numbers) marks)

/-- Tells for each number from zero to a limit whether it is a sum of two
abundant numbers. -/
def abundantSums (limit : Nat) : Checked (Array Bool) := do
  let abundant ← abundantUpTo limit
  let size ← Checked.add word limit 1
  markPairs limit abundant (← Checked.table 1 size false)

/-- Every number above this one is a sum of two abundant numbers. -/
def searchLimit : Nat := 28123

/-- The sum of the positive numbers up to a limit that are no such sum.  Up to the
limit of the search or any later one, it is the sum of all of them. -/
def answer (limit : Nat) : Checked Nat := do
  let marks ← abundantSums limit
  (Progression.inclusive 1 limit).foldM 0 fun sum number => do
    if ← Checked.entry marks number then pure sum else Checked.add word sum number

end NumberPuzzles.AbundantSum
