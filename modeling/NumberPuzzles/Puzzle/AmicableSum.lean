import NumberPuzzles.Divisor

/-!
# The sum of the amicable numbers
-/

namespace NumberPuzzles.AmicableSum

/-- The sum of the numbers below a limit that have an amicable partner. -/
def answer (limit : Nat) : Checked Nat :=
  (Progression.below 1 limit).foldM 0 fun sum number => do
    match ← amicablePartner? number with
    | some _ => Checked.add word sum number
    | none => pure sum

end NumberPuzzles.AmicableSum
