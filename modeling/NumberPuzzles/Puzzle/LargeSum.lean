import NumberPuzzles.Text.Numeral

/-!
# The leading digits of a large sum
-/

namespace NumberPuzzles.LargeSum

def firstDigits (number count : Nat) : List Char := (Text.decimal number).take count

/-- The first ten digits of the sum of the numbers. -/
def answer (numbers : List Nat) : String := String.ofList (firstDigits (numbers.foldl (· + ·) 0) 10)

end NumberPuzzles.LargeSum
