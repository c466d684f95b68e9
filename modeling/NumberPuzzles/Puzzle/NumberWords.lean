import NumberPuzzles.Progression
import NumberPuzzles.Word

/-!
# Numbers in words

The British wording of a number, without spaces or hyphens: groups of three
digits with the name of their scale, and an "and" behind the hundreds.  Zero has
no words.
-/

namespace NumberPuzzles.NumberWords

/-- The words below twenty; nothing is said for zero. -/
def ones : Array String :=
  #["", "one", "two", "three", "four", "five", "six", "seven", "eight", "nine", "ten",
    "eleven", "twelve", "thirteen", "fourteen", "fifteen", "sixteen", "seventeen",
    "eighteen", "nineteen"]

def tens : Array String :=
  #["", "", "twenty", "thirty", "forty", "fifty", "sixty", "seventy", "eighty", "ninety"]

/-- The scales above the hundreds, greatest first. -/
def scales : List (Nat × String) :=
  [(1000000000, "billion"), (1000000, "million"), (1000, "thousand")]

def belowHundred (number : Nat) : Checked (List Char) := do
  if number < 20 then return (← Checked.entry ones number).toList
  let ten ← Checked.entry tens (number / 10)
  let one ← Checked.entry ones (number % 10)
  return ten.toList ++ one.toList

def belowThousand (number : Nat) : Checked (List Char) := do
  let hundreds := number / 100
  let rest := number % 100
  if hundreds = 0 then belowHundred rest
  else
    let count ← Checked.entry ones hundreds
    let joint := if rest = 0 then "" else "and"
    return count.toList ++ "hundred".toList ++ joint.toList ++ (← belowHundred rest)

/-- The words of a number, with the scales that it may reach. -/
def wordsFrom : List (Nat × String) → Nat → Checked (List Char)
  | [], number => belowThousand number
  | (scale, name) :: scales, number => do
      if number < scale then wordsFrom scales number
      else
        let group ← belowThousand (number / scale)
        return group ++ name.toList ++ (← wordsFrom scales (number % scale))

def asWords (number : Nat) : Checked (List Char) := wordsFrom scales number

def letterCount (number : Nat) : Checked Nat := do
  return (← asWords number).length

/-- How many letters the words of the numbers from one to a last one have together. -/
def answer (last : Nat) : Checked Nat :=
  (Progression.inclusive 1 last).foldM 0 fun total number => do
    Checked.add word total (← letterCount number)

end NumberPuzzles.NumberWords
