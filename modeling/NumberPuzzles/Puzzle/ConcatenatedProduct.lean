import NumberPuzzles.Arrangement.Walk
import NumberPuzzles.Text.Numeral

/-!
# Pandigital multiples

A text is a concatenated product when it is made of a number times one, times
two, and so on, written one after the other, with at least two products.  The
number is a beginning of the text, so each proper beginning is tried.
-/

namespace NumberPuzzles.ConcatenatedProduct

def byteLength (text : List Char) : Nat := (text.map Char.utf8Size).foldl (· + ·) 0

/-- Each product takes at least one digit. -/
theorem length_lt_append_decimal (built : List Char) (product : Nat) :
    built.length < (built ++ Text.decimal product).length := by
  rw [List.length_append]
  exact Nat.lt_add_of_pos_right (List.length_pos_iff.mpr (Text.decimal_ne_nil product))

/-- Writes on with the product by a factor, and those after it, until the text is as
long as told; with it goes the factor that would be next. -/
def buildFrom (base length factor : Nat) (built : List Char) : Checked (List Char × Nat) := do
  if length ≤ built.length then return (built, factor)
  let product ← Checked.mul word base factor
  buildFrom base length (factor + 1) (built ++ Text.decimal product)
termination_by length - built.length
decreasing_by
  have := length_lt_append_decimal built product
  omega

/-- The text is made of the products of a base, at least two of them. -/
def isProductOf (text : List Char) (base : Nat) : Checked Bool := do
  let (built, factor) ← buildFrom base (byteLength text) 1 []
  return decide (2 < factor) && built == text

/-- A beginning of the text is a number, and the text is made of its products. -/
def isBaseOf (text front : List Char) : Checked Bool :=
  match Text.readWord front with
  | .ok base => isProductOf text base
  | .error _ => .ok false

/-- Some beginning of the text, from the given one on, is the base of its
products.  A text can only be cut between characters. -/
def someBeginning (text : List Char) : (front rest : List Char) → Checked Bool
  | _, [] => .ok false
  | front, letter :: rest =>
      if 1 < letter.utf8Size then .error .splitCharacter
      else if rest.isEmpty then .ok false
      else do
        if ← isBaseOf text (front ++ [letter]) then return true
        someBeginning text (front ++ [letter]) rest

/-- The text is the concatenated product of some number with one, two, …, up to
at least two. -/
def isConcatenatedProduct (text : List Char) : Checked Bool := someBeginning text [] text

def otherDigits : List Char := ['1', '2', '3', '4', '5', '6', '7', '8']

/-- The largest concatenated product that is made of a leading digit and some
arrangement of other digits. -/
def largestMultiple (lead : Char) (others : List Char) : Checked (Option String) :=
  Walk.findM? .descending others fun rest => do
    let candidate := lead :: rest
    return if ← isConcatenatedProduct candidate then some (String.ofList candidate) else none

/-- The largest pandigital multiple that begins with a nine; there is one, so it is
larger than any that does not. -/
def largestPandigitalMultiple (others : List Char) : Checked (Option String) :=
  largestMultiple '9' others

end NumberPuzzles.ConcatenatedProduct
