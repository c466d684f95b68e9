import NumberPuzzles.Word

/-!
# Decimal digits

A number is written as the list of its digits, most significant first, and read
back by Horner's rule.  Reading takes any list of entries, also ones above nine,
and is stopped at the first step that leaves the machine words.
-/

namespace NumberPuzzles

def digitsOnto (number : Nat) (tail : List Nat) : List Nat :=
  if number < 10 then number :: tail
  else digitsOnto (number / 10) (number % 10 :: tail)
termination_by number

@[simp]
theorem digitsOnto_ne_nil (number : Nat) (tail : List Nat) : digitsOnto number tail ≠ [] := by
  fun_induction digitsOnto number tail with
  | case1 => simp
  | case2 _ _ _ ih => exact ih

/-- The decimal digits, most significant first; zero has the one digit `0`. -/
def digits (number : Nat) : List Nat := digitsOnto number []

/-- One step of Horner's rule in words below the limit. -/
@[inline] def appendDigit (limit value digit : Nat) : Checked Nat := do
  Checked.add limit (← Checked.mul limit value 10) digit

def ofDigits (entries : List Nat) : Checked Nat :=
  entries.foldlM (appendDigit word) 0

def log10? (number : Nat) : Option Nat :=
  if number = 0 then none
  else if number < 10 then some 0
  else (log10? (number / 10)).map (· + 1)
termination_by number

/-- How many decimal digits a number has; zero has one. -/
def digitCount (number : Nat) : Nat :=
  match log10? number with
  | none => 1
  | some exponent => exponent + 1

/-- A number has fewer decimal digits than told.  It is compared with a power of ten only if it
has about as many binary digits, so no power is formed that is far past the number. -/
def hasFewerDigits (count number : Nat) : Bool :=
  if count < 2 then false
  else if number.log2 < 3 * (count - 1) then true
  else number < Nat.pow 10 (count - 1)

theorem lt_pow_of_hasFewerDigits {count number : Nat} (hfewer : hasFewerDigits count number) :
    number < Nat.pow 10 (count - 1) := by
  rw [hasFewerDigits] at hfewer
  split at hfewer
  · cases hfewer
  · split at hfewer
    · next hbinary =>
        calc number < 2 ^ (number.log2 + 1) := Nat.lt_log2_self
          _ ≤ 2 ^ (3 * (count - 1)) := Nat.pow_le_pow_right (by decide) hbinary
          _ = 8 ^ (count - 1) := Nat.pow_mul ..
          _ ≤ Nat.pow 10 (count - 1) := Nat.pow_le_pow_left (by decide) _
    · exact of_decide_eq_true hfewer

/-- The product of the numbers from one to the given one, as a machine word. -/
def smallFactorialFrom (product current : Nat) : Nat → Checked Nat
  | 0 => .ok product
  | count + 1 => do
      smallFactorialFrom (← Checked.mul word product current) (current + 1) count

def smallFactorial (number : Nat) : Checked Nat :=
  smallFactorialFrom 1 1 number

/-- Adds the factorials of the digits to a sum; zero has no digit here. -/
def addDigitFactorials (number sum : Nat) : Checked Nat :=
  if number = 0 then .ok sum
  else do
    let sum ← Checked.add word sum (← smallFactorial (number % 10))
    addDigitFactorials (number / 10) sum
termination_by number

/-- The sum of the factorials of the digits; it is `0` for zero. -/
def digitFactorialSum (number : Nat) : Checked Nat :=
  addDigitFactorials number 0

/-- Adds the powers of the digits to a sum, while everything is a machine word. -/
def addDigitPowers? (power number sum : Nat) : Option Nat :=
  if number = 0 then some sum
  else do
    let term ← wordPower? (number % 10) power
    if sum + term < word then addDigitPowers? power (number / 10) (sum + term) else none
termination_by number

/-- The sum of the digits, each raised to a power, when it is a machine word.
The number zero has the sum `0` for every power. -/
def digitPowerSum? (power number : Nat) : Option Nat :=
  addDigitPowers? power number 0

/-- The cyclic shifts of a list, each one place further to the left. -/
def shifts {α : Type} : Nat → List α → List (List α)
  | 0, _ => []
  | count + 1, entries => entries :: shifts count (entries.drop 1 ++ entries.take 1)

/-- The values of all rotations of the digits, the number itself first. -/
def rotations (number : Nat) : Checked (List Nat) :=
  let entries := digits number
  (shifts entries.length entries).mapM ofDigits

/-- Two numbers with the same digits, each as often in the one as in the other. -/
def sameDigits (left right : Nat) : Bool :=
  (digits left).isPerm (digits right)

/-- Every character is a digit between the bounds that was not seen before. -/
def freshDigits (first last : Nat) : List Char → List Nat → Bool
  | [], _ => true
  | letter :: letters, seen =>
      let digit := letter.toNat - '0'.toNat
      letter.isDigit && decide (first ≤ digit ∧ digit ≤ last) && !seen.contains digit &&
        freshDigits first last letters (digit :: seen)

/-- Uses every digit from the first to the last exactly once, and nothing else. -/
def isPandigital (text : List Char) (first last : Nat) : Bool :=
  decide (first ≤ last ∧ last ≤ 9) && decide (text.length = last - first + 1) &&
    freshDigits first last text []

/-- Goes through the bytes of a text with a table of the digits met so far, and ends
at the first byte that is no digit between the bounds or has its digit marked. -/
def marksFresh (first last : Nat) : List UInt8 → Array Bool → Checked Bool
  | [], _ => .ok true
  | byte :: bytes, marks => do
      if byte.toNat < '0'.toNat ∨ '9'.toNat < byte.toNat then return false
      let digit ← Checked.sub byte.toNat '0'.toNat
      if digit < first ∨ last < digit then return false
      if ← Checked.entry marks digit then return false
      marksFresh first last bytes (← Checked.write marks digit true)

/-- The same test on the bytes of a text, for bounds that are bytes themselves.  The
width of their range is computed only for bounds that are in order and at most nine. -/
def isPandigitalText (text : String) (first last : Nat) : Checked Bool := do
  if last < first ∨ 9 < last then return false
  let width ← Checked.add 256 (← Checked.sub last first) 1
  if text.utf8ByteSize ≠ width then return false
  marksFresh first last text.toUTF8.toList (Array.replicate 10 false)

end NumberPuzzles
