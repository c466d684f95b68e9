import NumberPuzzles.Digits

/-!
# Decimal numerals

Writing gives the usual decimal form.  There are two readers, and they differ in
what they admit beside digits: machine words may have one plus sign, and numbers
of any size may also have underscores between or behind their digits.
-/

namespace NumberPuzzles.Text

inductive NumeralError where
  | empty
  | invalidDigit
  | tooLarge
  deriving DecidableEq, Repr

namespace NumeralError

def message : NumeralError → String
  | empty => "cannot parse integer from empty string"
  | invalidDigit => "invalid digit found in string"
  | tooLarge => "number too large to fit in target type"

end NumeralError

def decimal (number : Nat) : List Char := (digits number).map Nat.digitChar

@[simp]
theorem decimal_ne_nil (number : Nat) : decimal number ≠ [] := by
  simp [decimal, digits]

def decimalString (number : Nat) : String := String.ofList (decimal number)

/-- The decimal form, filled with zeros in front up to a width. -/
def padded (width number : Nat) : List Char :=
  let text := decimal number
  List.replicate (width - text.length) '0' ++ text

def digitValue? (letter : Char) : Option Nat :=
  if letter.isDigit then some (letter.toNat - '0'.toNat) else none

/-- Appends digits to a value below a limit.  A character that is no digit is
refused before the value in front of it is found too large. -/
def readDigits (limit : Nat) : Nat → List Char → Except NumeralError Nat
  | value, [] => .ok value
  | value, letter :: letters =>
      match digitValue? letter with
      | none => .error .invalidDigit
      | some digit =>
          if value * 10 + digit < limit then readDigits limit (value * 10 + digit) letters
          else .error .tooLarge

/-- Reads a number below a limit: digits, with at most one plus sign in front. -/
def readBelow (limit : Nat) : List Char → Except NumeralError Nat
  | [] => .error .empty
  | ['+'] => .error .invalidDigit
  | '+' :: letters => readDigits limit 0 letters
  | letters => readDigits limit 0 letters

def readWord (text : List Char) : Except NumeralError Nat := readBelow word text

/-- Appends digits to a value of any size; underscores are passed over. -/
def readLongDigits : Nat → List Char → Except NumeralError Nat
  | value, [] => .ok value
  | value, '_' :: letters => readLongDigits value letters
  | value, letter :: letters =>
      match digitValue? letter with
      | none => .error .invalidDigit
      | some digit => readLongDigits (value * 10 + digit) letters

/-- The text behind a plus sign, unless another one follows it. -/
def dropPlus : List Char → List Char
  | '+' :: '+' :: letters => '+' :: '+' :: letters
  | '+' :: letters => letters
  | letters => letters

/-- Reads a number of any size.  The digits may be parted by underscores, but not
begin with one. -/
def readNatural (text : List Char) : Except NumeralError Nat :=
  match dropPlus text with
  | [] => .error .empty
  | '_' :: _ => .error .invalidDigit
  | letters => readLongDigits 0 letters

end NumberPuzzles.Text
