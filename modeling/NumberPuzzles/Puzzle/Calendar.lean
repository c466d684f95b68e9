import NumberPuzzles.Fault

/-!
# Months that begin on a Sunday

Days are counted in the Gregorian calendar, carried back before its start by its
own leap rule.  Years outside the calendar's range have no days.
-/

namespace NumberPuzzles.Calendar

def firstYear : Int := -262143

def lastYear : Int := 262142

def isLeapYear (year : Int) : Bool :=
  year % 4 = 0 ∧ (year % 100 ≠ 0 ∨ year % 400 = 0)

def monthLengths (year : Int) : List Int :=
  [31, if isLeapYear year then 29 else 28, 31, 30, 31, 30, 31, 31, 30, 31, 30, 31]

/-- The number of days before a year, counted from the start of the year one. -/
def daysBeforeYear (year : Int) : Int :=
  let past := year - 1
  365 * past + past / 4 - past / 100 + past / 400

/-- A day is a Sunday when as many days come before it as in whole weeks and six
days: the first day of the year one is a Monday. -/
@[irreducible] def isSunday (daysBefore : Int) : Bool := daysBefore % 7 = 6

/-- How many of some months in a row begin on a Sunday. -/
def sundaysFrom : (daysBefore : Int) → (months : List Int) → Nat
  | _, [] => 0
  | daysBefore, month :: months =>
      (if isSunday daysBefore then 1 else 0) + sundaysFrom (daysBefore + month) months

def sundaysInYear (year : Int) : Nat := sundaysFrom (daysBeforeYear year) (monthLengths year)

/-- How many months begin on a Sunday, over so many years from a given one on. -/
def sundaysOver (sundays : Nat) (year : Int) : (years : Nat) → Nat
  | 0 => sundays
  | years + 1 => sundaysOver (sundays + sundaysInYear year) (year + 1) years

/-- How many months begin on a Sunday from one year to another, both included. -/
def sundaysOnFirst (first last : Int) : Nat :=
  let first := max first firstYear
  let last := min last lastYear
  sundaysOver 0 first (last - first + 1).toNat

end NumberPuzzles.Calendar
