import NumberPuzzles.Fixture.Reading
import NumberPuzzles.Puzzle.AbundantSum
import NumberPuzzles.Puzzle.AmicableSum
import NumberPuzzles.Puzzle.Calendar
import NumberPuzzles.Puzzle.CancellingFraction
import NumberPuzzles.Puzzle.CircularPrime
import NumberPuzzles.Puzzle.CodedWord
import NumberPuzzles.Puzzle.CoinChange
import NumberPuzzles.Puzzle.Collatz
import NumberPuzzles.Puzzle.ConcatenatedProduct
import NumberPuzzles.Puzzle.ConsecutiveFactors
import NumberPuzzles.Puzzle.DigitFactorial
import NumberPuzzles.Puzzle.DigitPermutation
import NumberPuzzles.Puzzle.DigitPower
import NumberPuzzles.Puzzle.LargeSum
import NumberPuzzles.Puzzle.LatticePath
import NumberPuzzles.Puzzle.NumberWords
import NumberPuzzles.Puzzle.OddGoldbach
import NumberPuzzles.Puzzle.PandigitalPrime
import NumberPuzzles.Puzzle.PandigitalProduct
import NumberPuzzles.Puzzle.PrimePermutation
import NumberPuzzles.Puzzle.PrimeRun
import NumberPuzzles.Puzzle.QuadraticPrimes
import NumberPuzzles.Puzzle.ReciprocalCycle
import NumberPuzzles.Puzzle.RightTriangle
import NumberPuzzles.Puzzle.SelfPower
import NumberPuzzles.Puzzle.SpiralDiagonal
import NumberPuzzles.Puzzle.SubstringDivisibility
import NumberPuzzles.Puzzle.TrianglePath
import NumberPuzzles.Puzzle.TruncatablePrime
import NumberPuzzles.Sequence.Champernowne
import NumberPuzzles.Sequence.Fibonacci

/-!
# The catalogue of problems

Each problem has a number and an answer, which is a text.  Three of them read a
fixture, and a few are searches that could in principle end without a result.
-/

namespace NumberPuzzles

inductive ProblemError where
  | fixture (error : FixtureError)
  | unknown (id : Nat)
  | noSolution (id : Nat) (reason : String)
  | fault (stop : Fault)
  deriving DecidableEq, Repr

namespace ProblemError

/-- The wording of an error; a fault has one only if it is arithmetic. -/
def message? : ProblemError → Option String
  | fixture error => some error.message
  | unknown id => some ("problem " ++ Text.decimalString id ++ " is not implemented")
  | noSolution id reason =>
      some ("problem " ++ Text.decimalString id ++ ": no solution found (" ++ reason ++ ")")
  | fault stop => stop.message?

def cause? : ProblemError → Option String
  | fixture error => error.cause?
  | _ => none

end ProblemError

structure Problem where
  id : Nat
  solve : Fixtures → Except ProblemError String

namespace Problem

/-- The answer as a text, or the fault that stopped its computation. -/
def shown {α : Type} (text : α → String) : Checked α → Except ProblemError String
  | .ok value => .ok (text value)
  | .error stop => .error (.fault stop)

/-- A problem with an answer of any kind, and how that is written. -/
def text {α : Type} (id : Nat) (write : α → String) (answer : Unit → Checked α) : Problem :=
  ⟨id, fun _ => shown write (answer ())⟩

def number (id : Nat) (answer : Unit → Checked Nat) : Problem :=
  text id Text.decimalString answer

/-- A problem that is a search, and the reason to give when nothing is found. -/
def search {α : Type} (id : Nat) (reason : String) (write : α → String)
    (answer : Unit → Checked (Option α)) : Problem :=
  ⟨id, fun _ =>
    match answer () with
    | .ok (some value) => .ok (write value)
    | .ok none => .error (.noSolution id reason)
    | .error stop => .error (.fault stop)⟩

/-- A problem that is answered from a fixture. -/
def fromFixture {α : Type} (id : Nat) (read : Fixtures → Except FixtureError α)
    (answer : α → Except ProblemError String) : Problem :=
  ⟨id, fun fixtures =>
    match read fixtures with
    | .ok data => answer data
    | .error error => .error (.fixture error)⟩

end Problem

def signedString (value : Int) : String :=
  if value < 0 then "-" ++ Text.decimalString value.natAbs else Text.decimalString value.natAbs

def goldbachReason : String :=
  "every odd composite below " ++ Text.decimalString OddGoldbach.searchLimit ++ " fits"

section

variable {ε : Type} (readNumeral : List Char → Except ε Nat) (describe : ε → String)

/-- The problems, by their numbers, with a given reader of numerals of any size. -/
def catalogueBy : List Problem := [
  .fromFixture 13 (·.numbersBy readNumeral describe "numbers.txt") fun numbers =>
    .ok (LargeSum.answer numbers),
  .number 14 fun _ => Collatz.answer 1000000,
  .number 15 fun _ => LatticePath.answer 20,
  .number 17 fun _ => NumberWords.answer 1000,
  .fromFixture 18 (·.triangle "triangle.txt") fun triangle =>
    Problem.shown Text.decimalString (TrianglePath.maxPathSum triangle),
  .number 19 fun _ => .ok (Calendar.sundaysOnFirst 1901 2000),
  .number 21 fun _ => AmicableSum.answer 10000,
  .number 23 fun _ => AbundantSum.answer AbundantSum.searchLimit,
  .search 24 "fewer than 10! permutations" id fun _ => DigitPermutation.atPosition 1000000,
  .number 25 fun _ => firstTermWithDigits 1000,
  .number 26 fun _ => ReciprocalCycle.answer 1000,
  .text 27 signedString fun _ => QuadraticPrimes.answer 999,
  .number 28 fun _ => SpiralDiagonal.diagonalSum 1001,
  .number 30 fun _ => DigitPower.answer 5,
  .number 31 fun _ => CoinChange.combinations 200 CoinChange.pence,
  .number 32 fun _ => PandigitalProduct.answer PandigitalProduct.shapes,
  .number 33 fun _ => CancellingFraction.answer,
  .number 34 fun _ => DigitFactorial.answer DigitFactorial.mostDigits,
  .number 35 fun _ => CircularPrime.countBelow 1000000,
  .number 37 fun _ => TruncatablePrime.answer 11,
  .search 38 "no 9-leading pandigital multiple" id fun _ =>
    ConcatenatedProduct.largestPandigitalMultiple ConcatenatedProduct.otherDigits,
  .number 39 fun _ => RightTriangle.answer 500 1000,
  .number 40 fun _ => digitProduct 1000000,
  .search 41 "no pandigital prime" Text.decimalString fun _ =>
    PandigitalPrime.largestPandigitalPrime 9,
  .fromFixture 42 (·.words "words.txt") fun words =>
    Problem.shown Text.decimalString (CodedWord.countTriangleWords words),
  .number 43 fun _ => SubstringDivisibility.answer SubstringDivisibility.tenDigits,
  .search 46 goldbachReason Text.decimalString fun _ =>
    OddGoldbach.smallestCounterexample OddGoldbach.searchLimit,
  .number 47 fun _ => ConsecutiveFactors.firstConsecutive 4,
  .text 48 id fun _ => SelfPower.answer 1000,
  .text 49 id fun _ => PrimePermutation.answer PrimePermutation.fourDigits,
  .number 50 fun _ => PrimeRun.answer 1000000]

def runProblemBy (id : Nat) (fixtures : Fixtures) : Except ProblemError String :=
  match (catalogueBy readNumeral describe).find? fun problem => problem.id = id with
  | some problem => problem.solve fixtures
  | none => .error (.unknown id)

end

def catalogue : List Problem := catalogueBy Text.readNatural Text.NumeralError.message

def problemIds : List Nat := catalogue.map Problem.id

def runProblem (id : Nat) (fixtures : Fixtures) : Except ProblemError String :=
  runProblemBy Text.readNatural Text.NumeralError.message id fixtures

end NumberPuzzles
