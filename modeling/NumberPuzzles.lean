import NumberPuzzles.Main
import NumberPuzzles.Proofs.Arrangement.Inverse
import NumberPuzzles.Proofs.Digits
import NumberPuzzles.Proofs.Memo.Accounting
import NumberPuzzles.Proofs.Memo.Recursion
import NumberPuzzles.Proofs.Prime.Factors
import NumberPuzzles.Proofs.Prime.Sieve
import NumberPuzzles.Proofs.Text.Lines
import NumberPuzzles.Proofs.Text.Numeral
import NumberPuzzles.Proofs.Fixture.Triangle
import NumberPuzzles.Proofs.Fixture.Words
import NumberPuzzles.Proofs.Sequence.Champernowne.Product
import NumberPuzzles.Proofs.Sequence.Fibonacci
import NumberPuzzles.Proofs.Sequence.Figurate
import NumberPuzzles.Proofs.Puzzle.AbundantSum.Coverage
import NumberPuzzles.Proofs.Puzzle.CodedWord
import NumberPuzzles.Proofs.Puzzle.Collatz.Longest
import NumberPuzzles.Proofs.Puzzle.DigitFactorial
import NumberPuzzles.Proofs.Puzzle.DigitPower
import NumberPuzzles.Proofs.Puzzle.LatticePath
import NumberPuzzles.Proofs.Puzzle.NumberWords
import NumberPuzzles.Proofs.Puzzle.PandigitalProduct
import NumberPuzzles.Proofs.Puzzle.TruncatablePrime.Search
import NumberPuzzles.Proofs.Puzzle.ReciprocalCycle.Division
import NumberPuzzles.Proofs.Puzzle.CoinChange.Choices
import NumberPuzzles.Proofs.Puzzle.CoinChange.Table
import NumberPuzzles.Proofs.Puzzle.TrianglePath
import NumberPuzzles.Proofs.Puzzle.PrimeRun.Limit
import NumberPuzzles.Proofs.Puzzle.SelfPower
import NumberPuzzles.Proofs.Puzzle.QuadraticPrimes.Length
import NumberPuzzles.Proofs.Puzzle.QuadraticPrimes.Search
import NumberPuzzles.Proofs.Digits.Rotation
import NumberPuzzles.Proofs.Puzzle.CircularPrime
import NumberPuzzles.Proofs.Puzzle.ConcatenatedProduct.Search
import NumberPuzzles.Proofs.Arrangement.Search
import NumberPuzzles.Proofs.Puzzle.ConcatenatedProduct.Largest
import NumberPuzzles.Proofs.Puzzle.PandigitalPrime
import NumberPuzzles.Proofs.Puzzle.SubstringDivisibility
import NumberPuzzles.Proofs.Puzzle.RightTriangle.Groups
import NumberPuzzles.Proofs.Puzzle.RightTriangle.Triangles
import NumberPuzzles.Proofs.Puzzle.OddGoldbach
import NumberPuzzles.Proofs.Puzzle.ConsecutiveFactors
import NumberPuzzles.Proofs.Puzzle.Calendar.Gregorian
import NumberPuzzles.Proofs.Puzzle.LargeSum
import NumberPuzzles.Proofs.Puzzle.SpiralDiagonal
import NumberPuzzles.Proofs.Puzzle.CancellingFraction
