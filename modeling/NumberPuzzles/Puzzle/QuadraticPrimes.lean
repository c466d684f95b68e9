import NumberPuzzles.Prime.Table

/-!
# Quadratic polynomials that begin with primes

The polynomials are monic, their coefficients signed words.  A run counts from
zero how many values in a row are prime.
-/

namespace NumberPuzzles.QuadraticPrimes

@[inline] def value (linear constant : Int) (point : Nat) : Checked Int := do
  let square ← Signed.mul point point
  let middle ← Signed.mul linear point
  Signed.add (← Signed.add square middle) constant

/-- Counts on from a point, at most as many points as told. -/
def runFrom (linear constant : Int) (point : Nat) : (points : Nat) → Run PrimeMemo Fault Nat
  | 0 => throw .endless
  | points + 1 => do
      let value ← value linear constant point
      if value < 2 then return point
      if ← isPrimeCached value.toNat then runFrom linear constant (point + 1) points
      else return point

/-- How many values in a row, from the point zero on, are prime.  The square of a
point of 32 bits already leaves the signed words, so no more points are needed. -/
def consecutivePrimes (linear constant : Int) : Run PrimeMemo Fault Nat :=
  runFrom linear constant 0 halfWord

structure Quadratic where
  linear : Int
  constant : Int
  run : Nat
  deriving Repr, DecidableEq

/-- The first polynomial with a longer run than the one to beat and all others,
over so many constants from a given one on. -/
def bestConstant (linear : Int) :
    (constant : Int) → (constants : Nat) → Quadratic → Run PrimeMemo Fault Quadratic
  | _, 0, best => pure best
  | constant, constants + 1, best => do
      let run ← consecutivePrimes linear constant
      bestConstant linear (constant + 1) constants
        (if best.run < run then ⟨linear, constant, run⟩ else best)

/-- The first polynomial with a longer run than the one to beat and all others,
over so many linear coefficients from a given one on.  The constants go from the
least one over the same number of values for each. -/
def bestLinear (leastConstant : Int) (constants : Nat) :
    (linear : Int) → (linears : Nat) → Quadratic → Run PrimeMemo Fault Quadratic
  | _, 0, best => pure best
  | linear, linears + 1, best => do
      let candidate ← bestConstant linear leastConstant constants ⟨linear, 0, 0⟩
      bestLinear leastConstant constants (linear + 1) linears
        (if best.run < candidate.run then candidate else best)

/-- The polynomial with the longest run whose coefficients are at most the bound
in magnitude; of several, the one that comes first by its linear coefficient and
then by its constant. -/
def bestCoefficients (bound : Int) : Run PrimeMemo Fault Quadratic := do
  let least ← Signed.neg bound
  let values := (bound - least + 1).toNat
  bestLinear least values least values ⟨0, 0, 0⟩

def answer (bound : Int) : Checked Int := do
  let best ← ((bestCoefficients bound).run.run PrimeMemo.initial).1
  Signed.mul best.linear best.constant

end NumberPuzzles.QuadraticPrimes
