import NumberPuzzles.Memo
import NumberPuzzles.Prime.Trial

/-!
# Primality over a growing table

The primes found so far are kept, and a question grows them just past the square
root of its number.  The answers therefore depend on a state that every earlier
question has shaped; the table is always a gap-free beginning of the primes, so
they do not depend on which questions those were.
-/

namespace NumberPuzzles

/-- The primes found so far, ascending. -/
structure PrimeTable where
  primes : Array Nat
  deriving Repr

namespace PrimeTable

def initial : PrimeTable := ⟨#[2, 3]⟩

instance : Inhabited PrimeTable := ⟨initial⟩

/-- The table reaches the limit: its last prime is not below it. -/
def covers (table : PrimeTable) (limit : Nat) : Bool :=
  match table.primes.back? with
  | some last => decide (limit ≤ last)
  | none => false

/-- Tests every second number from a candidate on, and keeps the primes, until
the table reaches the limit. -/
def growFrom (limit candidate : Nat) : Run PrimeTable Fault Unit := fun table =>
  if table.covers limit then (.ok (), table)
  else
    match hasKnownDivisor table.primes candidate with
    | .error fault => (.error fault, table)
    | .ok divisible =>
        let table := if divisible then table else ⟨table.primes.push candidate⟩
        if _inside : candidate + 2 < word then growFrom limit (candidate + 2) table
        else (.error .add, table)
termination_by word - candidate

def grow (limit : Nat) : Run PrimeTable Fault Unit := do
  let table ← get
  if table.covers limit then return
  let candidate ← match table.primes.back? with
    | some last => Checked.add word last 2
    | none => pure 2
  growFrom limit candidate

end PrimeTable

/-- Primality by trial division.  The table is grown one past the square root,
so that a divisor search always ends on a prime that is too large. -/
def isPrime (number : Nat) : Run PrimeTable Fault Bool := do
  if number < 2 then return false
  if number = 2 then return true
  let limit ← Checked.add word (← isqrt number) 1
  PrimeTable.grow limit
  let table ← get
  return !(← hasKnownDivisor table.primes number)

/-- The primality answers given so far, beside the table they came from. -/
abbrev PrimeMemo := Memo Nat Bool PrimeTable

namespace PrimeMemo

def initial : PrimeMemo := Memo.empty PrimeTable.initial

end PrimeMemo

/-- Primality with every answer kept, for searches that ask about the same
numbers over and over. -/
def isPrimeCached (number : Nat) : Run PrimeMemo Fault Bool :=
  Memo.apply isPrime number

def isPrimeUncached (number : Nat) : Run PrimeMemo Fault Bool :=
  Memo.within (isPrime number)

end NumberPuzzles
