import NumberPuzzles.Prime.Stream
import NumberPuzzles.Prime.Table

/-!
# Truncatable primes

Cutting a number at each of its places leaves a left and a right part; both have
to be prime at every cut.  The primes of one digit are not cut and do not count.
-/

namespace NumberPuzzles.TruncatablePrime

/-- Both parts are prime at every cut from a power of ten on that is at most the
number.  A part is not tested after one that is not prime. -/
def cutsArePrime (number : Nat) (scale : Nat) : (cuts : Nat) → Run PrimeMemo Fault Bool
  | 0 => throw .endless
  | cuts + 1 => do
      if number < scale then return true
      unless ← isPrimeCached (number / scale) do return false
      unless ← isPrimeCached (number % scale) do return false
      cutsArePrime number (← Checked.mul word scale 10) cuts

/-- A number above seven whose parts are prime at every cut.  Machine words have
at most twenty digits, so there are at most twenty powers to look at. -/
def isTruncatablePrime (number : Nat) : Run PrimeMemo Fault Bool :=
  if number ≤ 7 then pure false else cutsArePrime number 10 20

/-- The stream of primes beside the answers about their parts. -/
structure Search where
  stream : PrimeStream
  memo : PrimeMemo

namespace Search

def initial : Search := ⟨PrimeStream.initial, PrimeMemo.initial⟩

/-- The next prime, and whether it is truncatable. -/
def next : Run Search Fault (Option (Nat × Bool)) := fun ⟨stream, memo⟩ =>
  match PrimeStream.next.run.run stream with
  | (.error fault, stream) => (.error fault, ⟨stream, memo⟩)
  | (.ok none, stream) => (.ok none, ⟨stream, memo⟩)
  | (.ok (some prime), stream) =>
      match (isTruncatablePrime prime).run.run memo with
      | (.error fault, memo) => (.error fault, ⟨stream, memo⟩)
      | (.ok truncatable, memo) => (.ok (some (prime, truncatable)), ⟨stream, memo⟩)

end Search

/-- The first truncatable primes, as many as wanted, among so many primes. -/
def collect : (wanted primes : Nat) → Run Search Fault (List Nat)
  | 0, _ => pure []
  | _ + 1, 0 => throw .endless
  | wanted + 1, primes + 1 => do
      match ← Search.next with
      | none => pure []
      | some (prime, true) => return prime :: (← collect wanted primes)
      | some (_, false) => collect (wanted + 1) primes

/-- The sum of the first truncatable primes, of which there are eleven. -/
def answer (wanted : Nat) : Checked Nat := do
  Checked.sum word (← ((collect wanted word).run.run Search.initial).1)

end NumberPuzzles.TruncatablePrime
