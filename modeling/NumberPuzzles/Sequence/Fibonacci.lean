import NumberPuzzles.Digits
import NumberPuzzles.Source

/-!
# Fibonacci numbers

The numbers are of any size and the stream never ends; it keeps the two terms
that the following one is the sum of.  The index of a term is a machine word, so
a count of terms that is to go past the words is a fault.
-/

namespace NumberPuzzles

/-- Two neighbouring terms, the first of which is handed out next.  Only the very first term
is zero. -/
structure Fibonacci where
  current : Nat
  following : Nat
  following_pos : 0 < following
  deriving Repr, DecidableEq

namespace Fibonacci

def initial : Fibonacci := ⟨0, 1, Nat.one_pos⟩

instance : Inhabited Fibonacci := ⟨initial⟩

def advance (pair : Fibonacci) : Fibonacci :=
  ⟨pair.following, pair.current + pair.following, Nat.add_pos_right _ pair.following_pos⟩

def next {ε : Type} : Source Fibonacci ε Nat := fun pair =>
  (.ok (some pair.current), pair.advance)

/-- Counts on over the terms from a given pair on, as long as they have fewer decimal digits
than told.  Every step brings the two terms nearer to a power of ten, since what is added to a
term is not zero. -/
def countShorter (digits : Nat) (pair : Fibonacci) (count : Nat) : Checked Nat := do
  if hasFewerDigits digits pair.current then
    countShorter digits pair.advance (← Checked.add word count 1)
  else return count
termination_by
  (Nat.pow 10 (digits - 1) - pair.current) + (Nat.pow 10 (digits - 1) - pair.following)
decreasing_by
  next hfewer _ =>
    have hbelow := lt_pow_of_hasFewerDigits hfewer
    have hpositive := pair.following_pos
    simp only [advance]
    omega

end Fibonacci

/-- The index of the first Fibonacci number that has at least so many decimal digits. -/
def firstTermWithDigits (digits : Nat) : Checked Nat :=
  Fibonacci.initial.countShorter digits 0

end NumberPuzzles
