/-!
# The sieve of Eratosthenes

A table holds one mark for each number below the limit.  Striking out the
multiples of every number still marked leaves the marks of the primes.  The
table's length is part of its type, so every position read or struck is one
that the table has.
-/

namespace NumberPuzzles

namespace Sieve

/-- Strikes out every `step`-th number from a position on. -/
def strike {limit : Nat} (step position : Nat) (positive : 0 < step)
    (marks : Vector Bool limit) : Vector Bool limit :=
  if inside : position < limit then
    strike step (position + step) positive (marks.set position false)
  else marks
termination_by limit - position

/-- Strikes out the multiples of each number still marked, from its square on,
while that square is below the limit. -/
def sift {limit : Nat} (current : Nat) (positive : 0 < current)
    (marks : Vector Bool limit) : Vector Bool limit :=
  if inside : current * current < limit then
    have : current < limit := Nat.lt_of_le_of_lt (Nat.le_mul_self current) inside
    sift (current + 1) (Nat.succ_pos current)
      (if marks[current] then strike current (current * current) positive marks else marks)
  else marks
termination_by limit - current

/-- The marked numbers below a position, ascending, in front of a list. -/
def marked {limit : Nat} (marks : Vector Bool limit) :
    (position : Nat) → position ≤ limit → List Nat → List Nat
  | 0, _, kept => kept
  | position + 1, inside, kept =>
      marked marks position (Nat.le_of_succ_le inside)
        (if marks[position] then position :: kept else kept)

end Sieve

def primesBelow (limit : Nat) : List Nat :=
  if large : limit < 3 then []
  else
    let marks := Vector.replicate limit true
    let marks := (marks.set 0 false (by omega)).set 1 false (by omega)
    Sieve.marked (Sieve.sift 2 (by decide) marks) limit (Nat.le_refl limit) []

end NumberPuzzles
