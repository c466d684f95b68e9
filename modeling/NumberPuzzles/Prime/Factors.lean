import NumberPuzzles.Prime.Trial

/-!
# Distinct prime factors

Trial division by two and the odd numbers.  A divisor that is found is divided
out completely, so the next divisor found is prime; what is left above one when
the divisors pass its square root is the last prime.
-/

namespace NumberPuzzles

/-- Divides a positive number by a factor as long as that leaves no remainder. -/
def divideOut (factor : Nat) (large : 2 ≤ factor) (number : Nat) : Nat :=
  if _divides : number % factor = 0 ∧ 0 < number then divideOut factor large (number / factor)
  else number
termination_by number
decreasing_by exact Nat.div_lt_self _divides.2 large

theorem divideOut_le (factor : Nat) (large : 2 ≤ factor) (number : Nat) :
    divideOut factor large number ≤ number := by
  fun_induction divideOut factor large number with
  | case1 number _ ih => exact Nat.le_trans ih (Nat.div_le_self number factor)
  | case2 => exact Nat.le_refl _

/-- The primes that divide a number and are at least the given factor, when no
smaller number above one divides it.  The primes already found come first. -/
def primeFactorsFrom (number factor : Nat) (large : 2 ≤ factor) (found : List Nat) :
    Checked (List Nat) :=
  if _small : factor ≤ number / factor then
    if nextTrial factor < word then
      primeFactorsFrom (divideOut factor large number) (nextTrial factor)
        (Nat.le_trans large (Nat.le_of_lt (lt_nextTrial factor)))
        (if number % factor = 0 then factor :: found else found)
    else .error .add
  else .ok (if 1 < number then number :: found else found).reverse
termination_by number - factor
decreasing_by
  have : factor * 2 ≤ number :=
    Nat.le_trans (Nat.mul_le_mul_left factor large)
      ((Nat.le_div_iff_mul_le (by omega)).mp _small)
  have := divideOut_le factor large number
  have := lt_nextTrial factor
  omega

/-- The distinct primes that divide a number, ascending; none for zero and one. -/
def distinctPrimeFactors (number : Nat) : Checked (List Nat) :=
  primeFactorsFrom number 2 (Nat.le_refl 2) []

end NumberPuzzles
