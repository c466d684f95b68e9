import Mathlib.Algebra.BigOperators.Associated
import Mathlib.Data.Finset.Sort
import Mathlib.Data.Nat.PrimeFin
import Mathlib.Tactic.NormNum.Prime
import NumberPuzzles.Prime.Factors
import NumberPuzzles.Proofs.Prime.Table

/-!
# Dividing out finds every prime factor once

Trial division keeps what is left of a number when the prime factors below the next trial are
divided out.  Every prime that divides what is left divides the number too and is not below the
trial, so a trial that divides what is left is prime, and what is left above one at the end is
the last prime factor.  What is left never grows, which keeps the trials inside half a word, and
it is never zero, which no dividing out would make smaller.
-/

namespace NumberPuzzles

variable {number left factor prime : Nat} {large : 2 ≤ factor} {found : List Nat}

/-! ## Dividing out one factor -/

theorem divideOut_pos (hpositive : 0 < left) : 0 < divideOut factor large left := by
  fun_induction divideOut factor large left with
  | case1 left hdivides ih =>
      have hle : factor ≤ left := Nat.le_of_dvd hpositive (Nat.dvd_of_mod_eq_zero hdivides.1)
      exact ih (Nat.div_pos hle (by omega))
  | case2 => exact hpositive

/-- Dividing a factor out takes away that prime factor and no other. -/
theorem prime_dvd_divideOut (hpositive : 0 < left) (hfactor : factor ∣ left → factor.Prime)
    (hprime : prime.Prime) :
    prime ∣ divideOut factor large left ↔ prime ≠ factor ∧ prime ∣ left := by
  fun_induction divideOut factor large left with
  | case1 left hdivides ih =>
      obtain ⟨quotient, rfl⟩ := Nat.dvd_of_mod_eq_zero hdivides.1
      have hfactor := hfactor (Nat.dvd_mul_right factor quotient)
      rw [Nat.mul_div_cancel_left quotient hfactor.pos] at ih ⊢
      rw [ih (Nat.pos_of_mul_pos_left hpositive) fun _ => hfactor, hprime.dvd_mul,
        Nat.prime_dvd_prime_iff_eq hprime hfactor]
      tauto
  | case2 left hstop =>
      have hnot : ¬ factor ∣ left := by
        intro hdvd
        exact hstop ⟨Nat.mod_eq_zero_of_dvd hdvd, hpositive⟩
      constructor
      · intro hdvd
        exact ⟨fun heq => hnot (heq ▸ hdvd), hdvd⟩
      · exact And.right

/-! ## The state of trial division -/

/-- What is left of a number at the trial of a factor, and the primes found by then, the
greatest first: those below the factor are found and divided out, the others are left. -/
structure FactoredBelow (number left factor : Nat) (found : List Nat) : Prop where
  positive : 0 < left
  le : left ≤ number
  trial : IsTrial factor
  descending : found.Pairwise (· > ·)
  mem_found : ∀ {prime}, prime ∈ found ↔ prime < factor ∧ prime.Prime ∧ prime ∣ number
  dvd_left : ∀ {prime}, prime.Prime → (prime ∣ left ↔ factor ≤ prime ∧ prime ∣ number)

theorem IsTrial.lt_nextTrial_iff (htrial : IsTrial factor) (hprime : prime.Prime) :
    prime < NumberPuzzles.nextTrial factor ↔ prime ≤ factor := by
  have hmember : prime ∈ primesUnder (NumberPuzzles.nextTrial factor) ↔
      prime ∈ primesUnder (factor + 1) := by
    rw [htrial.primesUnder_nextTrial]
  simpa [hprime, Nat.lt_succ_iff] using hmember

section KeptPrime

variable {keep : Prop} [Decidable keep]

theorem mem_kept_iff : prime ∈ (if keep then factor :: found else found) ↔
    keep ∧ prime = factor ∨ prime ∈ found := by
  split
  next hkeep => rw [List.mem_cons, and_iff_right hkeep]
  next hskip => rw [or_iff_right fun hfirst => hskip hfirst.1]

theorem kept_descending (hfound : found.Pairwise (· > ·))
    (hgreatest : keep → ∀ prime ∈ found, prime < factor) :
    (if keep then factor :: found else found).Pairwise (· > ·) := by
  split
  next hkeep => exact List.pairwise_cons.mpr ⟨hgreatest hkeep, hfound⟩
  next => exact hfound

end KeptPrime

namespace FactoredBelow

theorem start (hpositive : 0 < number) : FactoredBelow number number 2 [] where
  positive := hpositive
  le := le_rfl
  trial := .inl rfl
  descending := .nil
  mem_found := by
    intro prime
    constructor
    · intro hmember
      cases hmember
    · rintro ⟨hsmall, hprime, -⟩
      exact absurd hprime.two_le (Nat.not_le.mpr hsmall)
  dvd_left hprime := by
    constructor
    · intro hdvd
      exact ⟨hprime.two_le, hdvd⟩
    · exact And.right

/-- A trial that divides what is left is prime: its least prime factor is no smaller. -/
theorem prime_of_dvd (hstate : FactoredBelow number left factor found) (hdvd : factor ∣ left) :
    factor.Prime := by
  have htwo := hstate.trial.two_le
  have hleast : factor.minFac.Prime := Nat.minFac_prime (by omega)
  have hle : factor ≤ factor.minFac :=
    ((hstate.dvd_left hleast).mp ((Nat.minFac_dvd factor).trans hdvd)).1
  have heq : factor.minFac = factor := Nat.le_antisymm (Nat.minFac_le (by omega)) hle
  exact heq ▸ hleast

/-- A trial divides what is left exactly when it is a prime factor of the number. -/
theorem factor_found_iff (hstate : FactoredBelow number left factor found) :
    left % factor = 0 ↔ factor.Prime ∧ factor ∣ number := by
  rw [← Nat.dvd_iff_mod_eq_zero]
  constructor
  · intro hdvd
    have hprime := hstate.prime_of_dvd hdvd
    exact ⟨hprime, ((hstate.dvd_left hprime).mp hdvd).2⟩
  · rintro ⟨hprime, hdvd⟩
    exact (hstate.dvd_left hprime).mpr ⟨le_rfl, hdvd⟩

/-- One trial takes the state to the next factor. -/
theorem next (hstate : FactoredBelow number left factor found) :
    FactoredBelow number (divideOut factor large left) (nextTrial factor)
      (if left % factor = 0 then factor :: found else found) where
  positive := divideOut_pos hstate.positive
  le := (divideOut_le factor large left).trans hstate.le
  trial := hstate.trial.nextTrial
  descending := kept_descending hstate.descending fun _ _ hmember =>
    (hstate.mem_found.mp hmember).1
  mem_found := by
    intro prime
    rw [mem_kept_iff, hstate.factor_found_iff, hstate.mem_found]
    -- The trial itself is the only prime that is passed.
    constructor
    · rintro (⟨⟨hprime, hdvd⟩, rfl⟩ | ⟨hless, hprime, hdvd⟩)
      · exact ⟨lt_nextTrial prime, hprime, hdvd⟩
      · exact ⟨hless.trans (lt_nextTrial factor), hprime, hdvd⟩
    · rintro ⟨hless, hprime, hdvd⟩
      rcases ((hstate.trial.lt_nextTrial_iff hprime).mp hless).eq_or_lt with rfl | hless
      · exact .inl ⟨⟨hprime, hdvd⟩, rfl⟩
      · exact .inr ⟨hless, hprime, hdvd⟩
  dvd_left := by
    intro prime hprime
    have hpassed : prime ≠ factor ∧ factor ≤ prime ↔ nextTrial factor ≤ prime := by
      rw [← Nat.not_lt, ← Nat.not_lt, hstate.trial.lt_nextTrial_iff hprime]
      omega
    rw [prime_dvd_divideOut hstate.positive hstate.prime_of_dvd hprime, hstate.dvd_left hprime,
      ← and_assoc, hpassed]

theorem square_fits_iff (hstate : FactoredBelow number left factor found) :
    factor ≤ left / factor ↔ factor * factor ≤ left :=
  Nat.le_div_iff_mul_le (Nat.lt_of_lt_of_le Nat.two_pos hstate.trial.two_le)

/-- A trial whose square fits into what is left is a half word. -/
theorem lt_halfWord (hstate : FactoredBelow number left factor found) (hword : number < word)
    (hfits : factor ≤ left / factor) : factor < halfWord := by
  have hsquare : factor * factor ≤ number := (hstate.square_fits_iff.mp hfits).trans hstate.le
  exact (Nat.le_sqrt.mpr hsquare).trans_lt (SquareRoot.sqrt_lt_halfWord hword)

/-- When the square of the trial is past what is left, that is one or a prime. -/
theorem left_prime (hstate : FactoredBelow number left factor found)
    (hend : ¬ factor ≤ left / factor) (hmore : 1 < left) : left.Prime := by
  by_contra hcomposite
  have hleast : left.minFac.Prime := Nat.minFac_prime (by omega)
  have hle : factor ≤ left.minFac := ((hstate.dvd_left hleast).mp (Nat.minFac_dvd left)).1
  refine hend (hstate.square_fits_iff.mpr ?_)
  calc factor * factor ≤ left.minFac * left.minFac := Nat.mul_le_mul hle hle
    _ = left.minFac ^ 2 := (Nat.pow_two left.minFac).symm
    _ ≤ left := Nat.minFac_sq_le_self hstate.positive hcomposite

/-- With what is left at the end, the primes found are all prime factors. -/
theorem mem_last_iff (hstate : FactoredBelow number left factor found)
    (hend : ¬ factor ≤ left / factor) :
    prime ∈ (if 1 < left then left :: found else found) ↔ prime.Prime ∧ prime ∣ number := by
  rw [mem_kept_iff, hstate.mem_found]
  constructor
  · rintro (⟨hmore, rfl⟩ | ⟨-, hprime, hdvd⟩)
    · have hlast := hstate.left_prime hend hmore
      exact ⟨hlast, ((hstate.dvd_left hlast).mp dvd_rfl).2⟩
    · exact ⟨hprime, hdvd⟩
  · rintro ⟨hprime, hdvd⟩
    rcases Nat.lt_or_ge prime factor with hless | hlarge
    · exact .inr ⟨hless, hprime, hdvd⟩
    · -- A prime factor that is not found divides what is left, which is then that prime.
      have hleft := (hstate.dvd_left hprime).mpr ⟨hlarge, hdvd⟩
      have hmore : 1 < left := hprime.one_lt.trans_le (Nat.le_of_dvd hstate.positive hleft)
      have hlast := hstate.left_prime hend hmore
      exact .inl ⟨hmore, (Nat.prime_dvd_prime_iff_eq hprime hlast).mp hleft⟩

theorem finish (hstate : FactoredBelow number left factor found)
    (hend : ¬ factor ≤ left / factor) :
    (if 1 < left then left :: found else found).reverse = number.primeFactors.sort := by
  have hdescending : (if 1 < left then left :: found else found).Pairwise (· > ·) := by
    refine kept_descending hstate.descending fun hmore prime hmember => ?_
    have hlast := (hstate.dvd_left (hstate.left_prime hend hmore)).mp dvd_rfl
    exact (hstate.mem_found.mp hmember).1.trans_le hlast.1
  have hpositive : number ≠ 0 := (hstate.positive.trans_le hstate.le).ne'
  refine List.Pairwise.eq_of_mem_iff (List.pairwise_reverse.mpr hdescending)
    number.primeFactors.sortedLT_sort.pairwise ?_
  intro prime
  rw [List.mem_reverse, hstate.mem_last_iff hend, Finset.mem_sort,
    Nat.mem_primeFactors_of_ne_zero hpositive]

end FactoredBelow

/-! ## The whole search -/

theorem primeFactorsFrom_eq (hword : number < word)
    (hstate : FactoredBelow number left factor found) :
    primeFactorsFrom left factor large found = .ok number.primeFactors.sort := by
  fun_induction primeFactorsFrom left factor large found with
  | case1 left factor large found hsmall hinside ih => exact ih hstate.next
  | case2 left factor large found hsmall hpast =>
      have hhalf := hstate.lt_halfWord hword hsmall
      have hwide : halfWord ≤ word - 2 := by decide
      exact absurd (nextTrial_lt_word (hhalf.trans_le hwide)) hpast
  | case3 left factor large found hend => rw [hstate.finish hend]

theorem distinctPrimeFactors_eq (hword : number < word) :
    distinctPrimeFactors number = .ok number.primeFactors.sort := by
  rcases Nat.eq_zero_or_pos number with rfl | hpositive
  · rw [distinctPrimeFactors, primeFactorsFrom, dif_neg (by decide), Nat.primeFactors_zero,
      Finset.sort_empty]
    rfl
  · exact primeFactorsFrom_eq hword (.start hpositive)

/-- The prime factors of every word are found without a fault, each once and ascending; zero and
one have none.  A word is found prime, whatever was asked before, exactly when it is its own
only prime factor. -/
theorem trial_division_finds_prime_factors (hword : number < word) :
    ∃ primes, distinctPrimeFactors number = .ok primes ∧ primes.Pairwise (· < ·) ∧
      (∀ prime, prime ∈ primes ↔ 0 < number ∧ prime.Prime ∧ prime ∣ number) ∧
      (primes = [] ↔ number ≤ 1) ∧
      ∀ memo : PrimeMemo, memo.Reachable →
        ((isPrimeUncached number).run.run memo).1 = .ok (decide (primes = [number])) ∧
        ((isPrimeCached number).run.run memo).1 = .ok (decide (primes = [number])) := by
  refine ⟨number.primeFactors.sort, distinctPrimeFactors_eq hword,
    number.primeFactors.sortedLT_sort.pairwise, ?_, ?_, ?_⟩
  · intro prime
    rw [Finset.mem_sort, Nat.mem_primeFactors, Nat.pos_iff_ne_zero]
    tauto
  · rw [← List.length_eq_zero_iff, Finset.length_sort, Finset.card_eq_zero,
      Nat.primeFactors_eq_empty]
    omega
  · intro memo hreached
    have hself : number.Prime ↔ number.primeFactors.sort = [number] := by
      constructor
      · intro hprime
        rw [hprime.primeFactors, Finset.sort_singleton]
      · intro honly
        have hmember : number ∈ number.primeFactors.sort := honly ▸ List.mem_cons_self
        exact Nat.prime_of_mem_primeFactors ((Finset.mem_sort _).mp hmember)
    obtain ⟨uncached, huncached, -⟩ := isPrimeUncached_run hword hreached.sound
    obtain ⟨cached, hcached, -⟩ := isPrimeCached_run hword hreached.sound
    rw [huncached, hcached, decide_eq_decide.mpr hself]
    exact ⟨rfl, rfl⟩

/-- The greatest word has seven prime factors, so it is found composite. -/
theorem trial_division_finds_factors_of_greatest_word :
    word - 1 < word ∧
      distinctPrimeFactors (word - 1) = .ok [3, 5, 17, 257, 641, 65537, 6700417] ∧
      ((isPrimeCached (word - 1)).run.run PrimeMemo.initial).1 = .ok false := by
  have hword : word - 1 < word := by decide
  obtain ⟨primes, hrun, hascending, hmember, -, hprime⟩ := trial_division_finds_prime_factors hword
  have hproduct : word - 1 = [3, 5, 17, 257, 641, 65537, 6700417].prod := by decide
  have hprimes : ∀ prime ∈ [3, 5, 17, 257, 641, 65537, 6700417], Prime prime := by
    simp only [List.forall_mem_cons, ← Nat.prime_iff]
    norm_num
  have hknown : primes = [3, 5, 17, 257, 641, 65537, 6700417] := by
    refine List.Pairwise.eq_of_mem_iff hascending (by decide) ?_
    intro prime
    rw [hmember, hproduct]
    constructor
    · rintro ⟨-, hprime, hdvd⟩
      exact mem_list_primes_of_dvd_prod hprime.prime hprimes hdvd
    · intro hlisted
      exact ⟨by decide, (hprimes prime hlisted).nat_prime, List.dvd_prod hlisted⟩
  refine ⟨hword, hknown ▸ hrun, ?_⟩
  rw [(hprime _ .initial).2, hknown, decide_eq_false (by decide)]

end NumberPuzzles
