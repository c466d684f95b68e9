import Mathlib.NumberTheory.ArithmeticFunction.Misc
import NumberPuzzles.Catalogue
import NumberPuzzles.Proofs.Puzzle.AbundantSum.Marks

/-!
# The limit of the search

The number 315 has divisors that add up to almost twice itself, so every multiple of it by a
factor from 2 to 89 is abundant.  These factors are the remainders by 88, which is abundant
with all its multiples, and 315 has an inverse there.  So every number past 315 · 89 + 88,
which is the limit of the search, is a sum of two abundant numbers, and the numbers that are
no such sum are the same for every later limit.
-/

namespace NumberPuzzles.AbundantSum

variable {number factor limit : Nat}

/-! ## Abundant multiples of 315 -/

theorem prime_dvd_315 {prime : Nat} (hprime : prime.Prime) (hdvd : prime ∣ 315) :
    prime = 3 ∨ prime = 5 ∨ prime = 7 := by
  have hfactors : 315 = 3 * 3 * 5 * 7 := rfl
  rw [hfactors, hprime.dvd_mul, hprime.dvd_mul, hprime.dvd_mul,
    Nat.prime_dvd_prime_iff_eq hprime Nat.prime_three,
    Nat.prime_dvd_prime_iff_eq hprime Nat.prime_five,
    Nat.prime_dvd_prime_iff_eq hprime (by decide : Nat.Prime 7)] at hdvd
  omega

/-- The divisors of 315 add up to 624, six less than twice 315; a new prime factor gives more
than the six that are missing for each unit of it, as long as it is below 104. -/
theorem abundant_mul_prime {prime : Nat} (hprime : prime.Prime) (hle : prime ≤ 89) :
    (315 * prime).Abundant := by
  by_cases hdvd : prime ∣ 315
  · rcases prime_dvd_315 hprime hdvd with rfl | rfl | rfl
    · decide +kernel
    · decide +kernel
    · decide +kernel
  · have hcoprime : Nat.Coprime 315 prime := ((Nat.Prime.coprime_iff_not_dvd hprime).mpr hdvd).symm
    have hsum : ∑ divisor ∈ Nat.divisors 315, divisor = 624 := by decide +kernel
    rw [Nat.abundant_iff_sum_divisors, hcoprime.sum_divisors_mul, hsum, hprime.sum_divisors]
    omega

theorem abundant_mul_factor (hlarge : 2 ≤ factor) (hsmall : factor ≤ 89) :
    (315 * factor).Abundant := by
  have hprime := Nat.minFac_prime (show factor ≠ 1 by omega)
  have hle : factor.minFac ≤ 89 := (Nat.minFac_le (by omega)).trans hsmall
  refine (abundant_mul_prime hprime hle).of_dvd ?_ (by omega)
  exact Nat.mul_dvd_mul_left 315 (Nat.minFac_dvd factor)

/-! ## Every number past the limit -/

theorem searchLimit_eq : searchLimit = 315 * 89 + 88 := rfl

/-- A number past the limit is a multiple of 315 by a small factor and a multiple of 88: nineteen
is the inverse of 315 there. -/
theorem exists_multiples (hpast : searchLimit < number) :
    ∃ factor count, 2 ≤ factor ∧ factor ≤ 89 ∧ number = 315 * factor + (count + 1) * 88 := by
  rw [searchLimit_eq] at hpast
  refine ⟨2 + (19 * number + 86) % 88,
    (number - 315 * (2 + (19 * number + 86) % 88)) / 88 - 1, by omega, by omega, by omega⟩

theorem isAbundantSum_of_past (hpast : searchLimit < number) : IsAbundantSum number := by
  obtain ⟨factor, count, hlarge, hsmall, hsum⟩ := exists_multiples hpast
  have heightyEight : (88 : Nat).Abundant := by decide +kernel
  exact ⟨315 * factor, (count + 1) * 88, abundant_mul_factor hlarge hsmall,
    heightyEight.mul_left (Nat.succ_ne_zero count), hsum.symm⟩

/-! ## The numbers that are left -/

theorem mem_otherNumbers_searchLimit :
    number ∈ otherNumbers searchLimit ↔ 0 < number ∧ ¬ IsAbundantSum number := by
  rw [otherNumbers, Finset.mem_filter, Finset.mem_Icc]
  constructor
  · rintro ⟨⟨hpositive, -⟩, hother⟩
    exact ⟨hpositive, hother⟩
  · rintro ⟨hpositive, hother⟩
    exact ⟨⟨hpositive, Nat.not_lt.mp (mt isAbundantSum_of_past hother)⟩, hother⟩

/-- A later limit leaves no further number over. -/
theorem otherNumbers_eq (hlimit : searchLimit ≤ limit) :
    otherNumbers limit = otherNumbers searchLimit := by
  ext number
  rw [mem_otherNumbers_searchLimit, otherNumbers, Finset.mem_filter, Finset.mem_Icc]
  constructor
  · rintro ⟨⟨hpositive, -⟩, hother⟩
    exact ⟨hpositive, hother⟩
  · rintro ⟨hpositive, hother⟩
    have hle : number ≤ searchLimit := Nat.not_lt.mp (mt isAbundantSum_of_past hother)
    exact ⟨⟨hpositive, hle.trans hlimit⟩, hother⟩

theorem runProblem_eq_answer (fixtures : Fixtures) :
    runProblem 23 fixtures =
      Problem.shown Text.decimalString (answer searchLimit) := rfl

/-- Every number past the limit is a sum of two abundant numbers.  So the positive numbers that
are no such sum are finitely many, and for every limit from that of the search on, below the
half words, they are what the table leaves unmarked: all later numbers are marked.  The answer
is their sum for every such limit, and the problem answers with it. -/
theorem search_limit_is_complete :
    (∀ number, searchLimit < number →
      ∃ left right : Nat, left.Abundant ∧ right.Abundant ∧ left + right = number) ∧
    ∃ others : Finset Nat,
      (∀ number, number ∈ others ↔ 0 < number ∧
        ¬ ∃ left right : Nat, left.Abundant ∧ right.Abundant ∧ left + right = number) ∧
      (∀ limit, searchLimit ≤ limit → limit < halfWord →
        (∃ marks, abundantSums limit = .ok marks ∧
          (∀ number, searchLimit < number → number ≤ limit → marks[number]? = some true) ∧
          (Finset.Icc 1 limit).filter (fun number => marks[number]? = some false) = others) ∧
        answer limit = .ok (∑ number ∈ others, number)) ∧
      ∀ fixtures, runProblem 23 fixtures =
        .ok (Text.decimalString (∑ number ∈ others, number)) := by
  refine ⟨fun number hpast => isAbundantSum_of_past hpast, otherNumbers searchLimit,
    fun number => mem_otherNumbers_searchLimit, ?_, ?_⟩
  · intro limit hlimit hhalf
    obtain ⟨marks, hmarks, -, hentries⟩ := abundantSums_run hhalf
    refine ⟨⟨marks, hmarks, ?_, ?_⟩, ?_⟩
    · intro number hpast hnumber
      rw [hentries number hnumber, decide_eq_true (isAbundantSum_of_past hpast)]
    · rw [← otherNumbers_eq hlimit, otherNumbers]
      refine Finset.filter_congr ?_
      intro number hnumber
      rw [hentries number (Finset.mem_Icc.mp hnumber).2, Option.some.injEq, decide_eq_false_iff_not]
    · rw [answer_eq hhalf, otherNumbers_eq hlimit]
  · intro fixtures
    rw [runProblem_eq_answer, answer_eq (by decide)]
    rfl

/-- The first number past the limit is a sum of two abundant numbers, and the limit 30000 gives
the same answer as that of the search. -/
theorem search_limit_is_complete_at_later_limit :
    (searchLimit < 28124 ∧
      ∃ left right : Nat, left.Abundant ∧ right.Abundant ∧ left + right = 28124) ∧
    (searchLimit ≤ 30000 ∧ 30000 < halfWord) ∧ answer 30000 = answer searchLimit := by
  have hpast : searchLimit < 28124 := by decide
  have hlater : searchLimit ≤ 30000 := by decide
  have hhalf : 30000 < halfWord := by decide
  obtain ⟨hsums, others, -, hanswers, -⟩ := search_limit_is_complete
  refine ⟨⟨hpast, hsums 28124 hpast⟩, ⟨hlater, hhalf⟩, ?_⟩
  rw [(hanswers 30000 hlater hhalf).2, (hanswers searchLimit le_rfl (by decide)).2]

end NumberPuzzles.AbundantSum
