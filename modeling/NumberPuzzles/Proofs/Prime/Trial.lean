import Mathlib.Data.Nat.Prime.Basic
import Mathlib.Data.Nat.Prime.Nth
import Mathlib.Data.Nat.Prime.Infinite
import NumberPuzzles.Prime.Trial
import NumberPuzzles.Proofs.SquareRoot

/-!
# Trial division decides primality

A list of known primes that leaves out none below some bound decides every number
whose square root is below the bound: a composite number has a prime divisor at
most its root, and the search stops at the first known prime past the root.
-/

namespace NumberPuzzles

def primesUnder (bound : Nat) : List Nat := (List.range bound).filter Nat.Prime

@[simp]
theorem mem_primesUnder {bound prime : Nat} :
    prime ∈ primesUnder bound ↔ prime < bound ∧ prime.Prime := by
  simp [primesUnder]

theorem primesUnder_pairwise (bound : Nat) : (primesUnder bound).Pairwise (· < ·) :=
  List.pairwise_lt_range.filter _

theorem primesUnder_succ_of_prime {bound : Nat} (hprime : bound.Prime) :
    primesUnder (bound + 1) = primesUnder bound ++ [bound] := by
  simp [primesUnder, List.range_succ, hprime]

theorem primesUnder_succ_of_not_prime {bound : Nat} (hcomposite : ¬ bound.Prime) :
    primesUnder (bound + 1) = primesUnder bound := by
  simp [primesUnder, List.range_succ, hcomposite]

/-- Bounds with no prime between them have the same primes below them. -/
theorem primesUnder_eq_of_no_prime {low high : Nat} (hle : low ≤ high)
    (hnone : ∀ number, low ≤ number → number < high → ¬ number.Prime) :
    primesUnder high = primesUnder low := by
  induction high, hle using Nat.le_induction with
  | base => rfl
  | succ high hle ih =>
      have hbelow : ∀ number, low ≤ number → number < high → ¬ number.Prime := by
        intro number hlow hhigh
        exact hnone number hlow (by omega)
      rw [primesUnder_succ_of_not_prime (hnone high hle (by omega)), ih hbelow]

/-- No prime lies between an odd number and the next one. -/
theorem primesUnder_add_two {number : Nat} (hodd : number % 2 = 1) (hlarge : 3 ≤ number) :
    primesUnder (number + 2) = primesUnder (number + 1) := by
  apply primesUnder_succ_of_not_prime
  intro hprime
  have := hprime.eq_two_or_odd
  omega

theorem nextTrial_mono {low high : Nat} (hle : low ≤ high) : nextTrial low ≤ nextTrial high := by
  unfold nextTrial
  split <;> split <;> omega

theorem nextTrial_lt_word {candidate : Nat} (hsmall : candidate < word - 2) :
    nextTrial candidate < word := by
  have hword : 3 < word := by decide
  unfold nextTrial
  split <;> omega

/-- A candidate of trial division: two, or an odd number from three on. -/
def IsTrial (candidate : Nat) : Prop := candidate = 2 ∨ 3 ≤ candidate ∧ candidate % 2 = 1

theorem IsTrial.two_le {candidate : Nat} (htrial : IsTrial candidate) : 2 ≤ candidate := by
  rcases htrial with htwo | ⟨hlarge, -⟩
  · omega
  · omega

theorem IsTrial.nextTrial {candidate : Nat} (htrial : IsTrial candidate) :
    IsTrial (nextTrial candidate) := by
  rcases htrial with rfl | ⟨hlarge, hodd⟩
  · exact .inr (by decide)
  · rw [NumberPuzzles.nextTrial, if_neg (by omega)]
    exact .inr ⟨by omega, by omega⟩

theorem IsTrial.primesUnder_nextTrial {candidate : Nat} (htrial : IsTrial candidate) :
    primesUnder (NumberPuzzles.nextTrial candidate) = primesUnder (candidate + 1) := by
  rcases htrial with rfl | ⟨hlarge, hodd⟩
  · rfl
  · rw [NumberPuzzles.nextTrial, if_neg (by omega)]
    exact primesUnder_add_two hodd hlarge

/-- The primes below a bound are the first primes, as many as there are below it. -/
theorem primesUnder_eq_map_nth (bound : Nat) :
    primesUnder bound =
      (List.range (Nat.count Nat.Prime bound)).map (Nat.nth Nat.Prime) := by
  induction bound with
  | zero => rfl
  | succ bound ih =>
      by_cases hprime : bound.Prime
      · rw [primesUnder_succ_of_prime hprime, ih, Nat.count_succ, if_pos hprime,
          List.range_succ, List.map_append, List.map_singleton, Nat.nth_count hprime]
      · rw [primesUnder_succ_of_not_prime hprime, ih, Nat.count_succ, if_neg hprime,
          Nat.add_zero]

/-! ## The search for a divisor -/

theorem drop_toList_eq_cons {known : Array Nat} {index : Nat} (hinside : index < known.size) :
    known.toList.drop index = known[index] :: known.toList.drop (index + 1) := by
  rw [List.drop_eq_getElem_cons (by simpa using hinside), Array.getElem_toList]

/-- The search stops at the first known prime past the root, and no later one is
smaller; so it misses no divisor. -/
theorem dividesFrom_eq {known : Array Nat} (hsorted : known.toList.Pairwise (· < ·))
    (hpositive : ∀ prime ∈ known.toList, 0 < prime) (number root index : Nat) :
    dividesFrom known number root index =
      .ok (decide (∃ prime ∈ known.toList.drop index, prime ≤ root ∧ prime ∣ number)) := by
  fun_induction dividesFrom known number root index with
  | case1 index hinside prime hroot hzero =>
      have hpos : 0 < prime := hpositive prime (by simp [prime])
      omega
  | case2 index hinside prime hroot hzero hdivides =>
      have hdvd : prime ∣ number := Nat.dvd_of_mod_eq_zero hdivides
      rw [drop_toList_eq_cons hinside, decide_eq_true]
      exact ⟨prime, List.mem_cons_self, hroot, hdvd⟩
  | case3 index hinside prime hroot hzero hdivides ih =>
      have hdvd : ¬ known[index] ∣ number := by
        intro hdivisor
        exact hdivides (Nat.mod_eq_zero_of_dvd hdivisor)
      rw [ih, drop_toList_eq_cons hinside]
      simp [hdvd]
  | case4 index hinside prime hroot =>
      -- This prime is past the root, and all behind it are larger still.
      have htail : (known.toList.drop index).Pairwise (· < ·) := hsorted.drop
      rw [drop_toList_eq_cons hinside] at htail ⊢
      rw [decide_eq_false]
      rintro ⟨divisor, hmember, hsmall, -⟩
      rcases List.mem_cons.mp hmember with rfl | hmember
      · exact hroot hsmall
      · have hlater : prime < divisor := List.rel_of_pairwise_cons htail hmember
        omega
  | case5 index houtside =>
      have hempty : known.toList.drop index = [] := by
        simpa using houtside
      simp [hempty]

/-- A number is composite exactly when a prime at most its square root divides it. -/
theorem exists_prime_le_sqrt_iff {number : Nat} (hlarge : 2 ≤ number) :
    (∃ prime, prime.Prime ∧ prime ≤ Nat.sqrt number ∧ prime ∣ number) ↔ ¬ number.Prime := by
  constructor
  · rintro ⟨prime, hprime, hroot, hdvd⟩ hnumber
    have hself : prime = number := (Nat.prime_dvd_prime_iff_eq hprime hnumber).mp hdvd
    have hbelow : Nat.sqrt number < number := Nat.sqrt_lt_self (by omega)
    omega
  · intro hcomposite
    -- The least prime factor is paired with a cofactor that is no smaller.
    refine ⟨number.minFac, Nat.minFac_prime (by omega), ?_, Nat.minFac_dvd number⟩
    have hsquare : number.minFac ^ 2 ≤ number :=
      Nat.minFac_sq_le_self (by omega) hcomposite
    exact Nat.le_sqrt'.mpr hsquare

/-- With every prime up to the square root known, trial division tells the composite
words from the prime ones. -/
theorem hasKnownDivisor_eq {known : Array Nat} {bound number : Nat}
    (hknown : known.toList = primesUnder bound) (hword : number < word)
    (hlarge : 2 ≤ number) (hroot : Nat.sqrt number < bound) :
    hasKnownDivisor known number = .ok (decide (¬ number.Prime)) := by
  have hsorted : known.toList.Pairwise (· < ·) := hknown ▸ primesUnder_pairwise bound
  have hpositive : ∀ prime ∈ known.toList, 0 < prime := by
    intro prime hmember
    rw [hknown, mem_primesUnder] at hmember
    exact hmember.2.pos
  simp only [hasKnownDivisor, isqrt_eq_sqrt hword, Checked.bind_ok]
  rw [dividesFrom_eq hsorted hpositive, List.drop_zero, hknown]
  congr 1
  rw [decide_eq_decide, ← exists_prime_le_sqrt_iff hlarge]
  constructor
  · rintro ⟨prime, hmember, hsmall, hdvd⟩
    exact ⟨prime, (mem_primesUnder.mp hmember).2, hsmall, hdvd⟩
  · rintro ⟨prime, hprime, hsmall, hdvd⟩
    exact ⟨prime, mem_primesUnder.mpr ⟨by omega, hprime⟩, hsmall, hdvd⟩

end NumberPuzzles
