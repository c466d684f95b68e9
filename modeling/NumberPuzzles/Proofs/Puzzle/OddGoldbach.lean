import Mathlib.Algebra.Group.Nat.Even
import NumberPuzzles.Proofs.Prime.Table
import NumberPuzzles.Proofs.Progression
import NumberPuzzles.Puzzle.OddGoldbach

/-!
# The least odd exception is found

A number is a prime and twice a positive square exactly when some root whose square fits twice
leaves a prime, and those are the roots up to the square root of half the number; so no
difference is negative.  The odd composites below the start of the search are no exceptions, so
the first exception that the search meets is the least of all.
-/

namespace NumberPuzzles.OddGoldbach

variable {number root limit : Nat}

def IsPrimePlusTwiceSquare (number : Nat) : Prop :=
  ∃ prime root, prime.Prime ∧ 1 ≤ root ∧ number = prime + 2 * root ^ 2

def IsOddComposite (number : Nat) : Prop := Odd number ∧ 1 < number ∧ ¬ number.Prime

def IsException (number : Nat) : Prop := IsOddComposite number ∧ ¬ IsPrimePlusTwiceSquare number

/-! ## One number -/

theorem isPrimePlusTwiceSquare_iff :
    IsPrimePlusTwiceSquare number ↔
      ∃ root, 1 ≤ root ∧ 2 * root * root ≤ number ∧ (number - 2 * root * root).Prime := by
  constructor
  · rintro ⟨prime, root, hprime, hroot, rfl⟩
    rw [Nat.pow_two, ← Nat.mul_assoc]
    exact ⟨root, hroot, Nat.le_add_left _ _, by rwa [Nat.add_sub_cancel]⟩
  · rintro ⟨root, hroot, hfits, hprime⟩
    refine ⟨_, root, hprime, hroot, ?_⟩
    rw [Nat.pow_two, ← Nat.mul_assoc, Nat.sub_add_cancel hfits]

/-- The roots up to the square root of half a number are those whose square fits twice. -/
theorem le_sqrt_half_iff : root ≤ Nat.sqrt (number / 2) ↔ 2 * root * root ≤ number := by
  rw [Nat.le_sqrt, Nat.le_div_iff_mul_le Nat.two_pos, Nat.mul_comm, Nat.mul_assoc]

theorem lt_of_fits (hroot : 1 ≤ root) (hfits : 2 * root * root ≤ number) : root < number := by
  have hdouble : 2 * root ≤ 2 * root * root := Nat.le_mul_of_pos_right (2 * root) hroot
  omega

instance : DecidablePred IsPrimePlusTwiceSquare := fun number =>
  decidable_of_iff (∃ root < number, 1 ≤ root ∧ 2 * root * root ≤ number ∧
      (number - 2 * root * root).Prime) (by
    rw [isPrimePlusTwiceSquare_iff]
    constructor
    · rintro ⟨root, -, hform⟩
      exact ⟨root, hform⟩
    · rintro ⟨root, hroot, hfits, hprime⟩
      exact ⟨root, lt_of_fits hroot hfits, hroot, hfits, hprime⟩)

instance : DecidablePred IsOddComposite := fun number =>
  inferInstanceAs (Decidable (Odd number ∧ 1 < number ∧ ¬ number.Prime))

/-- A root whose square fits twice is doubled, squared and subtracted without a fault. -/
theorem lessTwiceSquare_eq (hword : number < word) (hroot : 1 ≤ root)
    (hfits : 2 * root * root ≤ number) :
    lessTwiceSquare number root = .ok (number - 2 * root * root) := by
  have hsquare : 2 * root * root < word := hfits.trans_lt hword
  have hdouble : 2 * root < word := (Nat.le_mul_of_pos_right (2 * root) hroot).trans_lt hsquare
  simp only [lessTwiceSquare, Checked.mul, Checked.sub, if_pos hdouble, if_pos hsquare,
    if_pos hfits, Checked.bind_ok]

theorem isPrimePlusTwiceSquare_run (hword : number < word) {table : PrimeTable}
    (hcomplete : table.Complete) :
    ∃ after, (isPrimePlusTwiceSquare number).run.run table =
      (.ok (decide (IsPrimePlusTwiceSquare number)), after) ∧ after.Complete := by
  have htest : ∀ root ∈ (Progression.inclusive 1 (Nat.sqrt (number / 2))).toList,
      ∀ table : PrimeTable, table.Complete →
        ∃ after, (do isPrime (← lessTwiceSquare number root) : Run PrimeTable Fault Bool).run.run
          table = (.ok (decide (number - 2 * root * root).Prime), after) ∧ after.Complete := by
    intro root hroot table hcomplete
    obtain ⟨hpositive, hle⟩ := Progression.mem_toList_inclusive.mp hroot
    rw [lessTwiceSquare_eq hword hpositive (le_sqrt_half_iff.mp hle),
      Run.run_bind_ok (Run.run_lift _ table)]
    exact isPrime_run ((Nat.sub_le _ _).trans_lt hword) hcomplete
  obtain ⟨after, hrun, hafter⟩ := Progression.findM?_run htest hcomplete
  refine ⟨after, ?_, hafter⟩
  rw [isPrimePlusTwiceSquare, isqrt_eq_sqrt ((Nat.div_le_self number 2).trans_lt hword),
    Run.run_bind_ok (Run.run_lift _ table), Run.run_bind_ok hrun, Run.run_pure]
  congr 2
  rw [Bool.eq_iff_iff, List.find?_isSome, decide_eq_true_iff, isPrimePlusTwiceSquare_iff]
  simp only [Progression.mem_toList_inclusive, le_sqrt_half_iff, decide_eq_true_iff, and_assoc]

/-! ## The search -/

theorem isCounterexample_run (hword : number < word) {table : PrimeTable}
    (hcomplete : table.Complete) :
    ∃ after, (isCounterexample number).run.run table =
      (.ok (decide (¬ number.Prime ∧ ¬ IsPrimePlusTwiceSquare number)), after) ∧
        after.Complete := by
  obtain ⟨middle, hprime, hmiddle⟩ := isPrime_run hword hcomplete
  rw [isCounterexample, Run.run_bind_ok hprime]
  by_cases hnumber : number.Prime
  · refine ⟨middle, ?_, hmiddle⟩
    rw [if_pos (decide_eq_true hnumber), decide_eq_false (by simp [hnumber])]
    rfl
  · obtain ⟨after, hform, hafter⟩ := isPrimePlusTwiceSquare_run hword hmiddle
    refine ⟨after, ?_, hafter⟩
    rw [if_neg (by simp [hnumber]), Run.run_bind_ok hform, Run.run_pure]
    simp [hnumber]

/-- The numbers that the search tests: the odd ones from its start on. -/
theorem mem_tested_iff :
    number ∈ (Progression.stride 35 limit 2).toList ↔
      35 ≤ number ∧ number < limit ∧ Odd number := by
  rw [Progression.mem_toList_stride Nat.two_pos, Nat.odd_iff]
  omega

/-- The odd composites below the start of the search are no exceptions. -/
theorem isPrimePlusTwiceSquare_of_lt (hcomposite : IsOddComposite number) (hsmall : number < 35) :
    IsPrimePlusTwiceSquare number := by
  revert hcomposite
  interval_cases number <;> decide

/-- The tested numbers that pass the test are the exceptions below the limit. -/
theorem mem_tested_and_iff :
    (number ∈ (Progression.stride 35 limit 2).toList ∧
        ¬ number.Prime ∧ ¬ IsPrimePlusTwiceSquare number) ↔
      number < limit ∧ IsException number := by
  rw [mem_tested_iff]
  constructor
  · rintro ⟨⟨hlarge, hlimit, hodd⟩, hprime, hform⟩
    exact ⟨hlimit, ⟨hodd, by omega, hprime⟩, hform⟩
  · rintro ⟨hlimit, hcomposite, hform⟩
    have hlarge : 35 ≤ number := by
      by_contra hsmall
      exact hform (isPrimePlusTwiceSquare_of_lt hcomposite (Nat.not_le.mp hsmall))
    exact ⟨⟨hlarge, hlimit, hcomposite.1⟩, hcomposite.2.2, hform⟩

def firstException (limit : Nat) : Option Nat :=
  (Progression.stride 35 limit 2).toList.find? fun number =>
    decide (¬ number.Prime ∧ ¬ IsPrimePlusTwiceSquare number)

/-- It is the least exception, whatever the limit, if that lies below the limit. -/
theorem firstException_eq_some_iff :
    firstException limit = some number ↔
      number < limit ∧ IsLeast {other | IsException other} number := by
  have htested : {other | other ∈ (Progression.stride 35 limit 2).toList ∧
      decide (¬ other.Prime ∧ ¬ IsPrimePlusTwiceSquare other) = true} =
        {other | other < limit ∧ IsException other} := by
    ext other
    rw [Set.mem_ofPred_eq, decide_eq_true_iff, mem_tested_and_iff, Set.mem_ofPred_eq]
  rw [firstException, Progression.find?_eq_some_iff Nat.two_pos, htested]
  constructor
  · rintro ⟨⟨hlimit, hexception⟩, hleast⟩
    refine ⟨hlimit, hexception, ?_⟩
    intro other hother
    rcases Nat.lt_or_ge other limit with hinside | hpast
    · exact hleast ⟨hinside, hother⟩
    · exact hlimit.le.trans hpast
  · rintro ⟨hlimit, hexception, hleast⟩
    exact ⟨⟨hlimit, hexception⟩, fun other hother => hleast hother.2⟩

theorem firstException_eq_none_iff :
    firstException limit = none ↔
      ∀ number < limit, IsOddComposite number → IsPrimePlusTwiceSquare number := by
  rw [firstException, List.find?_eq_none]
  simp only [decide_eq_true_iff]
  constructor
  · intro hnone number hlimit hcomposite
    by_contra hform
    obtain ⟨htested, hpasses⟩ := mem_tested_and_iff.mpr ⟨hlimit, hcomposite, hform⟩
    exact hnone number htested hpasses
  · intro hall number htested hpasses
    obtain ⟨hlimit, hcomposite, hform⟩ := mem_tested_and_iff.mp ⟨htested, hpasses⟩
    exact hform (hall number hlimit hcomposite)

theorem findM?_isCounterexample_run (hlimit : limit < word) {table : PrimeTable}
    (hcomplete : table.Complete) :
    ∃ after, ((Progression.stride 35 limit 2).findM? isCounterexample).run.run table =
      (.ok (firstException limit), after) ∧ after.Complete := by
  refine Progression.findM?_run ?_ hcomplete
  intro number hnumber table hcomplete
  exact isCounterexample_run ((mem_tested_iff.mp hnumber).2.1.trans hlimit) hcomplete

/-- Whether a word is a prime and twice a positive square is decided without a fault, whatever was
asked about primes before.  The search below a limit finds a number exactly when that is the least
of all odd composites without such a form and lies below the limit, and nothing exactly when all
odd composites below the limit have it; what was asked before makes no difference to it. -/
theorem least_exception_found :
    (∀ number < word, ∀ memo : PrimeMemo, memo.Reachable →
      ((isPrimePlusTwiceSquare number).run.run memo.inner).1 =
        .ok (decide (IsPrimePlusTwiceSquare number))) ∧
    ∀ limit < word, ∃ found, smallestCounterexample limit = .ok found ∧
      (∀ number, found = some number ↔
        number < limit ∧ IsLeast {other | IsException other} number) ∧
      (found = none ↔ ∀ number < limit, IsOddComposite number → IsPrimePlusTwiceSquare number) ∧
      ∀ memo : PrimeMemo, memo.Reachable →
        (((Progression.stride 35 limit 2).findM? isCounterexample).run.run memo.inner).1 =
          .ok found := by
  constructor
  · intro number hword memo hreached
    obtain ⟨after, hrun, -⟩ := isPrimePlusTwiceSquare_run hword hreached.sound.complete
    rw [hrun]
  · intro limit hlimit
    refine ⟨firstException limit, ?_, fun _ => firstException_eq_some_iff,
      firstException_eq_none_iff, ?_⟩
    · obtain ⟨after, hrun, -⟩ := findM?_isCounterexample_run hlimit PrimeTable.initial_complete
      exact congrArg Prod.fst hrun
    · intro memo hreached
      obtain ⟨after, hrun, -⟩ := findM?_isCounterexample_run hlimit hreached.sound.complete
      rw [hrun]

/-- After 5777 was asked about, it is found to be no prime and twice a square; all odd composites
below 100 are. -/
theorem least_exception_found_above_hundred :
    5777 < word ∧
      PrimeMemo.Reachable ((isPrimeCached 5777).run.run PrimeMemo.initial).2 ∧
      ((isPrimePlusTwiceSquare 5777).run.run
        ((isPrimeCached 5777).run.run PrimeMemo.initial).2.inner).1 = .ok false ∧
      100 < word ∧ smallestCounterexample 100 = .ok none := by
  have hword : 5777 < word := by decide
  have hreached : PrimeMemo.Reachable ((isPrimeCached 5777).run.run PrimeMemo.initial).2 :=
    .cached .initial hword
  have hform : ¬ IsPrimePlusTwiceSquare 5777 := by
    rw [isPrimePlusTwiceSquare_iff]
    rintro ⟨root, hroot, hfits, hprime⟩
    have hsmall : root < 54 := by
      by_contra hlarge
      have : 54 * 54 ≤ root * root := Nat.mul_self_le_mul_self (Nat.not_lt.mp hlarge)
      rw [Nat.mul_assoc] at hfits
      omega
    interval_cases root <;> norm_num at hprime
  have hanswer := least_exception_found.1 5777 hword _ hreached
  rw [decide_eq_false hform] at hanswer
  have hlimit : 100 < word := by decide
  obtain ⟨found, hfound, -, hnone, -⟩ := least_exception_found.2 100 hlimit
  have hall : ∀ number < 100, IsOddComposite number → IsPrimePlusTwiceSquare number := by
    decide +kernel
  rw [hnone.mpr hall] at hfound
  exact ⟨hword, hreached, hanswer, hlimit, hfound⟩

end NumberPuzzles.OddGoldbach
