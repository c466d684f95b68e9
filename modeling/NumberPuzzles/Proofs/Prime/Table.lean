import Mathlib.NumberTheory.Bertrand
import NumberPuzzles.Prime.Table
import NumberPuzzles.Proofs.Memo.Kept
import NumberPuzzles.Proofs.Prime.Trial

/-!
# Primality does not depend on the questions before

The table of primes is shaped by every earlier question, and so are the answers
kept beside it.  In every state that questions can reach, the table holds the
first primes, none left out, and every kept answer is right.  Growing the table
ends, because there is a prime between the limit and its double, and at that size
no check can fail.
-/

namespace NumberPuzzles

namespace PrimeTable

def HoldsUnder (table : PrimeTable) (bound : Nat) : Prop :=
  table.primes.toList = primesUnder bound

/-- The table holds the first primes, among them two and three. -/
def Complete (table : PrimeTable) : Prop := ∃ bound, 3 < bound ∧ table.HoldsUnder bound

theorem initial_complete : initial.Complete := ⟨4, by decide, by rw [HoldsUnder]; decide⟩

/-- A complete table is the list of the first primes, as many as it has entries. -/
theorem Complete.eq_map_nth {table : PrimeTable} (hcomplete : table.Complete) :
    ∃ count, 2 ≤ count ∧
      table.primes.toList = (List.range count).map (Nat.nth Nat.Prime) := by
  obtain ⟨bound, hbound, hholds⟩ := hcomplete
  refine ⟨Nat.count Nat.Prime bound, ?_, hholds.trans (primesUnder_eq_map_nth bound)⟩
  calc
    2 = Nat.count Nat.Prime 4 := by decide
    _ ≤ Nat.count Nat.Prime bound := Nat.count_monotone _ hbound

/-- The last prime of the table is the greatest below the bound. -/
theorem HoldsUnder.back {table : PrimeTable} {bound last : Nat}
    (hholds : table.HoldsUnder bound) (hlast : table.primes.back? = some last) :
    last.Prime ∧ last < bound ∧ ∀ prime, prime.Prime → prime < bound → prime ≤ last := by
  rw [← Array.getLast?_toList, hholds, List.getLast?_eq_some_iff] at hlast
  obtain ⟨front, hfront⟩ := hlast
  have hmember : last ∈ primesUnder bound := by
    rw [hfront]
    exact List.mem_append_right front List.mem_cons_self
  obtain ⟨hbelow, hprime⟩ := mem_primesUnder.mp hmember
  refine ⟨hprime, hbelow, ?_⟩
  intro prime hother hunder
  have hsorted := primesUnder_pairwise bound
  have hin : prime ∈ primesUnder bound := mem_primesUnder.mpr ⟨hunder, hother⟩
  rw [hfront] at hsorted hin
  rcases List.mem_append.mp hin with hin | hin
  · exact ((List.pairwise_append.mp hsorted).2.2 prime hin last List.mem_cons_self).le
  · exact (List.mem_singleton.mp hin).le

theorem HoldsUnder.le_of_empty {table : PrimeTable} {bound prime : Nat}
    (hholds : table.HoldsUnder bound) (hlast : table.primes.back? = none)
    (hprime : prime.Prime) : bound ≤ prime := by
  by_contra hunder
  have hin : prime ∈ primesUnder bound := mem_primesUnder.mpr ⟨by omega, hprime⟩
  rw [← hholds, Array.back?_eq_none_iff.mp hlast] at hin
  simp at hin

/-- The table reaches a limit exactly when it holds a prime that does. -/
theorem HoldsUnder.covers_iff {table : PrimeTable} {bound : Nat}
    (hholds : table.HoldsUnder bound) (limit : Nat) :
    table.covers limit = true ↔ ∃ prime, prime.Prime ∧ limit ≤ prime ∧ prime < bound := by
  cases hlast : table.primes.back? with
  | none =>
      simp only [covers, hlast, Bool.false_eq_true, false_iff]
      rintro ⟨prime, hprime, -, hunder⟩
      exact absurd hunder (hholds.le_of_empty hlast hprime).not_gt
  | some last =>
      obtain ⟨hprime, hbelow, hgreatest⟩ := hholds.back hlast
      simp only [covers, hlast, decide_eq_true_eq]
      constructor
      · intro hlimit
        exact ⟨last, hprime, hlimit, hbelow⟩
      · rintro ⟨prime, hother, hlimit, hunder⟩
        exact hlimit.trans (hgreatest prime hother hunder)

/-- Testing an odd number, and keeping it if it is prime, leaves the table with the
primes below the next odd number. -/
theorem HoldsUnder.test {table : PrimeTable} {candidate : Nat}
    (hholds : table.HoldsUnder candidate) (hodd : candidate % 2 = 1) (hlarge : 3 ≤ candidate) :
    HoldsUnder (if ¬ candidate.Prime then table else ⟨table.primes.push candidate⟩)
      (candidate + 2) := by
  rw [HoldsUnder, primesUnder_add_two hodd hlarge]
  by_cases hprime : candidate.Prime
  · rw [if_neg (not_not.mpr hprime), primesUnder_succ_of_prime hprime, Array.toList_push,
      hholds]
  · rw [if_pos hprime, primesUnder_succ_of_not_prime hprime, hholds]

/-- A table that does not reach a limit holds no prime past the limit. -/
theorem HoldsUnder.le_of_open {table : PrimeTable} {bound limit prime : Nat}
    (hholds : table.HoldsUnder bound) (hopen : ¬ table.covers limit = true)
    (hprime : prime.Prime) (hlimit : limit ≤ prime) : bound ≤ prime := by
  by_contra hpast
  exact hopen ((hholds.covers_iff limit).mpr ⟨prime, hprime, hlimit, by omega⟩)

theorem HoldsUnder.hasKnownDivisor_eq {table : PrimeTable} {candidate : Nat}
    (hholds : table.HoldsUnder candidate) (hword : candidate < word) (hlarge : 3 ≤ candidate) :
    hasKnownDivisor table.primes candidate = .ok (decide (¬ candidate.Prime)) :=
  NumberPuzzles.hasKnownDivisor_eq hholds hword (by omega) (Nat.sqrt_lt_self (by omega))

/-- Growing from an odd candidate reaches the limit without a fault. -/
theorem growFrom_run {limit : Nat} (hpositive : 0 < limit) (hlimit : limit ≤ halfWord)
    (candidate : Nat) (table : PrimeTable) (hholds : table.HoldsUnder candidate)
    (hodd : candidate % 2 = 1) (hlarge : 3 ≤ candidate) :
    ∃ grown bound, (growFrom limit candidate).run.run table = (.ok (), grown) ∧
      candidate ≤ bound ∧ limit < bound ∧ grown.HoldsUnder bound := by
  -- No candidate passes the prime between the limit and its double: once that prime is
  -- in the table, the limit is reached.  So every candidate is a word.
  obtain ⟨stop, hstop, hbeyond, hdouble⟩ :=
    Nat.exists_prime_lt_and_le_two_mul limit (by omega)
  have hsmall : 2 * halfWord + 2 < word := by decide
  change ∃ grown bound, growFrom limit candidate table = (.ok (), grown) ∧ _
  fun_induction growFrom limit candidate table with
  | case1 candidate table hcovered =>
      obtain ⟨prime, hprime, hreaches, hunder⟩ := (hholds.covers_iff limit).mp hcovered
      exact ⟨table, candidate, rfl, le_rfl, by omega, hholds⟩
  | case2 candidate table hopen fault hfault =>
      have hbefore := hholds.le_of_open hopen hstop hbeyond.le
      rw [hholds.hasKnownDivisor_eq (by omega) hlarge] at hfault
      cases hfault
  | case3 candidate table hopen divisible hdivisible next hinside ih =>
      have hbefore := hholds.le_of_open hopen hstop hbeyond.le
      rw [hholds.hasKnownDivisor_eq (by omega) hlarge, Except.ok.injEq] at hdivisible
      have hnext : next.HoldsUnder (candidate + 2) := by
        have htest := hholds.test hodd hlarge
        simpa [next, ← hdivisible] using htest
      obtain ⟨grown, bound, hrun, hle, hreaches, hgrown⟩ := ih hnext (by omega) (by omega)
      exact ⟨grown, bound, hrun, by omega, hreaches, hgrown⟩
  | case4 candidate table hopen divisible hdivisible hfull =>
      have hbefore := hholds.le_of_open hopen hstop hbeyond.le
      omega

/-- A complete table has a last prime, which is odd, and no prime lies between it and
the odd number after it. -/
theorem HoldsUnder.last_odd {table : PrimeTable} {bound : Nat} (hbound : 3 < bound)
    (hholds : table.HoldsUnder bound) :
    ∃ last, table.primes.back? = some last ∧ last < bound ∧ last.Prime ∧ 3 ≤ last ∧
      last % 2 = 1 ∧ table.HoldsUnder (last + 2) := by
  cases hlast : table.primes.back? with
  | none =>
      have hthree : bound ≤ 3 := hholds.le_of_empty hlast Nat.prime_three
      omega
  | some last =>
      obtain ⟨hprime, hbelow, hgreatest⟩ := hholds.back hlast
      have hthree : 3 ≤ last := hgreatest 3 Nat.prime_three hbound
      have hodd : last % 2 = 1 := by
        have := hprime.eq_two_or_odd
        omega
      refine ⟨last, rfl, hbelow, hprime, hthree, hodd, ?_⟩
      rw [HoldsUnder, primesUnder_add_two hodd hthree, hholds]
      apply primesUnder_eq_of_no_prime hbelow
      intro number hlow hhigh hnumber
      have := hgreatest number hnumber hhigh
      omega

/-- Growing a complete table to a limit keeps it complete and gets past the limit. -/
theorem grow_run {limit : Nat} (hpositive : 0 < limit) (hlimit : limit ≤ halfWord)
    {table : PrimeTable} (hcomplete : table.Complete) :
    ∃ grown bound, (grow limit).run.run table = (.ok (), grown) ∧
      3 < bound ∧ limit < bound ∧ grown.HoldsUnder bound := by
  obtain ⟨bound, hbound, hholds⟩ := hcomplete
  by_cases hcovered : table.covers limit = true
  · obtain ⟨prime, hprime, hreaches, hunder⟩ := (hholds.covers_iff limit).mp hcovered
    refine ⟨table, bound, ?_, hbound, by omega, hholds⟩
    rw [grow, Run.run_bind_ok (Run.run_get table), if_pos hcovered]
    rfl
  · obtain ⟨last, hlast, hbelow, hprime, hthree, hodd, hcandidate⟩ :=
      hholds.last_odd hbound
    have hunder : last < limit := by
      by_contra hreaches
      exact hcovered ((hholds.covers_iff limit).mpr ⟨last, hprime, by omega, hbelow⟩)
    have hhalf : halfWord + 2 < word := by decide
    have hadd : Checked.add word last 2 = .ok (last + 2) := if_pos (by omega)
    obtain ⟨grown, reached, hrun, hle, hreaches, hgrown⟩ :=
      growFrom_run hpositive hlimit (last + 2) table hcandidate (by omega) (by omega)
    refine ⟨grown, reached, ?_, by omega, hreaches, hgrown⟩
    rw [grow, Run.run_bind_ok (Run.run_get table), if_neg hcovered]
    simp only [hlast, hadd]
    rw [Run.run_bind_ok (Run.run_lift _ table)]
    exact hrun

end PrimeTable

/-- Over a complete table, primality is decided and the table stays complete. -/
theorem isPrime_run {number : Nat} (hword : number < word) {table : PrimeTable}
    (hcomplete : table.Complete) :
    ∃ grown, (isPrime number).run.run table = (.ok (decide number.Prime), grown) ∧
      grown.Complete := by
  rcases Nat.lt_or_ge number 2 with hsmall | hlarge
  · have hnot : ¬ number.Prime := by
      intro hprime
      have := hprime.two_le
      omega
    refine ⟨table, ?_, hcomplete⟩
    rw [isPrime, if_pos hsmall, decide_eq_false hnot]
    rfl
  rcases Nat.eq_or_lt_of_le hlarge with htwo | hlarge
  · refine ⟨table, ?_, hcomplete⟩
    rw [isPrime, if_neg (by omega), if_pos htwo.symm, ← htwo, decide_eq_true Nat.prime_two]
    rfl
  have hroot := SquareRoot.sqrt_lt_halfWord hword
  have hhalf : halfWord + 1 < word := by decide
  have hlimit : Checked.add word (Nat.sqrt number) 1 = .ok (Nat.sqrt number + 1) :=
    if_pos (by omega)
  obtain ⟨grown, bound, hgrow, hbound, hpast, hgrown⟩ :=
    PrimeTable.grow_run (Nat.succ_pos (Nat.sqrt number)) (by omega) hcomplete
  have htrial := hasKnownDivisor_eq hgrown hword (by omega) (by omega)
  refine ⟨grown, ?_, bound, hbound, hgrown⟩
  rw [isPrime, if_neg (by omega), if_neg (by omega), isqrt_eq_sqrt hword,
    Run.run_bind_ok (Run.run_lift _ table)]
  simp only [hlimit]
  rw [Run.run_bind_ok (Run.run_lift _ table), Run.run_bind_ok hgrow,
    Run.run_bind_ok (Run.run_get grown), htrial, Run.run_bind_ok (Run.run_lift _ grown),
    Run.run_pure]
  simp

/-! ## Questions in sequence -/

namespace PrimeMemo

structure Sound (memo : PrimeMemo) : Prop where
  complete : memo.inner.Complete
  answers : ∀ {number : Nat} {answer : Bool},
    memo.kept[number]? = some answer → answer = decide number.Prime

/-- The states that questions about words lead to, in any number and order, whether
their answers are kept or not. -/
inductive Reachable : PrimeMemo → Prop where
  | initial : Reachable initial
  | uncached {memo : PrimeMemo} (reached : Reachable memo) {number : Nat}
      (small : number < word) : Reachable ((isPrimeUncached number).run.run memo).2
  | cached {memo : PrimeMemo} (reached : Reachable memo) {number : Nat}
      (small : number < word) : Reachable ((isPrimeCached number).run.run memo).2

theorem initial_sound : initial.Sound where
  complete := PrimeTable.initial_complete
  answers hkept := by simp [initial, Memo.empty] at hkept

end PrimeMemo

/-- In a sound state, a question that is not kept is answered rightly. -/
theorem isPrimeUncached_run {number : Nat} (hword : number < word) {memo : PrimeMemo}
    (hsound : memo.Sound) :
    ∃ after, (isPrimeUncached number).run.run memo = (.ok (decide number.Prime), after) ∧
      after.Sound := by
  obtain ⟨grown, hrun, hgrown⟩ := isPrime_run hword hsound.complete
  refine ⟨⟨memo.kept, grown⟩, ?_, hgrown, hsound.answers⟩
  change Memo.within (isPrime number) memo = _
  simp only [Memo.within, hrun]

theorem isPrimeCached_eq_through (number : Nat) :
    isPrimeCached number = Memo.through isPrimeUncached number := rfl

theorem PrimeMemo.Sound.store {memo : PrimeMemo} (hsound : memo.Sound) (number : Nat) :
    (Memo.store memo.kept number (decide number.Prime)).1 = decide number.Prime ∧
      Sound ⟨(Memo.store memo.kept number (decide number.Prime)).2, memo.inner⟩ := by
  have htable : Memo.IsTableOf (fun number => decide number.Prime) memo.kept :=
    fun _ _ => hsound.answers
  obtain ⟨hanswer, hstored⟩ := htable.store number
  exact ⟨hanswer, hsound.complete, hstored _ _⟩

theorem isPrimeCached_run {number : Nat} (hword : number < word) {memo : PrimeMemo}
    (hsound : memo.Sound) :
    ∃ after, (isPrimeCached number).run.run memo = (.ok (decide number.Prime), after) ∧
      after.Sound := by
  cases hkept : memo.kept[number]? with
  | some answer =>
      refine ⟨memo, ?_, hsound⟩
      rw [← hsound.answers hkept, isPrimeCached_eq_through]
      exact Memo.through_hit hkept
  | none =>
      -- The evaluation leaves the kept answers alone, but they are consulted once more
      -- when the new one is stored.
      obtain ⟨after, hrun, hafter⟩ := isPrimeUncached_run hword hsound
      obtain ⟨hvalue, hstored⟩ := hafter.store number
      refine ⟨_, ?_, hstored⟩
      rw [isPrimeCached_eq_through, Memo.through_stored hkept hrun, hvalue]

/-- Questions about words lead to sound states only. -/
theorem PrimeMemo.Reachable.sound {memo : PrimeMemo} (hreached : memo.Reachable) :
    memo.Sound := by
  induction hreached with
  | initial => exact initial_sound
  | uncached _ hword ih =>
      obtain ⟨after, hrun, hafter⟩ := isPrimeUncached_run hword ih
      rw [hrun]
      exact hafter
  | cached _ hword ih =>
      obtain ⟨after, hrun, hafter⟩ := isPrimeCached_run hword ih
      rw [hrun]
      exact hafter

namespace PrimeMemo.Reachable

variable {memo : PrimeMemo} {number : Nat}

theorem run_uncached (hreached : memo.Reachable) (hword : number < word) :
    ∃ after, (isPrimeUncached number).run.run memo = (.ok (decide number.Prime), after) ∧
      after.Reachable := by
  obtain ⟨after, hrun, -⟩ := isPrimeUncached_run hword hreached.sound
  have hafter := hreached.uncached hword
  rw [hrun] at hafter
  exact ⟨after, hrun, hafter⟩

theorem run_cached (hreached : memo.Reachable) (hword : number < word) :
    ∃ after, (isPrimeCached number).run.run memo = (.ok (decide number.Prime), after) ∧
      after.Reachable := by
  obtain ⟨after, hrun, -⟩ := isPrimeCached_run hword hreached.sound
  have hafter := hreached.cached hword
  rw [hrun] at hafter
  exact ⟨after, hrun, hafter⟩

end PrimeMemo.Reachable

/-- Whatever was asked before, with or without keeping the answers, both questions
about a word end without a fault and tell whether it is prime; and the table holds
the first primes in order, two and three among them. -/
theorem primality_after_any_questions {memo : PrimeMemo} (hreached : memo.Reachable)
    {number : Nat} (hword : number < word) :
    ((isPrimeUncached number).run.run memo).1 = .ok (decide number.Prime) ∧
      ((isPrimeCached number).run.run memo).1 = .ok (decide number.Prime) ∧
      ∃ count, 2 ≤ count ∧
        memo.inner.primes.toList = (List.range count).map (Nat.nth Nat.Prime) := by
  have hsound := hreached.sound
  obtain ⟨uncached, huncached, -⟩ := isPrimeUncached_run hword hsound
  obtain ⟨cached, hcached, -⟩ := isPrimeCached_run hword hsound
  exact ⟨by rw [huncached], by rw [hcached], hsound.complete.eq_map_nth⟩

/-- After 25 and then 49 were asked, the greatest word is found composite. -/
theorem primality_of_greatest_word :
    PrimeMemo.Reachable ((isPrimeCached 49).run.run
      ((isPrimeUncached 25).run.run PrimeMemo.initial).2).2 ∧
    ((isPrimeCached (word - 1)).run.run ((isPrimeCached 49).run.run
      ((isPrimeUncached 25).run.run PrimeMemo.initial).2).2).1 = .ok false := by
  have hreached : PrimeMemo.Reachable ((isPrimeCached 49).run.run
      ((isPrimeUncached 25).run.run PrimeMemo.initial).2).2 :=
    .cached (.uncached .initial (by decide)) (by decide)
  have hcomposite : ¬ (word - 1).Prime := by
    have hdvd : 3 ∣ word - 1 := by decide
    intro hprime
    have hthree : 3 = word - 1 :=
      (Nat.prime_dvd_prime_iff_eq Nat.prime_three hprime).mp hdvd
    exact absurd hthree (by decide)
  have hword : word - 1 < word := by decide
  have hanswer := (primality_after_any_questions hreached hword).2.1
  rw [decide_eq_false hcomposite] at hanswer
  exact ⟨hreached, hanswer⟩

end NumberPuzzles
