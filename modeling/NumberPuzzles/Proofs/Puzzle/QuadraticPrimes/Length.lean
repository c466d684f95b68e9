import Mathlib.Algebra.Order.Ring.Abs
import Mathlib.Order.Bounds.Basic
import Mathlib.Tactic.Linarith
import Mathlib.Tactic.Ring
import NumberPuzzles.Proofs.Checked
import NumberPuzzles.Proofs.Prime.Table
import NumberPuzzles.Puzzle.QuadraticPrimes

/-!
# How many values in a row are prime

A run begins at the constant, so it is empty unless that is a prime.  At the point of that prime
the value is a multiple of it, and a proper one unless the linear coefficient is its opposite;
then the value at one is one.  So every run ends, at a point so small that no step of an
evaluation on the way leaves the signed words.
-/

namespace NumberPuzzles.QuadraticPrimes

variable {linear constant : Int} {point run : Nat}

def valueAt (linear constant : Int) (point : Nat) : Int :=
  point * point + linear * point + constant

def IsPrimeAt (linear constant : Int) (point : Nat) : Prop :=
  ∃ prime : Nat, prime.Prime ∧ valueAt linear constant point = prime

/-- The greatest number such that the values at all points below it are prime. -/
def IsRunLength (linear constant : Int) (run : Nat) : Prop :=
  IsGreatest {length | ∀ point < length, IsPrimeAt linear constant point} run

theorem isPrimeAt_iff :
    IsPrimeAt linear constant point ↔
      2 ≤ valueAt linear constant point ∧ (valueAt linear constant point).toNat.Prime := by
  constructor
  · rintro ⟨prime, hprime, hvalue⟩
    rw [hvalue, Int.toNat_natCast]
    exact ⟨mod_cast hprime.two_le, hprime⟩
  · rintro ⟨hlarge, hprime⟩
    exact ⟨_, hprime, (Int.toNat_of_nonneg (by omega)).symm⟩

/-! ## Where a run ends -/

/-- A run goes on exactly to the first point whose value is no prime. -/
theorem isRunLength_of_ends (hprimes : ∀ point < run, IsPrimeAt linear constant point)
    (hends : ¬ IsPrimeAt linear constant run) : IsRunLength linear constant run := by
  refine ⟨hprimes, ?_⟩
  intro length hlength
  by_contra hlonger
  exact hends (hlength run (Nat.not_le.mp hlonger))

theorem IsRunLength.le (hrun : IsRunLength linear constant run)
    (hends : ¬ IsPrimeAt linear constant point) : run ≤ point := by
  by_contra hlonger
  exact hends (hrun.1 point (Nat.not_le.mp hlonger))

@[simp]
theorem valueAt_zero : valueAt linear constant 0 = constant := by simp [valueAt]

/-- With the opposite of the constant as its linear coefficient the polynomial is one at one. -/
theorem not_isPrimeAt_one (hopposite : linear = -constant) : ¬ IsPrimeAt linear constant 1 := by
  rintro ⟨prime, hprime, hvalue⟩
  have hone : valueAt linear constant 1 = (1 : Nat) := by
    rw [valueAt, hopposite]
    ring
  rw [hone] at hvalue
  exact Nat.not_prime_one (Int.ofNat_inj.mp hvalue ▸ hprime)

/-- At the point of a prime constant the value is a proper multiple of the constant. -/
theorem not_isPrimeAt_constant {prime : Nat} (hprime : prime.Prime) (hconstant : constant = prime)
    (hlinear : linear ≠ -constant) : ¬ IsPrimeAt linear constant prime := by
  rintro ⟨other, hother, hvalue⟩
  have hmultiple : (other : Int) = prime * (prime + linear + 1) := by
    rw [← hvalue, valueAt, hconstant]
    ring
  have hdvd : prime ∣ other := Int.natCast_dvd_natCast.mp ⟨_, hmultiple⟩
  rw [← (Nat.prime_dvd_prime_iff_eq hprime hother).mp hdvd] at hmultiple
  have hfactor : (prime + linear + 1 : Int) = 1 := by
    have hpos : (prime : Int) ≠ 0 := mod_cast hprime.ne_zero
    exact mul_left_cancel₀ hpos (by rw [← hmultiple, mul_one])
  exact hlinear (by omega)

/-- Every run ends before its points leave the half words. -/
theorem exists_end (linear : Int) (hconstant : |constant| < 2 ^ 30) :
    ∃ stop < 2 ^ 30, ¬ IsPrimeAt linear constant stop := by
  by_cases hprime : IsPrimeAt linear constant 0
  · obtain ⟨prime, hprime, hvalue⟩ := hprime
    rw [valueAt_zero] at hvalue
    by_cases hopposite : linear = -constant
    · exact ⟨1, by decide, not_isPrimeAt_one hopposite⟩
    · refine ⟨prime, ?_, not_isPrimeAt_constant hprime hvalue hopposite⟩
      rw [hvalue, Nat.abs_cast] at hconstant
      exact mod_cast hconstant
  · exact ⟨0, by decide, hprime⟩

/-! ## Counting -/

/-- The two products stay far enough from the ends of the signed words. -/
theorem products_le (hlinear : |linear| < 2 ^ 30) (hpoint : point < 2 ^ 30) :
    (0 ≤ (point : Int) * point ∧ (point : Int) * point ≤ 2 ^ 60) ∧ |linear * point| ≤ 2 ^ 60 := by
  have hpoint : (point : Int) ≤ 2 ^ 30 := mod_cast hpoint.le
  refine ⟨⟨by positivity, ?_⟩, ?_⟩
  · calc
      (point : Int) * point ≤ 2 ^ 30 * 2 ^ 30 := by gcongr
      _ = 2 ^ 60 := by norm_num
  · calc
      |linear * point| = |linear| * point := by rw [abs_mul, Nat.abs_cast]
      _ ≤ 2 ^ 30 * 2 ^ 30 := by gcongr
      _ = 2 ^ 60 := by norm_num

/-- Small coefficients and a small point keep every step of an evaluation in the signed words. -/
theorem value_eq (hlinear : |linear| < 2 ^ 30) (hconstant : |constant| < 2 ^ 30)
    (hpoint : point < 2 ^ 30) : value linear constant point = .ok (valueAt linear constant point) := by
  obtain ⟨hsquare, hmiddle⟩ := products_le hlinear hpoint
  rw [abs_le] at hmiddle
  rw [abs_lt] at hconstant
  have hbound : signedBound = 2 ^ 63 := rfl
  have hfirst : Signed.mul point point = .ok ((point : Int) * point) :=
    if_pos ⟨by omega, by omega⟩
  have hsecond : Signed.mul linear point = .ok (linear * point) := if_pos ⟨by omega, by omega⟩
  have hthird : Signed.add (point * point) (linear * point) =
      .ok (point * point + linear * point) := if_pos ⟨by omega, by omega⟩
  have hfourth : Signed.add (point * point + linear * point) constant =
      .ok (valueAt linear constant point) := if_pos ⟨by omega, by omega⟩
  rw [value, Checked.bind_of_ok hfirst, Checked.bind_of_ok hsecond, Checked.bind_of_ok hthird, hfourth]

theorem valueAt_lt_word (hlinear : |linear| < 2 ^ 30) (hconstant : |constant| < 2 ^ 30)
    (hpoint : point < 2 ^ 30) : (valueAt linear constant point).toNat < word := by
  obtain ⟨hsquare, hmiddle⟩ := products_le hlinear hpoint
  rw [abs_le] at hmiddle
  rw [abs_lt] at hconstant
  have hword : word = 2 ^ 64 := rfl
  rw [valueAt]
  omega

/-- Counting on from a point, with enough points left for one whose value is no prime. -/
theorem runFrom_run (hlinear : |linear| < 2 ^ 30) (hconstant : |constant| < 2 ^ 30) {stop : Nat}
    (hstop : stop < 2 ^ 30) (hends : ¬ IsPrimeAt linear constant stop) {points : Nat}
    (hpoints : stop < point + points) (hpoint : point ≤ stop)
    (hprimes : ∀ earlier < point, IsPrimeAt linear constant earlier) {memo : PrimeMemo}
    (hsound : memo.Sound) :
    ∃ run after, (runFrom linear constant point points).run.run memo = (.ok run, after) ∧
      IsRunLength linear constant run ∧ after.Sound := by
  induction points generalizing point memo with
  | zero => omega
  | succ points ih =>
      rw [runFrom, value_eq hlinear hconstant (by omega), Run.run_bind_ok (Run.run_lift _ memo)]
      by_cases hsmall : valueAt linear constant point < 2
      · have hhere : ¬ IsPrimeAt linear constant point := fun hprime =>
          Int.not_le.mpr hsmall (isPrimeAt_iff.mp hprime).1
        rw [if_pos hsmall]
        exact ⟨point, memo, rfl, isRunLength_of_ends hprimes hhere, hsound⟩
      have hword : (valueAt linear constant point).toNat < word :=
        valueAt_lt_word hlinear hconstant (by omega)
      obtain ⟨after, hrun, hafter⟩ := isPrimeCached_run hword hsound
      rw [if_neg hsmall, Run.run_bind_ok hrun]
      by_cases hprime : (valueAt linear constant point).toNat.Prime
      · have hhere : IsPrimeAt linear constant point :=
          isPrimeAt_iff.mpr ⟨Int.not_lt.mp hsmall, hprime⟩
        have hbefore : point ≠ stop := fun hreached => hends (hreached ▸ hhere)
        rw [decide_eq_true hprime, if_pos rfl]
        refine ih (by omega) (by omega) ?_ hafter
        intro earlier hearlier
        rcases Nat.lt_succ_iff_lt_or_eq.mp hearlier with hlt | rfl
        · exact hprimes earlier hlt
        · exact hhere
      · have hhere : ¬ IsPrimeAt linear constant point := fun hat =>
          hprime (isPrimeAt_iff.mp hat).2
        rw [decide_eq_false hprime, if_neg Bool.false_ne_true]
        exact ⟨point, after, rfl, isRunLength_of_ends hprimes hhere, hafter⟩

/-- From every sound state of the kept answers the run is counted without a fault. -/
theorem consecutivePrimes_run (hlinear : |linear| < 2 ^ 30) (hconstant : |constant| < 2 ^ 30)
    {memo : PrimeMemo} (hsound : memo.Sound) :
    ∃ run after, (consecutivePrimes linear constant).run.run memo = (.ok run, after) ∧
      IsRunLength linear constant run ∧ after.Sound := by
  obtain ⟨stop, hstop, hends⟩ := exists_end linear hconstant
  have hpoints : stop < 0 + halfWord := by
    rw [Nat.zero_add]
    exact hstop.trans (by decide)
  have hnone : ∀ earlier < 0, IsPrimeAt linear constant earlier := fun earlier hearlier =>
    absurd hearlier earlier.not_lt_zero
  exact runFrom_run hlinear hconstant hstop hends hpoints stop.zero_le hnone hsound

/-- Whatever was asked about primes before, the run of a polynomial with small coefficients is
counted without a fault, and it is the greatest one.  It is empty when the constant is no prime.
It is no longer than a prime constant, but for the polynomial whose linear coefficient is the
opposite of the constant; that one has a run of one value. -/
theorem run_ends_by_constant (hlinear : |linear| < 2 ^ 30) (hconstant : |constant| < 2 ^ 30)
    {memo : PrimeMemo} (hreached : memo.Reachable) :
    ∃ run, ((consecutivePrimes linear constant).run.run memo).1 = .ok run ∧
      IsRunLength linear constant run ∧
      ((∀ prime : Nat, prime.Prime → constant ≠ prime) → run = 0) ∧
      ∀ prime : Nat, prime.Prime → constant = prime →
        (linear ≠ -constant → run ≤ prime) ∧ (linear = -constant → run = 1) ∧ run ≤ 2 * prime := by
  obtain ⟨run, after, hrun, hlength, -⟩ := consecutivePrimes_run hlinear hconstant hreached.sound
  refine ⟨run, by rw [hrun], hlength, ?_, ?_⟩
  · intro hcomposite
    have hends : ¬ IsPrimeAt linear constant 0 := by
      rintro ⟨prime, hprime, hvalue⟩
      exact hcomposite prime hprime (valueAt_zero.symm.trans hvalue)
    exact Nat.le_zero.mp (hlength.le hends)
  · intro prime hprime hvalue
    have hpos := hprime.pos
    have hother (hlinear : linear ≠ -constant) : run ≤ prime :=
      hlength.le (not_isPrimeAt_constant hprime hvalue hlinear)
    have hopposite (hlinear : linear = -constant) : run = 1 := by
      refine Nat.le_antisymm (hlength.le (not_isPrimeAt_one hlinear)) (hlength.2 ?_)
      intro point hpoint
      obtain rfl := Nat.lt_one_iff.mp hpoint
      exact ⟨prime, hprime, valueAt_zero.trans hvalue⟩
    refine ⟨hother, hopposite, ?_⟩
    by_cases hlinear : linear = -constant
    · have := hopposite hlinear
      omega
    · have := hother hlinear
      omega

/-- The values from eleven on are prime up to the point ten, where the value is the square of
eleven. -/
theorem run_ends_by_eleven :
    |(1 : Int)| < 2 ^ 30 ∧ |(11 : Int)| < 2 ^ 30 ∧ PrimeMemo.initial.Reachable ∧
      ((consecutivePrimes 1 11).run.run PrimeMemo.initial).1 = .ok 10 := by
  have hlinear : |(1 : Int)| < 2 ^ 30 := by decide
  have hconstant : |(11 : Int)| < 2 ^ 30 := by decide
  obtain ⟨run, hrun, hgreatest, -⟩ := run_ends_by_constant hlinear hconstant .initial
  have hprimes : ∀ point < 10, IsPrimeAt 1 11 point := by
    simp only [isPrimeAt_iff]
    decide
  have hends : ¬ IsPrimeAt 1 11 10 := by
    rw [isPrimeAt_iff]
    decide
  rw [hrun, hgreatest.unique (isRunLength_of_ends hprimes hends)]
  exact ⟨hlinear, hconstant, .initial, rfl⟩

end NumberPuzzles.QuadraticPrimes
