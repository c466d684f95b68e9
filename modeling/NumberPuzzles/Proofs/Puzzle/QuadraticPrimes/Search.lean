import Mathlib.Data.Int.Range
import Mathlib.Data.Prod.Lex
import NumberPuzzles.Proofs.Progression
import NumberPuzzles.Proofs.Puzzle.QuadraticPrimes.Length

/-!
# The search row by row is the flat search

The search keeps the best polynomial of each row of constants and then the best of the rows.  To
keep the better of two, the first one of equals, is associative, and a polynomial without a run
never displaces another; so the placeholder that a row starts from is lost, and the rows one
after the other give what a single search through all pairs gives.  That is the first of the
longest runs.
-/

namespace NumberPuzzles.QuadraticPrimes

variable {bound linear constant : Int}

noncomputable def runLength (linear constant : Int) : Nat :=
  sSup {length | ∀ point < length, IsPrimeAt linear constant point}

theorem IsRunLength.eq_runLength {run : Nat} (hrun : IsRunLength linear constant run) :
    run = runLength linear constant :=
  hrun.csSup_eq.symm

theorem isRunLength_runLength (hlinear : |linear| < 2 ^ 30) (hconstant : |constant| < 2 ^ 30) :
    IsRunLength linear constant (runLength linear constant) := by
  obtain ⟨run, -, -, hrun, -⟩ :=
    consecutivePrimes_run hlinear hconstant PrimeMemo.initial_sound
  exact hrun.eq_runLength ▸ hrun

theorem consecutivePrimes_eq (hlinear : |linear| < 2 ^ 30) (hconstant : |constant| < 2 ^ 30)
    {memo : PrimeMemo} (hsound : memo.Sound) :
    ∃ after, (consecutivePrimes linear constant).run.run memo =
      (.ok (runLength linear constant), after) ∧ after.Sound := by
  obtain ⟨run, after, hrun, hlength, hafter⟩ := consecutivePrimes_run hlinear hconstant hsound
  exact ⟨after, hlength.eq_runLength ▸ hrun, hafter⟩

/-! ## Pairs of coefficients -/

/-- The pairs of a linear coefficient with the constants from a first one to below a limit. -/
def row (first limit linear : Int) : List (Int × Int) :=
  (Int.range first limit).map fun constant => (linear, constant)

def pairs (bound : Int) : List (Int × Int) :=
  (Int.range (-bound) (bound + 1)).flatMap (row (-bound) (bound + 1))

theorem mem_range_bound {value : Int} : value ∈ Int.range (-bound) (bound + 1) ↔ |value| ≤ bound := by
  rw [Int.mem_range_iff, abs_le, Int.lt_add_one_iff]

@[simp]
theorem mem_row {pair : Int × Int} :
    pair ∈ row (-bound) (bound + 1) linear ↔ pair.1 = linear ∧ |pair.2| ≤ bound := by
  rw [row, List.mem_map]
  constructor
  · rintro ⟨constant, hconstant, rfl⟩
    exact ⟨rfl, mem_range_bound.mp hconstant⟩
  · rintro ⟨rfl, hconstant⟩
    exact ⟨pair.2, mem_range_bound.mpr hconstant, rfl⟩

@[simp]
theorem mem_pairs {pair : Int × Int} :
    pair ∈ pairs bound ↔ |pair.1| ≤ bound ∧ |pair.2| ≤ bound := by
  rw [pairs, List.mem_flatMap]
  constructor
  · rintro ⟨linear, hlinear, hpair⟩
    obtain ⟨rfl, hconstant⟩ := mem_row.mp hpair
    exact ⟨mem_range_bound.mp hlinear, hconstant⟩
  · rintro ⟨hlinear, hconstant⟩
    exact ⟨pair.1, mem_range_bound.mpr hlinear, mem_row.mpr ⟨rfl, hconstant⟩⟩

theorem pairwise_range (first limit : Int) : (Int.range first limit).Pairwise (· < ·) := by
  rw [Int.range, List.pairwise_map]
  refine List.pairwise_lt_range.imp ?_
  intro left right hlt
  omega

theorem pairwise_pairs (bound : Int) :
    (pairs bound).Pairwise fun left right => toLex left < toLex right := by
  rw [pairs, List.pairwise_flatMap]
  constructor
  · intro linear hlinear
    rw [row, List.pairwise_map]
    refine (pairwise_range _ _).imp ?_
    intro left right hlt
    exact Prod.Lex.toLex_lt_toLex.mpr (.inr ⟨rfl, hlt⟩)
  · refine (pairwise_range _ _).imp ?_
    intro left right hlt pair hpair other hother
    rw [mem_row] at hpair hother
    exact Prod.Lex.toLex_lt_toLex.mpr (.inl (by rw [hpair.1, hother.1]; exact hlt))

theorem range_succ (first : Int) (count : Nat) :
    Int.range first (first + (count + 1 : Nat)) =
      first :: Int.range (first + 1) (first + 1 + count) := by
  have hcount : (first + (count + 1 : Nat) - first).toNat = count + 1 := by omega
  have hrest : (first + 1 + count - (first + 1)).toNat = count := by omega
  rw [Int.range, Int.range, hcount, hrest, List.range_succ_eq_map, List.map_cons, List.map_map]
  congr 1
  · simp
  · apply List.map_congr_left
    intro offset _
    simp only [Function.comp_apply]
    omega

/-! ## Keeping the better one -/

/-- The later polynomial is better only if its run is longer. -/
def better (best candidate : Quadratic) : Quadratic :=
  if best.run < candidate.run then candidate else best

theorem better_assoc (first second third : Quadratic) :
    better (better first second) third = better first (better second third) := by
  unfold better
  grind

theorem better_of_run_zero (best : Quadratic) {candidate : Quadratic} (hrun : candidate.run = 0) :
    better best candidate = best := by
  rw [better, hrun, if_neg (Nat.not_lt_zero _)]

noncomputable def candidate (pair : Int × Int) : Quadratic :=
  ⟨pair.1, pair.2, runLength pair.1 pair.2⟩

/-- What is kept on the way through some pairs. -/
noncomputable def bestOf (pairs : List (Int × Int)) (toBeat : Quadratic) : Quadratic :=
  pairs.foldl (fun best pair => better best (candidate pair)) toBeat

theorem better_bestOf (best toBeat : Quadratic) (pairs : List (Int × Int)) :
    better best (bestOf pairs toBeat) = bestOf pairs (better best toBeat) := by
  induction pairs generalizing toBeat with
  | nil => rfl
  | cons pair pairs ih =>
      calc
        better best (bestOf pairs (better toBeat (candidate pair))) =
            bestOf pairs (better best (better toBeat (candidate pair))) := ih _
        _ = bestOf pairs (better (better best toBeat) (candidate pair)) := by rw [better_assoc]

/-- What is kept is the one to beat, if no pair beats it, and otherwise the first of the pairs
with the longest run. -/
theorem bestOf_cases (pairs : List (Int × Int)) (toBeat : Quadratic) :
    (bestOf pairs toBeat = toBeat ∧ ∀ pair ∈ pairs, runLength pair.1 pair.2 ≤ toBeat.run) ∨
    ∃ best before after, bestOf pairs toBeat = candidate best ∧ pairs = before ++ best :: after ∧
      toBeat.run < runLength best.1 best.2 ∧
      (∀ pair ∈ before, runLength pair.1 pair.2 < runLength best.1 best.2) ∧
      ∀ pair ∈ after, runLength pair.1 pair.2 ≤ runLength best.1 best.2 := by
  induction pairs generalizing toBeat with
  | nil => exact .inl ⟨rfl, nofun⟩
  | cons pair pairs ih =>
      by_cases hbeats : toBeat.run < runLength pair.1 pair.2
      · have hstep : bestOf (pair :: pairs) toBeat = bestOf pairs (candidate pair) :=
          congrArg (bestOf pairs) (if_pos hbeats)
        rw [hstep]
        rcases ih (candidate pair) with ⟨hkept, hall⟩ | ⟨best, before, after, hkept, rfl, hmore, hrest⟩
        · exact .inr ⟨pair, [], pairs, hkept, rfl, hbeats, nofun, hall⟩
        · refine .inr ⟨best, pair :: before, after, hkept, rfl, hbeats.trans hmore, ?_, hrest.2⟩
          exact List.forall_mem_cons.mpr ⟨hmore, hrest.1⟩
      · have hstep : bestOf (pair :: pairs) toBeat = bestOf pairs toBeat :=
          congrArg (bestOf pairs) (if_neg hbeats)
        have hle : runLength pair.1 pair.2 ≤ toBeat.run := Nat.not_lt.mp hbeats
        rw [hstep]
        rcases ih toBeat with ⟨hkept, hall⟩ | ⟨best, before, after, hkept, rfl, hmore, hrest⟩
        · exact .inl ⟨hkept, List.forall_mem_cons.mpr ⟨hle, hall⟩⟩
        · refine .inr ⟨best, pair :: before, after, hkept, rfl, hmore, ?_, hrest.2⟩
          exact List.forall_mem_cons.mpr ⟨hle.trans_lt hmore, hrest.1⟩

/-! ## The two searches -/

def tryPair (best : Quadratic) (pair : Int × Int) : Run PrimeMemo Fault Quadratic := do
  let run ← consecutivePrimes pair.1 pair.2
  return if best.run < run then ⟨pair.1, pair.2, run⟩ else best

def flatSearch (bound : Int) : Run PrimeMemo Fault Quadratic :=
  (pairs bound).foldlM tryPair ⟨0, 0, 0⟩

/-- Looks for the best of a row and keeps it if it is better. -/
def tryRow (first : Int) (constants : Nat) (best : Quadratic) (linear : Int) :
    Run PrimeMemo Fault Quadratic := do
  let candidate ← bestConstant linear first constants ⟨linear, 0, 0⟩
  return better best candidate

theorem bestConstant_eq (linear first : Int) (constants : Nat) (best : Quadratic) :
    bestConstant linear first constants best =
      (row first (first + constants) linear).foldlM tryPair best := by
  induction constants generalizing first best with
  | zero => simp [bestConstant, row, Int.range]
  | succ constants ih =>
      rw [row, range_succ, List.map_cons, List.foldlM_cons, bestConstant, tryPair, bind_assoc]
      simp only [pure_bind, ih, row]

theorem bestLinear_eq (first : Int) (constants : Nat) (linear : Int) (linears : Nat)
    (best : Quadratic) :
    bestLinear first constants linear linears best =
      (Int.range linear (linear + linears)).foldlM (tryRow first constants) best := by
  induction linears generalizing linear best with
  | zero => simp [bestLinear, Int.range]
  | succ linears ih =>
      rw [range_succ, List.foldlM_cons, bestLinear, tryRow, bind_assoc]
      simp only [pure_bind, ih]
      rfl

theorem foldlM_tryPair_run {pairs : List (Int × Int)}
    (hpairs : ∀ pair ∈ pairs, |pair.1| < 2 ^ 30 ∧ |pair.2| < 2 ^ 30) (toBeat : Quadratic)
    {memo : PrimeMemo} (hsound : memo.Sound) :
    ∃ after, (pairs.foldlM tryPair toBeat).run.run memo = (.ok (bestOf pairs toBeat), after) ∧
      after.Sound := by
  refine Progression.foldlM_run ?_ toBeat hsound
  intro best pair hpair memo hsound
  obtain ⟨hlinear, hconstant⟩ := hpairs pair hpair
  obtain ⟨after, hrun, hafter⟩ := consecutivePrimes_eq hlinear hconstant hsound
  exact ⟨after, by rw [tryPair, Run.run_bind_ok hrun]; rfl, hafter⟩

theorem flatSearch_run (hbound : bound < 2 ^ 30) {memo : PrimeMemo} (hsound : memo.Sound) :
    ∃ after, (flatSearch bound).run.run memo = (.ok (bestOf (pairs bound) ⟨0, 0, 0⟩), after) ∧
      after.Sound := by
  refine foldlM_tryPair_run ?_ _ hsound
  intro pair hpair
  obtain ⟨hlinear, hconstant⟩ := mem_pairs.mp hpair
  exact ⟨hlinear.trans_lt hbound, hconstant.trans_lt hbound⟩

/-- A row is searched from a placeholder, but what is kept is what the flat search would keep. -/
theorem tryRow_run (hbound : bound < 2 ^ 30) (hlinear : |linear| ≤ bound) {constants : Nat}
    (hconstants : -bound + constants = bound + 1) (best : Quadratic) {memo : PrimeMemo}
    (hsound : memo.Sound) :
    ∃ after, (tryRow (-bound) constants best linear).run.run memo =
      (.ok (bestOf (row (-bound) (bound + 1) linear) best), after) ∧ after.Sound := by
  have hrow : ∀ pair ∈ row (-bound) (bound + 1) linear, |pair.1| < 2 ^ 30 ∧ |pair.2| < 2 ^ 30 := by
    intro pair hpair
    obtain ⟨rfl, hconstant⟩ := mem_row.mp hpair
    exact ⟨hlinear.trans_lt hbound, hconstant.trans_lt hbound⟩
  obtain ⟨after, hrun, hafter⟩ := foldlM_tryPair_run hrow ⟨linear, 0, 0⟩ hsound
  refine ⟨after, ?_, hafter⟩
  rw [tryRow, bestConstant_eq, hconstants, Run.run_bind_ok hrun, Run.run_pure, better_bestOf,
    better_of_run_zero best rfl]

theorem bestOf_pairs (toBeat : Quadratic) :
    bestOf (pairs bound) toBeat =
      (Int.range (-bound) (bound + 1)).foldl
        (fun best linear => bestOf (row (-bound) (bound + 1) linear) best) toBeat :=
  List.foldl_flatMap

theorem bestCoefficients_run (hnonneg : 0 ≤ bound) (hbound : bound < 2 ^ 30) {memo : PrimeMemo}
    (hsound : memo.Sound) :
    ∃ after, (bestCoefficients bound).run.run memo =
      (.ok (bestOf (pairs bound) ⟨0, 0, 0⟩), after) ∧ after.Sound := by
  have hlimit : signedBound = 2 ^ 63 := rfl
  have hleast : Signed.neg bound = .ok (-bound) := if_pos ⟨by omega, by omega⟩
  have hconstants : -bound + ((bound - -bound + 1).toNat : Int) = bound + 1 := by omega
  have hrows : ∀ best, ∀ linear ∈ Int.range (-bound) (bound + 1), ∀ memo : PrimeMemo, memo.Sound →
      ∃ after, (tryRow (-bound) (bound - -bound + 1).toNat best linear).run.run memo =
        (.ok (bestOf (row (-bound) (bound + 1) linear) best), after) ∧ after.Sound := by
    intro best linear hlinear memo hsound
    exact tryRow_run hbound (mem_range_bound.mp hlinear) hconstants best hsound
  obtain ⟨after, hrun, hafter⟩ := Progression.foldlM_run hrows ⟨0, 0, 0⟩ hsound
  refine ⟨after, ?_, hafter⟩
  rw [bestCoefficients, hleast, Run.run_bind_ok (Run.run_lift _ memo), bestLinear_eq, hconstants,
    bestOf_pairs]
  exact hrun

/-! ## The first of the longest runs -/

/-- The coefficients are in bounds, the run is theirs and the longest of all, and of the pairs with
a run as long theirs is the first. -/
structure IsFirstLongest (bound : Int) (best : Quadratic) : Prop where
  inBounds : |best.linear| ≤ bound ∧ |best.constant| ≤ bound
  run_eq : best.run = runLength best.linear best.constant
  longest : ∀ linear constant, |linear| ≤ bound → |constant| ≤ bound →
    runLength linear constant ≤ best.run
  first : ∀ linear constant, |linear| ≤ bound → |constant| ≤ bound →
    runLength linear constant = best.run →
      toLex (best.linear, best.constant) ≤ toLex (linear, constant)

/-- The search keeps its placeholder if no pair has a run, and otherwise the first of the longest
runs. -/
theorem bestOf_pairs_cases (bound : Int) :
    (bestOf (pairs bound) ⟨0, 0, 0⟩ = ⟨0, 0, 0⟩ ∧
      ∀ linear constant, |linear| ≤ bound → |constant| ≤ bound → runLength linear constant = 0) ∨
    0 < (bestOf (pairs bound) ⟨0, 0, 0⟩).run ∧
      IsFirstLongest bound (bestOf (pairs bound) ⟨0, 0, 0⟩) := by
  rcases bestOf_cases (pairs bound) ⟨0, 0, 0⟩ with
    ⟨hkept, hall⟩ | ⟨best, before, after, hkept, hsplit, hmore, hbefore, hafter⟩
  · refine .inl ⟨hkept, ?_⟩
    intro linear constant hlinear hconstant
    exact Nat.le_zero.mp (hall (linear, constant) (mem_pairs.mpr ⟨hlinear, hconstant⟩))
  rw [hkept]
  have hmember : best ∈ pairs bound := by
    rw [hsplit]
    exact List.mem_append_right before List.mem_cons_self
  have hsorted := pairwise_pairs bound
  rw [hsplit, List.pairwise_append, List.pairwise_cons] at hsorted
  -- A pair is in front of the best one, where the runs are shorter, or it is not.
  have hcases (linear constant : Int) (hlinear : |linear| ≤ bound) (hconstant : |constant| ≤ bound) :
      runLength linear constant < runLength best.1 best.2 ∨
        runLength linear constant ≤ runLength best.1 best.2 ∧
          toLex best ≤ toLex (linear, constant) := by
    have hpair : (linear, constant) ∈ pairs bound := mem_pairs.mpr ⟨hlinear, hconstant⟩
    rw [hsplit, List.mem_append, List.mem_cons] at hpair
    rcases hpair with hin | rfl | hin
    · exact .inl (hbefore _ hin)
    · exact .inr ⟨le_rfl, le_rfl⟩
    · exact .inr ⟨hafter _ hin, (hsorted.2.1.1 _ hin).le⟩
  refine .inr ⟨hmore, mem_pairs.mp hmember, rfl, ?_, ?_⟩
  · intro linear constant hlinear hconstant
    rcases hcases linear constant hlinear hconstant with hshorter | ⟨hle, -⟩
    · exact hshorter.le
    · exact hle
  · intro linear constant hlinear hconstant hsame
    rcases hcases linear constant hlinear hconstant with hshorter | ⟨-, hfirst⟩
    · exact absurd hsame hshorter.ne
    · exact hfirst

/-- Whatever was asked about primes before, the runs of all pairs of coefficients in bounds are
counted, and the search by rows returns what the flat search does: the first of the longest runs
if some pair has a run, and otherwise an empty run with zeros as coefficients. -/
theorem rows_find_first_longest_run (hnonneg : 0 ≤ bound) (hbound : bound < 2 ^ 30)
    {memo : PrimeMemo} (hreached : memo.Reachable) :
    (∀ linear constant, |linear| ≤ bound → |constant| ≤ bound →
      ((consecutivePrimes linear constant).run.run memo).1 = .ok (runLength linear constant)) ∧
    ∃ best, ((bestCoefficients bound).run.run memo).1 = .ok best ∧
      ((flatSearch bound).run.run memo).1 = .ok best ∧
      ((∃ linear constant, |linear| ≤ bound ∧ |constant| ≤ bound ∧ 0 < runLength linear constant) →
        IsFirstLongest bound best) ∧
      ((∀ linear constant, |linear| ≤ bound → |constant| ≤ bound → runLength linear constant = 0) →
        best = ⟨0, 0, 0⟩) := by
  have hsound := hreached.sound
  constructor
  · intro linear constant hlinear hconstant
    obtain ⟨after, hrun, -⟩ :=
      consecutivePrimes_eq (hlinear.trans_lt hbound) (hconstant.trans_lt hbound) hsound
    rw [hrun]
  obtain ⟨after, hrun, -⟩ := bestCoefficients_run hnonneg hbound hsound
  obtain ⟨flatAfter, hflat, -⟩ := flatSearch_run hbound hsound
  refine ⟨bestOf (pairs bound) ⟨0, 0, 0⟩, by rw [hrun], by rw [hflat], ?_, ?_⟩
  · rintro ⟨linear, constant, hlinear, hconstant, hpos⟩
    rcases bestOf_pairs_cases bound with ⟨-, hnone⟩ | ⟨-, hfirst⟩
    · exact absurd (hnone linear constant hlinear hconstant) hpos.ne'
    · exact hfirst
  · intro hnone
    rcases bestOf_pairs_cases bound with ⟨hkept, -⟩ | ⟨hpos, hfirst⟩
    · exact hkept
    · rw [hfirst.run_eq, hnone _ _ hfirst.inBounds.1 hfirst.inBounds.2] at hpos
      exact absurd hpos (Nat.lt_irrefl 0)

/-- Up to two the longest runs have two values; those of the linear coefficients from minus one
on begin with two, and minus one comes first. -/
theorem rows_find_first_longest_run_up_to_two :
    0 ≤ (2 : Int) ∧ (2 : Int) < 2 ^ 30 ∧ PrimeMemo.initial.Reachable ∧
      ((bestCoefficients 2).run.run PrimeMemo.initial).1 = .ok ⟨-1, 2, 2⟩ := by
  have hsmall : (2 : Int) < 2 ^ 30 := by decide
  obtain ⟨-, ⟨linear, constant, run⟩, hrun, -, hsome, -⟩ :=
    rows_find_first_longest_run (by decide) hsmall .initial
  have hprimes : ∀ point < 2, IsPrimeAt (-1) 2 point := by
    simp only [isPrimeAt_iff]
    decide
  have hends : ¬ IsPrimeAt (-1) 2 2 := by
    rw [isPrimeAt_iff]
    decide
  have htwo := (isRunLength_of_ends hprimes hends).eq_runLength
  obtain ⟨hbounds, hlength, hlongest, hfirst⟩ := hsome ⟨-1, 2, by decide, by decide, by omega⟩
  have hlonger : 2 ≤ run := htwo.trans_le (hlongest (-1) 2 (by decide) (by decide))
  rw [abs_le, abs_le] at hbounds
  simp only at hbounds hlength hfirst
  have hisRun : IsRunLength linear constant run := by
    rw [hlength]
    exact isRunLength_runLength (by rw [abs_lt]; omega) (by rw [abs_lt]; omega)
  have hconstant : constant = 2 := by
    have hzero := (isPrimeAt_iff.mp (hisRun.1 0 (by omega))).1
    rw [valueAt_zero] at hzero
    omega
  subst hconstant
  have hone := (isPrimeAt_iff.mp (hisRun.1 1 (by omega))).1
  simp only [valueAt, Nat.cast_one, mul_one] at hone
  have hshorter : run ≤ 2 := hisRun.le (not_isPrimeAt_constant Nat.prime_two rfl (by omega))
  obtain rfl : run = 2 := Nat.le_antisymm hshorter hlonger
  have hle := hfirst (-1) 2 (by decide) (by decide) htwo.symm
  rw [Prod.Lex.toLex_le_toLex] at hle
  obtain rfl : linear = -1 := by omega
  exact ⟨by decide, hsmall, .initial, hrun⟩

end NumberPuzzles.QuadraticPrimes
