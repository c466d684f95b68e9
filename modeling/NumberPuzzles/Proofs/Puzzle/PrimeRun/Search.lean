import NumberPuzzles.Proofs.Progression
import NumberPuzzles.Proofs.Puzzle.PrimeRun.Sums

/-!
# The pruned search finds the longest run

For each kind of runs looked at so far, the search holds the first of the longest prime runs of
the kind.  What it passes over cannot change that: runs from a later start that are no longer
than the best one, and runs with a sum that reaches the limit.  A run that is taken is longer
than all before it, whatever was best when its start was entered.  Only runs inside the primes
that the search is given are looked at; with all primes below the limit those are all prime runs.
-/

namespace NumberPuzzles.PrimeRun

variable {limit count start position : Nat} {kind wider : Nat → Nat → Prop} {best : RunSum}

def IsPrimeRun (limit start length : Nat) : Prop :=
  (runSum start length).Prime ∧ runSum start length < limit

theorem IsPrimeRun.length_pos {length : Nat} (hrun : IsPrimeRun limit start length) :
    0 < length := by
  by_contra hempty
  obtain rfl : length = 0 := by omega
  have hprime := hrun.1
  rw [runSum_zero] at hprime
  exact Nat.not_prime_zero hprime

theorem IsPrimeRun.end_le_count {length : Nat} (hrun : IsPrimeRun limit start length) :
    start + length ≤ Nat.count Nat.Prime limit :=
  PrimeRun.end_le_count hrun.2 hrun.length_pos

/-- No prime run of the kind is longer than the best one, which has the least start of those as
long; it is empty only if there is none. -/
structure IsBestOf (limit : Nat) (kind : Nat → Nat → Prop) (best : RunSum) : Prop where
  greatest : ∀ start length, kind start length → IsPrimeRun limit start length →
    length ≤ best.length
  origin : best = ⟨0, 0⟩ ∨ ∃ start, kind start best.length ∧ IsPrimeRun limit start best.length ∧
    runSum start best.length = best.sum ∧
    ∀ other, kind other best.length → IsPrimeRun limit other best.length → start ≤ other

/-- Runs that are no longer than the best one and start no earlier change nothing. -/
theorem IsBestOf.widen (hbest : IsBestOf limit kind best)
    (hkind : ∀ start length, kind start length → wider start length)
    (hwider : ∀ start length, wider start length → IsPrimeRun limit start length →
      kind start length ∨
        length ≤ best.length ∧ ∀ earlier, kind earlier best.length → earlier ≤ start) :
    IsBestOf limit wider best where
  greatest start length hmember hrun := by
    rcases hwider start length hmember hrun with hold | ⟨hle, -⟩
    · exact hbest.greatest start length hold hrun
    · exact hle
  origin := by
    refine hbest.origin.imp_right ?_
    rintro ⟨start, hmember, hrun, hsum, hfirst⟩
    refine ⟨start, hkind start _ hmember, hrun, hsum, ?_⟩
    intro other hother hotherRun
    rcases hwider other _ hother hotherRun with hold | ⟨-, hlater⟩
    · exact hfirst other hold hotherRun
    · exact hlater start hmember

/-- What is best is determined by the kind. -/
theorem IsBestOf.unique {left right : RunSum} (hleft : IsBestOf limit kind left)
    (hright : IsBestOf limit kind right) : left = right := by
  have hnone {one other : RunSum} (hone : IsBestOf limit kind one)
      (hother : IsBestOf limit kind other) (hempty : one = ⟨0, 0⟩) : other = ⟨0, 0⟩ := by
    rcases hother.origin with hotherEmpty | ⟨start, hmember, hrun, -⟩
    · exact hotherEmpty
    · have hle := hone.greatest start _ hmember hrun
      have hpos := hrun.length_pos
      rw [hempty] at hle
      exact absurd hle (Nat.not_le.mpr hpos)
  rcases hleft.origin with hempty | ⟨start, hmember, hrun, hsum, hfirst⟩
  · rw [hempty, hnone hleft hright hempty]
  rcases hright.origin with hempty | ⟨other, hotherMember, hotherRun, hotherSum, hotherFirst⟩
  · rw [hempty, hnone hright hleft hempty]
  have hlength : left.length = right.length :=
    Nat.le_antisymm (hright.greatest start _ hmember hrun)
      (hleft.greatest other _ hotherMember hotherRun)
  rw [← hlength] at hotherMember hotherRun hotherSum hotherFirst
  have hstart : start = other :=
    Nat.le_antisymm (hfirst other hotherMember hotherRun) (hotherFirst start hmember hrun)
  subst hstart
  cases left
  cases right
  simp_all

/-! ## The runs from one start -/

/-- The runs of a kind among the first so many primes. -/
def Inside (count : Nat) (kind : Nat → Nat → Prop) (start length : Nat) : Prop :=
  start + length ≤ count ∧ kind start length

theorem Inside.mono {fewer more start length : Nat} (hle : fewer ≤ more)
    (hinside : Inside fewer kind start length) : Inside more kind start length :=
  ⟨hinside.1.trans hle, hinside.2⟩

/-- The runs from earlier starts, and those from a start that end before a position. -/
def Before (start position other length : Nat) : Prop :=
  other < start ∨ other = start ∧ start + length < position

/-- The runs from a start that are no longer than the best one need not be looked at. -/
theorem IsBestOf.enter (hbest : IsBestOf limit (Inside count fun other _ => other < start) best) :
    IsBestOf limit (Inside count (Before start (start + best.length + 1))) best := by
  refine hbest.widen (fun _ _ hmember => ⟨hmember.1, .inl hmember.2⟩) ?_
  rintro other length ⟨hinside, hearlier | ⟨rfl, hshort⟩⟩ -
  · exact .inl ⟨hinside, hearlier⟩
  · exact .inr ⟨by omega, fun earlier hearlier => hearlier.2.le⟩

/-- A run that is no prime run is passed over. -/
theorem IsBestOf.pass (hbest : IsBestOf limit (Inside count (Before start position)) best)
    (hnot : ¬ IsPrimeRun limit start (position - start)) :
    IsBestOf limit (Inside count (Before start (position + 1))) best := by
  refine hbest.widen ?_ ?_
  · rintro other length ⟨hinside, hearlier | ⟨rfl, hshort⟩⟩
    · exact ⟨hinside, .inl hearlier⟩
    · exact ⟨hinside, .inr ⟨rfl, by omega⟩⟩
  · rintro other length ⟨hinside, hearlier | ⟨rfl, hshort⟩⟩ hrun
    · exact .inl ⟨hinside, .inl hearlier⟩
    · refine .inl ⟨hinside, .inr ⟨rfl, Nat.lt_of_le_of_ne (by omega) ?_⟩⟩
      rintro rfl
      rw [Nat.add_sub_cancel_left] at hnot
      exact hnot hrun

/-- A prime run that is longer than the best one is the new best one. -/
theorem IsBestOf.take (hbest : IsBestOf limit (Inside count (Before start position)) best)
    (hlonger : start + best.length < position) (hposition : position ≤ count)
    (hrun : IsPrimeRun limit start (position - start)) :
    IsBestOf limit (Inside count (Before start (position + 1)))
      ⟨runSum start (position - start), position - start⟩ where
  greatest other length hmember hother := by
    rcases hmember with ⟨hinside, hearlier | ⟨rfl, hshort⟩⟩
    · have := hbest.greatest other length ⟨hinside, .inl hearlier⟩ hother
      simp only
      omega
    · simp only
      omega
  origin := by
    refine .inr ⟨start, ⟨by simp only; omega, .inr ⟨rfl, by simp only; omega⟩⟩, hrun, rfl, ?_⟩
    rintro other ⟨hinside, hearlier | ⟨rfl, -⟩⟩ hother
    · have := hbest.greatest other _ ⟨hinside, .inl hearlier⟩ hother
      simp only at this
      omega
    · exact Nat.le_refl other

/-- When no prime run from the start ends at the position or later, the start is done. -/
theorem IsBestOf.leave (hbest : IsBestOf limit (Inside count (Before start position)) best)
    (hlater : ∀ length, position ≤ start + length → start + length ≤ count →
      ¬ IsPrimeRun limit start length) :
    IsBestOf limit (Inside count fun other _ => other < start + 1) best := by
  refine hbest.widen ?_ ?_
  · rintro other length ⟨hinside, hearlier | ⟨rfl, -⟩⟩
    · exact ⟨hinside, Nat.lt_succ_of_lt hearlier⟩
    · exact ⟨hinside, Nat.lt_succ_self other⟩
  · rintro other length ⟨hinside, hother⟩ hrun
    rcases Nat.lt_succ_iff_lt_or_eq.mp hother with hearlier | rfl
    · exact .inl ⟨hinside, .inl hearlier⟩
    · refine .inl ⟨hinside, .inr ⟨rfl, Nat.not_le.mp ?_⟩⟩
      intro hreached
      exact hlater length hreached hinside hrun

/-- The ends from a position on are tried until the sum reaches the limit; the start is then
done, over a table of primes that is still complete. -/
theorem tryEnds_run (hlimit : limit ≤ word) {sums : Array Nat} (hsums : HoldsSums count sums)
    {positions : Nat} (hpositions : positions = count + 1 - position)
    (hlonger : start + best.length < position)
    (hbest : IsBestOf limit (Inside count (Before start position)) best) {table : PrimeTable}
    (hcomplete : table.Complete) :
    ∃ after grown,
      (tryEnds limit sums start position positions best).run.run table = (.ok after, grown) ∧
        IsBestOf limit (Inside count fun other _ => other < start + 1) after ∧
        grown.Complete := by
  induction positions generalizing position best table with
  | zero =>
      refine ⟨best, table, rfl, hbest.leave ?_, hcomplete⟩
      intro length hreached hinside
      omega
  | succ positions ih =>
      have hsum : Checked.sub (runSum 0 position) (runSum 0 start) =
          .ok (runSum start (position - start)) := by
        rw [Checked.sub, if_pos (runSum_mono 0 (by omega)), runSum_sub (by omega)]
      rw [tryEnds, hsums.read (by omega), hsums.read (by omega),
        Run.run_bind_ok (Run.run_lift _ table), Run.run_bind_ok (Run.run_lift _ table), hsum,
        Run.run_bind_ok (Run.run_lift _ table)]
      by_cases hpast : limit ≤ runSum start (position - start)
      · rw [if_pos hpast]
        refine ⟨best, table, rfl, hbest.leave ?_, hcomplete⟩
        intro length hreached _ hrun
        have hmono : runSum start (position - start) ≤ runSum start length :=
          runSum_mono start (by omega)
        have := hrun.2
        omega
      · rw [if_neg hpast]
        have hword : runSum start (position - start) < word := by omega
        obtain ⟨grown, htest, hgrown⟩ := isPrime_run hword hcomplete
        rw [Run.run_bind_ok htest]
        by_cases hprime : (runSum start (position - start)).Prime
        · have hrun : IsPrimeRun limit start (position - start) :=
            ⟨hprime, Nat.not_le.mp hpast⟩
          simp only [decide_eq_true hprime]
          exact ih (by omega) (by simp only; omega) (hbest.take hlonger (by omega) hrun) hgrown
        · simp only [decide_eq_false hprime]
          exact ih (by omega) (by omega) (hbest.pass fun hrun => hprime hrun.1) hgrown

/-! ## All starts -/

/-- The search finds the best of the runs among the primes it is given, whichever primes its
table holds at first. -/
theorem tryStarts_inside (hlimit : limit ≤ word) {sums : Array Nat}
    (hsums : HoldsSums count sums) {table : PrimeTable} (hcomplete : table.Complete) :
    ∃ best grown, (tryStarts limit sums count ⟨0, 0⟩).run.run table = (.ok best, grown) ∧
      IsBestOf limit (Inside count fun _ _ => True) best := by
  have hvisit : ∀ start ∈ List.range' 0 count 1, ∀ best table,
      IsBestOf limit (Inside count fun other _ => other < start) best ∧ table.Complete →
      ∃ next grown, (tryEnds limit sums start (start + best.length + 1)
          (count + 1 - (start + best.length + 1)) best).run.run table = (.ok next, grown) ∧
        IsBestOf limit (Inside count fun other _ => other < start + 1) next ∧
        grown.Complete := by
    rintro start - best table ⟨hbest, hcomplete⟩
    exact tryEnds_run hlimit hsums rfl (Nat.lt_succ_self _) hbest.enter hcomplete
  have hempty : IsBestOf limit (Inside count fun other _ => other < 0) ⟨0, 0⟩ :=
    ⟨fun start _ hnone _ => absurd hnone.2 start.not_lt_zero, .inl rfl⟩
  obtain ⟨best, grown, hrun, hbest, -⟩ := Progression.foldFrom_keeps hvisit ⟨hempty, hcomplete⟩
  refine ⟨best, grown, hrun, hbest.widen (fun _ _ hmember => ⟨hmember.1, trivial⟩) ?_⟩
  intro start length hmember hprime
  have hlength := hprime.length_pos
  have hinside := hmember.1
  exact .inl ⟨hinside, by omega⟩

/-- Given all primes below the limit, the search finds the best of all runs. -/
theorem tryStarts_run (hlimit : limit ≤ word) {sums : Array Nat}
    (hsums : HoldsSums (Nat.count Nat.Prime limit) sums) {table : PrimeTable}
    (hcomplete : table.Complete) :
    ∃ best grown,
      (tryStarts limit sums (Nat.count Nat.Prime limit) ⟨0, 0⟩).run.run table = (.ok best, grown) ∧
        IsBestOf limit (fun _ _ => True) best := by
  obtain ⟨best, grown, hrun, hbest⟩ := tryStarts_inside hlimit hsums hcomplete
  refine ⟨best, grown, hrun, hbest.widen (fun _ _ _ => trivial) ?_⟩
  intro start length _ hprime
  exact .inl ⟨hprime.end_le_count, trivial⟩

/-- No prime run is longer, and none as long starts with a smaller prime. -/
structure IsLongestRun (limit start length : Nat) : Prop where
  isPrimeRun : IsPrimeRun limit start length
  longest : ∀ other otherLength, IsPrimeRun limit other otherLength → otherLength ≤ length
  first : ∀ other, IsPrimeRun limit other length →
    Nat.nth Nat.Prime start ≤ Nat.nth Nat.Prime other

theorem isPrimeRun_two (hlimit : 2 < limit) : IsPrimeRun limit 0 1 := by
  have hsum : runSum 0 1 = 2 := by
    rw [runSum_succ, runSum_zero, Nat.add_zero, Nat.nth_prime_zero_eq_two]
  exact ⟨hsum ▸ Nat.prime_two, hsum ▸ hlimit⟩

theorem not_isPrimeRun (hlimit : limit ≤ 2) {length : Nat} : ¬ IsPrimeRun limit start length := by
  rintro ⟨hprime, hbelow⟩
  have := hprime.two_le
  omega

theorem IsBestOf.eq_empty (hbest : IsBestOf limit kind best) (hlimit : limit ≤ 2) :
    best = ⟨0, 0⟩ := by
  rcases hbest.origin with hempty | ⟨start, -, hrun, -⟩
  · exact hempty
  · exact absurd hrun (not_isPrimeRun hlimit)

theorem IsBestOf.isLongestRun (hbest : IsBestOf limit (fun _ _ => True) best)
    (hlimit : 2 < limit) :
    ∃ start length, best = ⟨runSum start length, length⟩ ∧ IsLongestRun limit start length := by
  have hone : 1 ≤ best.length := hbest.greatest 0 1 trivial (isPrimeRun_two hlimit)
  rcases hbest.origin with hempty | ⟨start, -, hrun, hsum, hfirst⟩
  · rw [hempty] at hone
    exact absurd hone (by decide)
  · refine ⟨start, best.length, by rw [hsum], hrun, ?_, ?_⟩
    · intro other otherLength hother
      exact hbest.greatest other otherLength trivial hother
    · intro other hother
      exact Nat.nth_monotone Nat.infinite_setOfPred_prime (hfirst other trivial hother)

/-- Below a limit that is a half word the search finds what trying all runs would: nothing up to
two, and from there on the first of the longest runs.  No sum is too large and no difference
negative, and what was asked about primes before makes no difference. -/
theorem longest_run_of_all (hlimit : limit < halfWord) :
    (limit ≤ 2 → longestRun limit = .ok ⟨0, 0⟩) ∧
    (2 < limit → ∃ start length, longestRun limit = .ok ⟨runSum start length, length⟩ ∧
      IsLongestRun limit start length) ∧
    ∃ sums, partialSums (primesBelow limit) 0 #[0] = .ok sums ∧
      ∀ memo : PrimeMemo, memo.Reachable →
        ((tryStarts limit sums (primesBelow limit).length ⟨0, 0⟩).run.run memo.inner).1 =
          longestRun limit := by
  have hword : limit ≤ word := hlimit.le.trans (by decide)
  obtain ⟨sums, hsums, hholds⟩ := partialSums_primesBelow hlimit
  have hcount := length_primesBelow limit
  obtain ⟨best, grown, hrun, hbest⟩ := tryStarts_run hword hholds PrimeTable.initial_complete
  have hfound : longestRun limit = .ok best := by
    rw [longestRun, Nat.mod_eq_of_lt hlimit]
    simp only [hsums, hcount]
    exact congrArg Prod.fst hrun
  refine ⟨?_, ?_, sums, hsums, ?_⟩
  · intro hsmall
    rw [hfound, hbest.eq_empty hsmall]
  · intro hlarge
    obtain ⟨start, length, rfl, hlongest⟩ := hbest.isLongestRun hlarge
    exact ⟨start, length, hfound, hlongest⟩
  · intro memo hreached
    obtain ⟨other, _, hotherRun, hother⟩ := tryStarts_run hword hholds hreached.sound.complete
    rw [hcount, hotherRun, hfound, hbest.unique hother]

/-- Below six the longest run is that of two and three. -/
theorem longest_run_below_six : 6 < halfWord ∧ longestRun 6 = .ok ⟨5, 2⟩ := by
  have hsmall : 6 < halfWord := by decide
  obtain ⟨start, length, hfound, hlongest⟩ := (longest_run_of_all hsmall).2.1 (by decide)
  have hpair : runSum 0 2 = 5 := by
    rw [runSum_succ, runSum_succ, runSum_zero, Nat.nth_prime_zero_eq_two,
      Nat.nth_prime_one_eq_three]
  have htwo : 2 ≤ length :=
    hlongest.longest 0 2 ⟨hpair ▸ Nat.prime_five, hpair ▸ by decide⟩
  have hthird : runSum 1 2 = 8 := by
    rw [runSum_succ, runSum_succ, runSum_zero, Nat.nth_prime_one_eq_three,
      Nat.nth_prime_two_eq_five]
  have hend := hlongest.isPrimeRun.end_le_count
  have hcount : Nat.count Nat.Prime 6 = 3 := by decide
  have hbelow := hlongest.isPrimeRun.2
  have hstart : start = 0 := by
    -- from the second prime on, two primes already add up to eight
    by_contra hlater
    obtain rfl : start = 1 := by omega
    have := runSum_mono 1 htwo
    omega
  subst hstart
  have hlength : length = 2 := by
    by_contra hlonger
    obtain rfl : length = 3 := by omega
    rw [runSum_succ, hpair, Nat.nth_prime_two_eq_five] at hbelow
    omega
  subst hlength
  rw [hpair] at hfound
  exact ⟨hsmall, hfound⟩

end NumberPuzzles.PrimeRun
