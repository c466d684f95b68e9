import NumberPuzzles.Proofs.Puzzle.PrimeRun.Search

/-!
# Longest runs below growing limits

The search is given the primes below the remainder of the limit by the number of half words, and
finds the best of their runs below the limit itself.  A larger limit whose remainder is no smaller
therefore keeps every run.  Just past each multiple of that number there are no primes to look at,
and all runs are lost.
-/

namespace NumberPuzzles.PrimeRun

variable {limit larger : Nat} {kind wider : Nat → Nat → Prop} {best : RunSum}

theorem IsPrimeRun.mono {start length : Nat} (hrun : IsPrimeRun limit start length)
    (hle : limit ≤ larger) : IsPrimeRun larger start length :=
  ⟨hrun.1, hrun.2.trans_le hle⟩

/-- A larger limit and more runs to choose from never make the best run shorter. -/
theorem IsBestOf.length_le {longer : RunSum} (hbest : IsBestOf limit kind best)
    (hlonger : IsBestOf larger wider longer) (hle : limit ≤ larger)
    (hkind : ∀ start length, kind start length → wider start length) :
    best.length ≤ longer.length := by
  rcases hbest.origin with hempty | ⟨start, hmember, hrun, -⟩
  · rw [hempty]
    exact Nat.zero_le longer.length
  · exact hlonger.greatest start best.length (hkind start _ hmember) (hrun.mono hle)

/-- Below any limit the search finds the best run of the primes below the remainder. -/
theorem longestRun_inside (hlimit : limit < word) :
    ∃ best, longestRun limit = .ok best ∧
      IsBestOf limit (Inside (Nat.count Nat.Prime (limit % halfWord)) fun _ _ => True) best := by
  have hremainder : limit % halfWord < halfWord := Nat.mod_lt limit (by decide)
  obtain ⟨sums, hsums, hholds⟩ := partialSums_primesBelow hremainder
  obtain ⟨best, grown, hrun, hbest⟩ :=
    tryStarts_inside hlimit.le hholds PrimeTable.initial_complete
  refine ⟨best, ?_, hbest⟩
  simp only [longestRun, hsums, length_primesBelow]
  exact congrArg Prod.fst hrun

/-- There are no primes below two, so a remainder up to two leaves nothing to choose from. -/
theorem length_eq_zero_of_mod (hmod : limit % halfWord ≤ 2)
    (hbest : IsBestOf limit (Inside (Nat.count Nat.Prime (limit % halfWord)) kind) best) :
    best.length = 0 := by
  have hcount : Nat.count Nat.Prime (limit % halfWord) ≤ 0 :=
    calc Nat.count Nat.Prime (limit % halfWord)
      _ ≤ Nat.count Nat.Prime 2 := Nat.count_monotone Nat.Prime hmod
      _ = 0 := by decide
  rcases hbest.origin with hempty | ⟨start, hmember, -⟩
  · rw [hempty]
  · exact Nat.eq_zero_of_le_zero ((Nat.le_add_left _ start).trans (hmember.1.trans hcount))

/-- The run of the prime two alone is there as soon as the remainder is past it. -/
theorem length_pos_of_mod (hmod : 2 < limit % halfWord)
    (hbest : IsBestOf limit (Inside (Nat.count Nat.Prime (limit % halfWord)) fun _ _ => True)
      best) : 0 < best.length := by
  have hcount : 1 ≤ Nat.count Nat.Prime (limit % halfWord) :=
    calc 1
      _ = Nat.count Nat.Prime 3 := by decide
      _ ≤ Nat.count Nat.Prime (limit % halfWord) := Nat.count_monotone Nat.Prime hmod
  exact hbest.greatest 0 1 ⟨hcount, trivial⟩
    (isPrimeRun_two (hmod.trans_le (Nat.mod_le limit halfWord)))

/-- Raising the limit never makes the longest run shorter as long as the remainder of the limit
does not fall.  Where it falls to two or less, whatever run there was is lost. -/
theorem length_follows_remainder {lower upper : Nat} (hle : lower ≤ upper)
    (hupper : upper < word) :
    ∃ left right, longestRun lower = .ok left ∧ longestRun upper = .ok right ∧
      (lower % halfWord ≤ upper % halfWord → left.length ≤ right.length) ∧
      (2 < lower % halfWord → upper % halfWord ≤ 2 → right.length < left.length) := by
  obtain ⟨left, hleft, hleftBest⟩ := longestRun_inside (hle.trans_lt hupper)
  obtain ⟨right, hright, hrightBest⟩ := longestRun_inside hupper
  refine ⟨left, right, hleft, hright, ?_, ?_⟩
  · intro hmod
    have hcount := Nat.count_monotone Nat.Prime hmod
    exact hleftBest.length_le hrightBest hle fun _ _ hinside => hinside.mono hcount
  · intro hlarge hsmall
    rw [length_eq_zero_of_mod hsmall hrightBest]
    exact length_pos_of_mod hlarge hleftBest

/-- Of the limits six and the greatest word the second one has the larger remainder. -/
theorem length_follows_remainder_of_greatest_word :
    6 ≤ word - 1 ∧ word - 1 < word ∧
      ∃ left right, longestRun 6 = .ok left ∧ longestRun (word - 1) = .ok right ∧
        left.length ≤ right.length := by
  obtain ⟨left, right, hleft, hright, hkept, -⟩ :=
    length_follows_remainder (show 6 ≤ word - 1 by decide) (by decide)
  exact ⟨by decide, by decide, left, right, hleft, hright, hkept (by decide)⟩

/-- At the number of half words itself the run of two and three is lost. -/
theorem no_run_below_half_words :
    6 ≤ halfWord ∧ halfWord < word ∧
      longestRun 6 = .ok ⟨5, 2⟩ ∧ longestRun halfWord = .ok ⟨0, 0⟩ := by
  decide +kernel

end NumberPuzzles.PrimeRun
