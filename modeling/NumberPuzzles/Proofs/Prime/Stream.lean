import Mathlib.Data.Nat.PrimeFin
import NumberPuzzles.Prime.Stream
import NumberPuzzles.Proofs.Prime.Trial
import NumberPuzzles.Proofs.Source

/-!
# The stream hands out the primes in order

Between requests the stream holds exactly the primes below its candidate, which is two or
odd, so trial division by what it holds decides the candidate.  A request therefore ends
on the next prime, however many composites lie before it, as long as the candidate after
that prime is a word; from there on every request meets the same fault.  The answer to the
request at a position is thus the prime at that position.
-/

namespace NumberPuzzles

namespace PrimeStream

structure Sound (stream : PrimeStream) : Prop where
  found : stream.found.toList = primesUnder stream.candidate
  trial : IsTrial stream.candidate

variable {stream : PrimeStream} {found : Array Nat} {candidate : Nat}

theorem initial_sound : initial.Sound := ⟨by decide, .inl rfl⟩

/-- The stream holds the first primes, as many as it has found. -/
theorem Sound.found_eq (hsound : stream.Sound) :
    stream.found.toList = (List.range stream.found.size).map (Nat.nth Nat.Prime) := by
  have hfirst := hsound.found.trans (primesUnder_eq_map_nth stream.candidate)
  have hsize := congrArg List.length hfirst
  rw [Array.length_toList, List.length_map, List.length_range] at hsize
  rw [hfirst, hsize]

noncomputable def upcoming (found : Array Nat) : Nat := Nat.nth Nat.Prime found.size

theorem Sound.upcoming_eq (hsound : Sound ⟨found, candidate⟩) :
    upcoming found = Nat.nth Nat.Prime (Nat.count Nat.Prime candidate) := by
  have hsize := congrArg List.length (hsound.found.trans (primesUnder_eq_map_nth candidate))
  rw [Array.length_toList, List.length_map, List.length_range] at hsize
  rw [upcoming, hsize]

theorem Sound.candidate_le (hsound : Sound ⟨found, candidate⟩) : candidate ≤ upcoming found := by
  rw [hsound.upcoming_eq]
  exact Nat.le_nth_count Nat.infinite_setOfPred_prime candidate

theorem Sound.skip (hsound : Sound ⟨found, candidate⟩) (hcomposite : ¬ candidate.Prime) :
    Sound ⟨found, nextTrial candidate⟩ where
  found := by
    rw [hsound.trial.primesUnder_nextTrial, primesUnder_succ_of_not_prime hcomposite]
    exact hsound.found
  trial := hsound.trial.nextTrial

theorem Sound.keep (hsound : Sound ⟨found, candidate⟩) (hprime : candidate.Prime) :
    Sound ⟨found.push candidate, nextTrial candidate⟩ where
  found := by
    rw [hsound.trial.primesUnder_nextTrial, primesUnder_succ_of_prime hprime,
      Array.toList_push, hsound.found]
  trial := hsound.trial.nextTrial

/-- Trial division by the primes that the stream holds decides its candidate. -/
theorem Sound.hasKnownDivisor_eq (hsound : Sound ⟨found, candidate⟩) (hword : candidate < word) :
    hasKnownDivisor found candidate = .ok (decide (¬ candidate.Prime)) := by
  have htwo := hsound.trial.two_le
  exact NumberPuzzles.hasKnownDivisor_eq hsound.found hword htwo (Nat.sqrt_lt_self htwo)

/-- A search hands out the upcoming prime, or stops with a fault if the candidate after
that prime is no word. -/
theorem search_run (hsound : Sound ⟨found, candidate⟩) :
    ∃ after, after.Sound ∧
      (nextTrial (upcoming found) < word ∧ after.found = found.push (upcoming found) ∧
          search found candidate = (.ok (some (upcoming found)), after) ∨
        word ≤ nextTrial (upcoming found) ∧ after.found = found ∧
          search found candidate = (.error .add, after)) := by
  fun_induction search found candidate with
  | case1 candidate hinside fault hfault =>
      have hword := Nat.lt_trans (lt_nextTrial candidate) hinside
      rw [hsound.hasKnownDivisor_eq hword] at hfault
      cases hfault
  | case2 candidate hinside hdivisor ih =>
      have hword := Nat.lt_trans (lt_nextTrial candidate) hinside
      rw [hsound.hasKnownDivisor_eq hword, Except.ok.injEq, decide_eq_true_eq] at hdivisor
      exact ih (hsound.skip hdivisor)
  | case3 candidate hinside hdivisor =>
      have hword := Nat.lt_trans (lt_nextTrial candidate) hinside
      rw [hsound.hasKnownDivisor_eq hword, Except.ok.injEq, decide_eq_false_iff_not,
        not_not] at hdivisor
      have hupcoming : upcoming found = candidate :=
        hsound.upcoming_eq.trans (Nat.nth_count hdivisor)
      rw [hupcoming]
      exact ⟨_, hsound.keep hdivisor, .inl ⟨hinside, rfl, rfl⟩⟩
  | case4 candidate hfull =>
      have hpast : word ≤ nextTrial (upcoming found) :=
        Nat.le_trans (Nat.not_lt.mp hfull) (nextTrial_mono hsound.candidate_le)
      exact ⟨_, hsound, .inr ⟨hpast, rfl, rfl⟩⟩

/-! ## Requests in sequence -/

/-- What a request does to the stream: it hands out the prime after those found and keeps
it, or it meets a fault and finds nothing. -/
theorem next_run (hsound : stream.Sound) :
    ∃ after, after.Sound ∧
      (nextTrial (upcoming stream.found) < word ∧
          after.found = stream.found.push (upcoming stream.found) ∧
          next.run.run stream = (.ok (some (upcoming stream.found)), after) ∨
        word ≤ nextTrial (upcoming stream.found) ∧ after.found = stream.found ∧
          next.run.run stream = (.error .add, after)) :=
  search_run hsound

/-- Each request so far has found a prime, or the stream has met its fault for good. -/
theorem after_run (requests : Nat) :
    (Source.after next requests initial).Sound ∧
      ((Source.after next requests initial).found.size = requests ∨
        (Source.after next requests initial).found.size < requests ∧
          word ≤ nextTrial (upcoming (Source.after next requests initial).found)) := by
  induction requests with
  | zero => exact ⟨initial_sound, .inl rfl⟩
  | succ requests ih =>
      obtain ⟨hsound, hfound⟩ := ih
      obtain ⟨after, hafter, hnext⟩ := next_run hsound
      rw [Source.after_succ]
      rcases hnext with ⟨hword, hpush, hrun⟩ | ⟨hpast, hsame, hrun⟩
      · rw [hrun]
        have hsize := hfound.resolve_right fun hstuck => Nat.not_lt.mpr hstuck.2 hword
        exact ⟨hafter, .inl (by rw [hpush, Array.size_push, hsize])⟩
      · rw [hrun]
        refine ⟨hafter, .inr ?_⟩
        rw [hsame]
        rcases hfound with hsize | ⟨hsize, -⟩
        · exact ⟨by omega, hpast⟩
        · exact ⟨by omega, hpast⟩

/-- The request at a position, counted from zero, hands out the prime at that position, if
the candidate after it is a word, and meets a fault otherwise. -/
theorem answerAt_initial (position : Nat) :
    Source.answerAt next position initial =
      if nextTrial (Nat.nth Nat.Prime position) < word then
        .ok (some (Nat.nth Nat.Prime position))
      else .error .add := by
  obtain ⟨hsound, hfound⟩ := after_run position
  obtain ⟨after, -, hnext⟩ := next_run hsound
  rw [Source.answerAt]
  rcases hfound with hsize | ⟨hsize, hstuck⟩
  · rw [upcoming, hsize] at hnext
    rcases hnext with ⟨hword, -, hrun⟩ | ⟨hpast, -, hrun⟩
    · rw [hrun, if_pos hword]
    · rw [hrun, if_neg (Nat.not_lt.mpr hpast)]
  · -- The fault met earlier is met again, and no later prime has a word after it either.
    have hlater : word ≤ nextTrial (Nat.nth Nat.Prime position) :=
      hstuck.trans (nextTrial_mono (Nat.nth_monotone Nat.infinite_setOfPred_prime hsize.le))
    rw [if_neg (Nat.not_lt.mpr hlater)]
    rcases hnext with ⟨hword, -, -⟩ | ⟨-, -, hrun⟩
    · exact absurd hword (Nat.not_lt.mpr hstuck)
    · rw [hrun]

theorem answerAt_eq_some_iff {position item : Nat} (hsmall : item < word - 2) :
    Source.answerAt next position initial = .ok (some item) ↔
      Nat.nth Nat.Prime position = item := by
  rw [answerAt_initial]
  split
  next => rw [Except.ok.injEq, Option.some.injEq]
  next hpast =>
    constructor
    · nofun
    · rintro rfl
      exact absurd (nextTrial_lt_word hsmall) hpast

/-- The request at a position hands out the prime at that position, if that is below the
last two words, and then the stream has found the primes up to that one.  Asked for by its
position, counted from one, it is the same prime; there is none at position zero. -/
theorem hands_out_nth_prime {position : Nat} (hsmall : Nat.nth Nat.Prime position < word - 2) :
    Source.answerAt next position initial = .ok (some (Nat.nth Nat.Prime position)) ∧
      (Source.after next (position + 1) initial).found.toList =
        (List.range (position + 1)).map (Nat.nth Nat.Prime) ∧
      nthPrime (position + 1) = .ok (some (Nat.nth Nat.Prime position)) ∧
      nthPrime 0 = .ok none := by
  have hsmaller (earlier : Nat) (hle : earlier ≤ position) :
      Nat.nth Nat.Prime earlier < word - 2 :=
    Nat.lt_of_le_of_lt (Nat.nth_monotone Nat.infinite_setOfPred_prime hle) hsmall
  have hanswer (earlier : Nat) (hle : earlier ≤ position) :
      Source.answerAt next earlier initial = .ok (some (Nat.nth Nat.Prime earlier)) :=
    (answerAt_eq_some_iff (hsmaller earlier hle)).mpr rfl
  refine ⟨hanswer position le_rfl, ?_, ?_, rfl⟩
  · obtain ⟨hsound, hsize | ⟨hsize, hstuck⟩⟩ := after_run (position + 1)
    · rw [hsound.found_eq, hsize]
    · have hword := nextTrial_lt_word (hsmaller _ (Nat.le_of_lt_succ hsize))
      exact absurd hword (Nat.not_lt.mpr hstuck)
  · have hitems : ∀ earlier < position, ∃ item,
        Source.answerAt next earlier initial = .ok (some item) :=
      fun earlier hearlier => ⟨_, hanswer earlier hearlier.le⟩
    rw [nthPrime, Source.nth_run hitems]
    exact hanswer position le_rfl

/-- The 26th prime is 101, behind a run of composites of which 91 has no divisor below seven. -/
theorem hands_out_twenty_sixth_prime :
    Nat.nth Nat.Prime 25 < word - 2 ∧ nthPrime 26 = .ok (some 101) ∧
      Source.answerAt next 25 initial = .ok (some 101) := by
  have hcount : Nat.count Nat.Prime 101 = 25 := by decide +kernel
  have hprime : Nat.nth Nat.Prime 25 = 101 := by
    rw [← hcount]
    exact Nat.nth_count (by decide +kernel)
  have hsmall : Nat.nth Nat.Prime 25 < word - 2 := by
    rw [hprime]
    decide
  have hanswers := hands_out_nth_prime hsmall
  rw [hprime] at hanswers
  exact ⟨hsmall, hanswers.2.2.1, hanswers.1⟩

end PrimeStream

end NumberPuzzles
