import Mathlib.Tactic.Ring
import NumberPuzzles.Proofs.Checked
import NumberPuzzles.Proofs.Source
import NumberPuzzles.Proofs.SquareRoot
import NumberPuzzles.Sequence.Figurate

/-!
# The tests for triangle and pentagonal numbers, and their streams

Eight times the triangle number of an index, and one, is the square of the odd number after
twice the index.  Twenty-four times the pentagonal number of an index, and one, is the square of
the number before six times the index.  So the square root tells both kinds from the others, and
for a machine word it stays far inside the double words.  Each stream sums the differences of
its sequence, so it hands out the terms in order as long as they are words.
-/

namespace NumberPuzzles

/-- The number is the sum of all numbers from one to some index. -/
def IsTriangle (number : Nat) : Prop := ∃ index, 1 ≤ index ∧ index * (index + 1) / 2 = number

theorem two_mul_triangle (index : Nat) : 2 * (index * (index + 1) / 2) = index * (index + 1) :=
  Nat.mul_div_cancel' (Nat.even_mul_succ_self index).two_dvd

/-- Only an odd square is one more than a multiple of eight, and it is that of the odd number
after twice an index. -/
theorem isTriangle_iff_square {number : Nat} (hpositive : 0 < number) :
    IsTriangle number ↔ ∃ root, root * root = 8 * number + 1 := by
  constructor
  · rintro ⟨index, -, rfl⟩
    refine ⟨2 * index + 1, ?_⟩
    calc (2 * index + 1) * (2 * index + 1) = 4 * (index * (index + 1)) + 1 := by ring
      _ = 4 * (2 * (index * (index + 1) / 2)) + 1 := by rw [two_mul_triangle]
      _ = 8 * (index * (index + 1) / 2) + 1 := by ring
  · rintro ⟨root, hroot⟩
    have hodd : Odd (root * root) := ⟨4 * number, by omega⟩
    obtain ⟨index, rfl⟩ := (Nat.odd_mul.mp hodd).1
    have hdouble : index * (index + 1) = 2 * number := by
      have hsquare : (2 * index + 1) * (2 * index + 1) = 4 * (index * (index + 1)) + 1 := by ring
      omega
    refine ⟨index, ?_, by omega⟩
    rcases Nat.eq_zero_or_pos index with rfl | hindex
    · omega
    · exact hindex

instance : DecidablePred IsTriangle := fun number =>
  decidable_of_iff (0 < number ∧ Nat.sqrt (8 * number + 1) * Nat.sqrt (8 * number + 1) =
      8 * number + 1) <| by
    rw [← Nat.exists_mul_self]
    constructor
    · rintro ⟨hpositive, hsquare⟩
      exact (isTriangle_iff_square hpositive).mpr hsquare
    · rintro ⟨index, hindex, rfl⟩
      have hpositive : 0 < index * (index + 1) / 2 := by
        have hproduct : 1 * (1 + 1) ≤ index * (index + 1) := Nat.mul_le_mul hindex (by omega)
        omega
      exact ⟨hpositive, (isTriangle_iff_square hpositive).mp ⟨index, hindex, rfl⟩⟩

/-- A multiple of a machine word by a small factor, and one, is computed in double words, with a
root that is far inside them. -/
theorem scaled_eq {scale number : Nat} (hscale : scale ≤ 24) (hword : number < word) :
    Checked.mul doubleWord scale number = .ok (scale * number) ∧
      Checked.add doubleWord (scale * number) 1 = .ok (scale * number + 1) ∧
      scale * number + 1 < 2 ^ 126 := by
  have hlimit : 24 * word + 1 < 2 ^ 126 := by decide
  have hdouble : 24 * word + 1 < doubleWord := by decide
  have hscaled : scale * number ≤ 24 * word := Nat.mul_le_mul hscale hword.le
  exact ⟨if_pos (by omega), if_pos (by omega), by omega⟩

/-- The test answers for every machine word, and tells whether it is a triangle number. -/
theorem isTriangleNumber_eq {number : Nat} (hword : number < word) :
    isTriangleNumber number = .ok (decide (IsTriangle number)) := by
  rcases Nat.eq_zero_or_pos number with rfl | hpositive
  · rfl
  · obtain ⟨hmul, hadd, hlimit⟩ := scaled_eq (show 8 ≤ 24 by decide) hword
    simp only [isTriangleNumber, if_neg hpositive.ne', hmul, hadd, exactRoot?_eq hlimit, Checked.bind_ok, Checked.pure_eq]
    congr 1
    rw [Bool.eq_iff_iff, decide_eq_true_eq, isTriangle_iff_square hpositive,
      Nat.exists_mul_self]
    split <;> simp_all

/-! ## Pentagonal numbers -/

def IsPentagonal (number : Nat) : Prop :=
  ∃ index, 1 ≤ index ∧ index * (3 * index - 1) / 2 = number

theorem two_mul_pentagonal (index : Nat) :
    2 * (index * (3 * index - 1) / 2) = index * (3 * index - 1) := by
  apply Nat.mul_div_cancel'
  rcases Nat.even_or_odd' index with ⟨half, rfl | rfl⟩
  · exact Dvd.dvd.mul_right (Nat.dvd_mul_right 2 half) _
  · exact Dvd.dvd.mul_left ⟨3 * half + 1, by omega⟩ _

/-- A root that leaves five on division by six is the number before six times an index. -/
theorem isPentagonal_iff_square {number : Nat} (hpositive : 0 < number) :
    IsPentagonal number ↔ ∃ root, root * root = 24 * number + 1 ∧ root % 6 = 5 := by
  constructor
  · rintro ⟨index, hindex, rfl⟩
    obtain ⟨before, rfl⟩ := Nat.exists_eq_add_of_le' hindex
    have hdouble := two_mul_pentagonal (before + 1)
    have hfactor : 3 * (before + 1) - 1 = 3 * before + 2 := by omega
    rw [hfactor] at hdouble ⊢
    refine ⟨6 * before + 5, ?_, by omega⟩
    calc (6 * before + 5) * (6 * before + 5)
        = 12 * ((before + 1) * (3 * before + 2)) + 1 := by ring
      _ = 12 * (2 * ((before + 1) * (3 * before + 2) / 2)) + 1 := by rw [hdouble]
      _ = 24 * ((before + 1) * (3 * before + 2) / 2) + 1 := by ring
  · rintro ⟨root, hroot, hremainder⟩
    obtain ⟨before, rfl⟩ : ∃ before, root = 6 * before + 5 := ⟨root / 6, by omega⟩
    have hdouble : (before + 1) * (3 * before + 2) = 2 * number := by
      have hsquare : (6 * before + 5) * (6 * before + 5) =
          12 * ((before + 1) * (3 * before + 2)) + 1 := by ring
      omega
    have hfactor : 3 * (before + 1) - 1 = 3 * before + 2 := by omega
    exact ⟨before + 1, by omega, by rw [hfactor]; omega⟩

theorem isPentagonal_iff_sqrt {number : Nat} (hpositive : 0 < number) :
    IsPentagonal number ↔ Nat.sqrt (24 * number + 1) * Nat.sqrt (24 * number + 1) =
      24 * number + 1 ∧ Nat.sqrt (24 * number + 1) % 6 = 5 := by
  rw [isPentagonal_iff_square hpositive]
  constructor
  · rintro ⟨root, hroot, hremainder⟩
    rw [← hroot, Nat.sqrt_eq]
    exact ⟨rfl, hremainder⟩
  · intro hsquare
    exact ⟨_, hsquare⟩

theorem IsPentagonal.pos {number : Nat} (hpentagonal : IsPentagonal number) : 0 < number := by
  obtain ⟨index, hindex, rfl⟩ := hpentagonal
  have hproduct : 1 * 2 ≤ index * (3 * index - 1) := Nat.mul_le_mul hindex (by omega)
  omega

instance : DecidablePred IsPentagonal := fun number =>
  decidable_of_iff (0 < number ∧ Nat.sqrt (24 * number + 1) * Nat.sqrt (24 * number + 1) =
      24 * number + 1 ∧ Nat.sqrt (24 * number + 1) % 6 = 5) <| by
    constructor
    · intro hsquare
      exact (isPentagonal_iff_sqrt hsquare.1).mpr hsquare.2
    · intro hpentagonal
      exact ⟨hpentagonal.pos, (isPentagonal_iff_sqrt hpentagonal.pos).mp hpentagonal⟩

/-- The test answers for every machine word, and tells whether it is a pentagonal number. -/
theorem isPentagonal_eq {number : Nat} (hword : number < word) :
    isPentagonal number = .ok (decide (IsPentagonal number)) := by
  rcases Nat.eq_zero_or_pos number with rfl | hpositive
  · rfl
  · obtain ⟨hmul, hadd, hlimit⟩ := scaled_eq (show 24 ≤ 24 from le_rfl) hword
    simp only [isPentagonal, if_neg hpositive.ne', hmul, hadd, exactRoot?_eq hlimit, Checked.bind_ok, Checked.pure_eq]
    by_cases hsquare : Nat.sqrt (24 * number + 1) * Nat.sqrt (24 * number + 1) = 24 * number + 1
    · simp only [isPentagonal_iff_sqrt hpositive, hsquare, true_and, reduceIte]
    · simp only [isPentagonal_iff_sqrt hpositive, hsquare, false_and, decide_false, reduceIte]

/-! ## The streams -/

namespace Figurate

open Source (answerAt after)

variable {difference : Nat → Checked Nat} {term : Nat → Nat} {index : Nat}

/-- A request moves the index on and hands out the next sum, if that is a word. -/
theorem nextBy_run {figurate : Figurate} {gap : Nat} (hindex : figurate.index + 1 < word)
    (hgap : difference (figurate.index + 1) = .ok gap) :
    (nextBy difference).run.run figurate =
      if figurate.value + gap < word then
        (.ok (some (figurate.value + gap)), ⟨figurate.index + 1, figurate.value + gap⟩)
      else (.error .add, ⟨figurate.index + 1, figurate.value⟩) := by
  have hmoved : Checked.add word figurate.index 1 = .ok (figurate.index + 1) := if_pos hindex
  rw [nextBy, Run.run_bind_ok (Run.run_get figurate), hmoved,
    Run.run_bind_ok (Run.run_lift _ figurate),
    Run.run_bind_ok (Run.run_modify _ figurate), Run.run_bind_ok (Run.run_get _),
    hgap, Run.run_bind_ok (Run.run_lift _ _), Checked.add]
  split
  · rfl
  · rfl

/-- The terms are the sums of the differences, of which each one up to the first term that is no
word is found without a fault. -/
structure SumsTo (difference : Nat → Checked Nat) (term : Nat → Nat) : Prop where
  zero : term 0 = 0
  monotone : Monotone term
  index_lt : ∀ index, term index < word → index + 1 < word
  difference_eq : ∀ index, term index < word →
    difference (index + 1) = .ok (term (index + 1) - term index)

namespace SumsTo

/-- From the state of a term, a request hands out the next one if that is a word. -/
theorem next_run (hsums : SumsTo difference term) (hword : term index < word) :
    (nextBy difference).run.run ⟨index, term index⟩ =
      if term (index + 1) < word then
        (.ok (some (term (index + 1))), ⟨index + 1, term (index + 1)⟩)
      else (.error .add, ⟨index + 1, term index⟩) := by
  have hsum : term index + (term (index + 1) - term index) = term (index + 1) :=
    Nat.add_sub_cancel' (hsums.monotone (Nat.le_succ index))
  rw [nextBy_run (hsums.index_lt index hword) (hsums.difference_eq index hword), hsum]

/-- As long as the terms are words, the requests lead from each to the next. -/
theorem after_eq (hsums : SumsTo difference term) (hword : term index < word) :
    after (nextBy difference) index initial = ⟨index, term index⟩ := by
  induction index with
  | zero => rw [hsums.zero]; rfl
  | succ index ih =>
      have hbefore : term index < word := (hsums.monotone (Nat.le_succ index)).trans_lt hword
      rw [Source.after_succ, ih hbefore, hsums.next_run hbefore, if_pos hword]

theorem answerAt_eq (hsums : SumsTo difference term) (hword : term index < word) :
    answerAt (nextBy difference) index initial =
      if term (index + 1) < word then .ok (some (term (index + 1))) else .error .add := by
  rw [answerAt, hsums.after_eq hword, hsums.next_run hword]
  split
  · rfl
  · rfl

/-- What is handed out before the first failure are the terms from the first one on, as far as
they are words. -/
theorem yields_iff (hsums : SumsTo difference term) {item : Nat} :
    Source.Yields (nextBy difference) initial item ↔
      item < word ∧ ∃ index, 1 ≤ index ∧ term index = item := by
  constructor
  · rintro ⟨position, hearlier, hitem⟩
    -- A term past the words would have stopped the requests before it was reached.
    have hwords : ∀ index ≤ position + 1, term index < word := by
      intro index hindex
      induction index with
      | zero => rw [hsums.zero]; decide
      | succ index ih =>
          have hbefore := ih (by omega)
          by_contra hpast
          have hanswer := hsums.answerAt_eq hbefore
          rw [if_neg hpast] at hanswer
          rcases Nat.lt_or_eq_of_le (Nat.le_of_succ_le_succ hindex) with hless | rfl
          · obtain ⟨other, hother⟩ := hearlier index hless
            rw [hother] at hanswer
            cases hanswer
          · rw [hitem] at hanswer
            cases hanswer
    have hterm := hwords (position + 1) le_rfl
    rw [hsums.answerAt_eq (hwords position (Nat.le_succ position)), if_pos hterm] at hitem
    cases hitem
    exact ⟨hterm, position + 1, by omega, rfl⟩
  · rintro ⟨hword, index, hindex, rfl⟩
    obtain ⟨position, rfl⟩ := Nat.exists_eq_add_of_le' hindex
    have hanswers : ∀ earlier ≤ position, answerAt (nextBy difference) earlier initial =
        .ok (some (term (earlier + 1))) := by
      intro earlier hearlier
      have hnext : term (earlier + 1) < word :=
        (hsums.monotone (by omega : earlier + 1 ≤ position + 1)).trans_lt hword
      rw [hsums.answerAt_eq ((hsums.monotone (Nat.le_succ earlier)).trans_lt hnext), if_pos hnext]
    exact ⟨position, fun earlier hearlier => ⟨_, hanswers earlier hearlier.le⟩,
      hanswers position le_rfl⟩

/-- Both sequences pass the words before the index `2 ^ 33`, so up to there the differences and
the indices are small. -/
theorem of_gaps (gap : Nat → Nat) (hzero : term 0 = 0)
    (hsucc : ∀ index, term (index + 1) = term index + gap index)
    (hpast : word ≤ term (2 ^ 33))
    (hgap : ∀ index < 2 ^ 33, difference (index + 1) = .ok (gap index)) :
    SumsTo difference term := by
  have hmonotone : Monotone term := by
    apply monotone_nat_of_le_succ
    intro index
    rw [hsucc]
    exact Nat.le_add_right _ _
  have hsmall : ∀ index, term index < word → index < 2 ^ 33 := by
    intro index hword
    exact Nat.not_le.mp fun hlarge => hword.not_ge (hpast.trans (hmonotone hlarge))
  have hwords : 2 ^ 33 + 1 < word := by decide
  refine ⟨hzero, hmonotone, ?_, ?_⟩
  · intro index hword
    have := hsmall index hword
    omega
  · intro index hword
    rw [hgap index (hsmall index hword), hsucc, Nat.add_sub_cancel_left]

end SumsTo

theorem triangle_succ (index : Nat) :
    (index + 1) * (index + 1 + 1) / 2 = index * (index + 1) / 2 + (index + 1) := by
  have hnext := two_mul_triangle (index + 1)
  have hhere := two_mul_triangle index
  have hproduct : (index + 1) * (index + 1 + 1) = index * (index + 1) + 2 * (index + 1) := by ring
  omega

theorem pentagonal_succ (index : Nat) :
    (index + 1) * (3 * (index + 1) - 1) / 2 =
      index * (3 * index - 1) / 2 + (3 * (index + 1) - 2) := by
  have hnext := two_mul_pentagonal (index + 1)
  have hhere := two_mul_pentagonal index
  have hproduct : (index + 1) * (3 * (index + 1) - 1) =
      index * (3 * index - 1) + 2 * (3 * (index + 1) - 2) := by
    rcases Nat.eq_zero_or_pos index with rfl | hpositive
    · rfl
    · obtain ⟨before, rfl⟩ := Nat.exists_eq_add_of_le' hpositive
      have hfirst : 3 * (before + 1 + 1) - 1 = 3 * before + 5 := by omega
      have hsecond : 3 * (before + 1) - 1 = 3 * before + 2 := by omega
      have hthird : 3 * (before + 1 + 1) - 2 = 3 * before + 4 := by omega
      rw [hfirst, hsecond, hthird]
      ring
  omega

theorem sumsTo_triangles :
    SumsTo (fun index => pure index) fun index => index * (index + 1) / 2 :=
  .of_gaps (fun index => index + 1) rfl triangle_succ (by decide) fun _ _ => rfl

theorem sumsTo_pentagonals :
    SumsTo pentagonalDifference fun index => index * (3 * index - 1) / 2 := by
  refine .of_gaps (fun index => 3 * (index + 1) - 2) rfl pentagonal_succ (by decide) ?_
  intro index hindex
  have hwords : 3 * (2 ^ 33 + 1) < word := by decide
  have hmul : Checked.mul word 3 (index + 1) = .ok (3 * (index + 1)) := if_pos (by omega)
  have hsub : Checked.sub (3 * (index + 1)) 2 = .ok (3 * (index + 1) - 2) := if_pos (by omega)
  rw [pentagonalDifference, Checked.bind_of_ok hmul, hsub]

end Figurate

/-! ## Tests and streams -/

/-- For every machine word, both tests answer, and they say yes exactly to the numbers that the
streams hand out before they overflow, which are the triangle and the pentagonal numbers.  The
roots behind the tests are exact: from every estimate that is a word, the search ends without a
fault and finds the root of a perfect square and nothing else. -/
theorem tests_accept_streamed_numbers {number : Nat} (hword : number < word) :
    (∃ answer, isTriangleNumber number = .ok answer ∧
      (answer = true ↔ Source.Yields Figurate.nextTriangle Figurate.initial number) ∧
      (answer = true ↔ ∃ index, 1 ≤ index ∧ index * (index + 1) / 2 = number)) ∧
    (∃ answer, isPentagonal number = .ok answer ∧
      (answer = true ↔ Source.Yields Figurate.nextPentagonal Figurate.initial number) ∧
      (answer = true ↔ ∃ index, 1 ≤ index ∧ index * (3 * index - 1) / 2 = number)) ∧
    ∀ scale ∈ [8, 24], ∃ answer, exactRoot? (scale * number + 1) = .ok answer ∧
      (∀ estimate < word, exactRootFrom? (scale * number + 1) estimate = .ok answer) ∧
      ∀ root, answer = some root ↔ root * root = scale * number + 1 := by
  refine ⟨⟨_, isTriangleNumber_eq hword, ?_, ?_⟩, ⟨_, isPentagonal_eq hword, ?_, ?_⟩, ?_⟩
  · rw [decide_eq_true_eq, Figurate.nextTriangle, Figurate.sumsTo_triangles.yields_iff]
    exact (and_iff_right hword).symm
  · exact decide_eq_true_iff
  · rw [decide_eq_true_eq, Figurate.nextPentagonal, Figurate.sumsTo_pentagonals.yields_iff]
    exact (and_iff_right hword).symm
  · exact decide_eq_true_iff
  · intro scale hscale
    have hle : scale ≤ 24 := by
      simp only [List.mem_cons, List.not_mem_nil, or_false] at hscale
      omega
    have hlimit := (scaled_eq hle hword).2.2
    refine ⟨_, exactRoot?_eq hlimit, fun estimate => exactRootFrom?_eq hlimit, ?_⟩
    intro root
    exact perfectRoot_eq_some_iff

/-- A word that is a number of both kinds, past the half words. -/
theorem tests_accept_streamed_numbers_of_both_kinds :
    2172315626468283465 < word ∧
      (isTriangleNumber 2172315626468283465 = .ok true ∧
        Source.Yields Figurate.nextTriangle Figurate.initial 2172315626468283465) ∧
      isPentagonal 2172315626468283465 = .ok true ∧
        Source.Yields Figurate.nextPentagonal Figurate.initial 2172315626468283465 := by
  have hword : 2172315626468283465 < word := by decide
  obtain ⟨⟨triangle, htriangle, hyieldsTriangle, htriangular⟩,
    ⟨pentagonal, hpentagonal, hyieldsPentagonal, hfivefold⟩, -⟩ :=
    tests_accept_streamed_numbers hword
  have hfirst : triangle = true := htriangular.mpr ⟨2084377905, by decide⟩
  have hsecond : pentagonal = true := hfivefold.mpr ⟨1203416145, by decide⟩
  subst hfirst hsecond
  exact ⟨hword, ⟨htriangle, hyieldsTriangle.mp rfl⟩, hpentagonal, hyieldsPentagonal.mp rfl⟩

end NumberPuzzles
