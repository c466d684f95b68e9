import NumberPuzzles.Proofs.Divisor
import NumberPuzzles.Puzzle.AbundantSum

/-!
# The table of sums

The sums of one number with ascending others ascend too, so once one is past the table all
later ones are.  What is marked is therefore every sum that the table has a place for, and no
position outside the table is ever written; sums of two half words are machine words.  The
numbers that stay unmarked are added up, and for a half word as the limit their sum is a
machine word too.
-/

namespace NumberPuzzles.AbundantSum

def IsAbundantSum (number : Nat) : Prop :=
  ∃ left right : Nat, left.Abundant ∧ right.Abundant ∧ left + right = number

instance : DecidablePred IsAbundantSum := fun number =>
  decidable_of_iff (∃ left ∈ List.range (number + 1),
      left.Abundant ∧ (number - left).Abundant) <| by
    constructor
    · rintro ⟨left, hleft, habundant, hother⟩
      have hle := List.mem_range.mp hleft
      exact ⟨left, number - left, habundant, hother, by omega⟩
    · rintro ⟨left, right, habundant, hother, rfl⟩
      refine ⟨left, List.mem_range.mpr (by omega), habundant, ?_⟩
      rwa [Nat.add_sub_cancel_left]

variable {limit : Nat} {marks : Array Bool}

/-! ## Marking -/

/-- The table after has a place for each number up to the limit, and its marks are those of the
table before and the given sums. -/
structure Marks (limit : Nat) (sums : Nat → Prop) (before after : Array Bool) : Prop where
  size_eq : after.size = limit + 1
  marked : ∀ number ≤ limit,
    after[number]? = some true ↔ before[number]? = some true ∨ sums number

theorem markSums_run {left : Nat} {others : List Nat} (hascending : others.Pairwise (· < ·))
    (hwords : ∀ right ∈ others, left + right < word) (hsize : marks.size = limit + 1) :
    ∃ after, markSums limit left others marks = .ok after ∧
      Marks limit (fun number => ∃ right ∈ others, left + right = number) marks after := by
  induction others generalizing marks with
  | nil => exact ⟨marks, rfl, hsize, by simp⟩
  | cons right others ih =>
      obtain ⟨hfirst, hlater⟩ := List.pairwise_cons.mp hascending
      obtain ⟨hword, hwordsLater⟩ := List.forall_mem_cons.mp hwords
      have hadd : Checked.add word left right = .ok (left + right) := if_pos hword
      rw [markSums, Checked.bind_of_ok hadd]
      by_cases hpast : limit < left + right
      · rw [if_pos hpast]
        refine ⟨marks, rfl, hsize, ?_⟩
        intro number hnumber
        refine (or_iff_left ?_).symm
        -- No later sum is smaller than the one that is past the table.
        rintro ⟨other, hother, rfl⟩
        rcases List.mem_cons.mp hother with rfl | hother
        · omega
        · have := hfirst other hother
          omega
      · have hinside : left + right < marks.size := by omega
        have hwrite : Checked.write marks (left + right) true =
            .ok (marks.set (left + right) true hinside) := dif_pos hinside
        rw [if_neg hpast, Checked.bind_of_ok hwrite]
        have hset : (marks.set (left + right) true hinside).size = limit + 1 := by
          rw [Array.size_set, hsize]
        obtain ⟨after, hrun, hmarks⟩ := ih hlater hwordsLater hset
        refine ⟨after, hrun, hmarks.size_eq, ?_⟩
        intro number hnumber
        rw [hmarks.marked number hnumber, Array.getElem?_set]
        by_cases hsame : left + right = number
        · simp [hsame]
        · simp [hsame]

/-- Every two numbers of an ascending list are met, the smaller one first. -/
theorem markPairs_run {numbers : List Nat} (hascending : numbers.Pairwise (· < ·))
    (hhalves : ∀ number ∈ numbers, number < halfWord) (hsize : marks.size = limit + 1) :
    ∃ after, markPairs limit numbers marks = .ok after ∧
      Marks limit (fun number => ∃ left ∈ numbers, ∃ right ∈ numbers, left + right = number)
        marks after := by
  induction numbers generalizing marks with
  | nil => exact ⟨marks, rfl, hsize, by simp⟩
  | cons first numbers ih =>
      have hwords : ∀ right ∈ first :: numbers, first + right < word := by
        intro right hright
        have hdouble : halfWord + halfWord < word := by decide
        have := hhalves first List.mem_cons_self
        have := hhalves right hright
        omega
      obtain ⟨middle, hfirst, hmiddle⟩ := markSums_run hascending hwords hsize
      obtain ⟨after, hrest, hafter⟩ := ih (List.pairwise_cons.mp hascending).2
        (List.forall_mem_cons.mp hhalves).2 hmiddle.size_eq
      refine ⟨after, ?_, hafter.size_eq, ?_⟩
      · rw [markPairs, hfirst]
        exact hrest
      · intro number hnumber
        rw [hafter.marked number hnumber, hmiddle.marked number hnumber, or_assoc]
        refine or_congr_right ?_
        constructor
        · rintro (⟨right, hright, hsum⟩ | ⟨left, hleft, right, hright, hsum⟩)
          · exact ⟨first, List.mem_cons_self, right, hright, hsum⟩
          · exact ⟨left, List.mem_cons_of_mem _ hleft, right, List.mem_cons_of_mem _ hright, hsum⟩
        · rintro ⟨left, hleft, right, hright, hsum⟩
          rcases List.mem_cons.mp hleft with rfl | hleftRest
          · exact .inl ⟨right, hright, hsum⟩
          · rcases List.mem_cons.mp hright with rfl | hrightRest
            · exact .inl ⟨left, hleft, by rw [Nat.add_comm, hsum]⟩
            · exact .inr ⟨left, hleftRest, right, hrightRest, hsum⟩

/-! ## The table of a limit -/

theorem abundantUpTo_eq (hlimit : limit < halfWord) :
    abundantUpTo limit =
      .ok ((Progression.inclusive 1 limit).toList.filter fun number => number.Abundant) := by
  refine Progression.filterM_pure ?_
  intro number hnumber
  rw [Progression.mem_toList_inclusive] at hnumber
  exact isAbundant_eq (by omega)

/-- The table tells for each number up to the limit whether it is a sum of two abundant
numbers. -/
theorem abundantSums_run (hlimit : limit < halfWord) :
    ∃ marks, abundantSums limit = .ok marks ∧ marks.size = limit + 1 ∧
      ∀ number ≤ limit, marks[number]? = some (decide (IsAbundantSum number)) := by
  have hwider : halfWord + 1 < word := by decide
  have hheld : halfWord + 1 < tableBytes := by decide
  have hsize : Checked.add word limit 1 = .ok (limit + 1) := if_pos (by omega)
  have htable : Checked.table 1 (limit + 1) false = .ok (Array.replicate (limit + 1) false) :=
    if_pos (by omega)
  have hascending : ((Progression.inclusive 1 limit).toList.filter
      fun number => number.Abundant).Pairwise (· < ·) :=
    (Progression.pairwise_toList Nat.one_pos).filter _
  have hhalves : ∀ number ∈ (Progression.inclusive 1 limit).toList.filter
      fun number => number.Abundant, number < halfWord := by
    intro number hnumber
    have hinside := Progression.mem_toList_inclusive.mp (List.mem_of_mem_filter hnumber)
    omega
  obtain ⟨marks, hrun, hmarks⟩ := markPairs_run hascending hhalves
    (Array.size_replicate (n := limit + 1) (v := false))
  refine ⟨marks, ?_, hmarks.size_eq, ?_⟩
  · simp only [abundantSums, abundantUpTo_eq hlimit, hsize, htable, Checked.bind_ok]
    exact hrun
  · intro number hnumber
    have hinside : number < marks.size := by
      have := hmarks.size_eq
      omega
    have hmarked : marks[number]? = some true ↔ IsAbundantSum number := by
      rw [hmarks.marked number hnumber, Array.getElem?_replicate, if_pos (by omega)]
      simp only [Option.some.injEq, Bool.false_eq_true, false_or, List.mem_filter,
        Progression.mem_toList_inclusive, decide_eq_true_eq]
      constructor
      · rintro ⟨left, ⟨-, hleft⟩, right, ⟨-, hright⟩, hsum⟩
        exact ⟨left, right, hleft, hright, hsum⟩
      · rintro ⟨left, right, hleft, hright, hsum⟩
        have := hleft.pos
        have := hright.pos
        exact ⟨left, ⟨by omega, hleft⟩, right, ⟨by omega, hright⟩, hsum⟩
    rw [Array.getElem?_eq_getElem hinside, Option.some.injEq] at hmarked ⊢
    rw [Bool.eq_iff_iff, hmarked, decide_eq_true_eq]

/-- For every half word as the limit no sum overflows and no position outside the table is
written.  The abundant numbers are listed completely and ascending, and the table, with its
place for each number up to the limit, marks those that are a sum of two of them. -/
theorem marks_sums_of_abundant_pairs (hlimit : limit < halfWord) :
    ∃ abundant marks, abundantUpTo limit = .ok abundant ∧ abundantSums limit = .ok marks ∧
      abundant.Pairwise (· < ·) ∧
      (∀ number, number ∈ abundant ↔
        number ≤ limit ∧ number < ∑ divisor ∈ number.properDivisors, divisor) ∧
      marks.size = limit + 1 ∧
      ∀ number ≤ limit, marks[number]? = some true ↔
        ∃ left right : Nat, left.Abundant ∧ right.Abundant ∧ left + right = number := by
  obtain ⟨marks, hrun, hsize, hentries⟩ := abundantSums_run hlimit
  refine ⟨_, marks, abundantUpTo_eq hlimit, hrun,
    (Progression.pairwise_toList Nat.one_pos).filter _, ?_, hsize, ?_⟩
  · intro number
    rw [List.mem_filter, Progression.mem_toList_inclusive, decide_eq_true_eq]
    constructor
    · intro hlisted
      exact ⟨hlisted.1.2, hlisted.2⟩
    · intro hlisted
      exact ⟨⟨Nat.Abundant.pos hlisted.2, hlisted.1⟩, hlisted.2⟩
  · intro number hnumber
    rw [hentries number hnumber, Option.some.injEq, decide_eq_true_eq]
    rfl

/-- The number 957, in the last place of its table, is the sum of the odd abundant number 945 and
of 12. -/
theorem marks_sums_of_abundant_pairs_of_945 :
    957 < halfWord ∧ ∃ marks, abundantSums 957 = .ok marks ∧ marks.size = 958 ∧
      marks[957]? = some true := by
  have hlimit : 957 < halfWord := by decide
  obtain ⟨abundant, marks, -, hrun, -, -, hsize, hmarks⟩ := marks_sums_of_abundant_pairs hlimit
  have hodd : Nat.Abundant 945 := by decide +kernel
  have heven : Nat.Abundant 12 := by decide +kernel
  exact ⟨hlimit, marks, hrun, hsize, (hmarks 957 le_rfl).mpr ⟨945, 12, hodd, heven, rfl⟩⟩

/-! ## Adding up what is not marked -/

/-- The positive numbers up to a limit that are no sum of two abundant numbers. -/
def otherNumbers (limit : Nat) : Finset Nat :=
  (Finset.Icc 1 limit).filter fun number => ¬ IsAbundantSum number

/-- The numbers that are no such sum, as they are listed. -/
theorem sum_filter_inclusive (limit : Nat) :
    ((Progression.inclusive 1 limit).toList.filter fun number => ¬ IsAbundantSum number).sum =
      ∑ number ∈ otherNumbers limit, number := by
  have hnodup : ((Progression.inclusive 1 limit).toList.filter
      fun number => ¬ IsAbundantSum number).Nodup :=
    ((Progression.pairwise_toList Nat.one_pos).filter _).nodup
  have hmembers : ((Progression.inclusive 1 limit).toList.filter
      fun number => ¬ IsAbundantSum number).toFinset = otherNumbers limit := by
    ext number
    simp only [List.mem_toFinset, List.mem_filter, Progression.mem_toList_inclusive,
      otherNumbers, Finset.mem_filter, Finset.mem_Icc, decide_eq_true_eq]
  rw [← hmembers, List.sum_toFinset _ hnodup, List.map_id']

/-- One step of the sum: a number that is not marked is added. -/
def addUnmarked (marks : Array Bool) (sum number : Nat) : Checked Nat := do
  if ← Checked.entry marks number then pure sum else Checked.add word sum number

/-- The walk over all numbers adds those that are not marked. -/
theorem foldlM_addUnmarked {numbers : List Nat}
    (hentries : ∀ number ∈ numbers, marks[number]? = some (decide (IsAbundantSum number)))
    (sum : Nat) :
    numbers.foldlM (addUnmarked marks) sum =
      (numbers.filter fun number => ¬ IsAbundantSum number).foldlM (Checked.add word) sum := by
  induction numbers generalizing sum with
  | nil => rfl
  | cons number numbers ih =>
      obtain ⟨hentry, hrest⟩ := List.forall_mem_cons.mp hentries
      have hread : Checked.entry marks number = .ok (decide (IsAbundantSum number)) := by
        refine Checked.entry_eq ?_
        rw [Array.getElem?_toList, hentry]
      rw [List.foldlM_cons, addUnmarked, hread]
      by_cases hsum : IsAbundantSum number
      · rw [List.filter_cons_of_neg (by simpa using hsum), decide_eq_true hsum, ← ih hrest]
        rfl
      · rw [List.filter_cons_of_pos (by simpa using hsum), decide_eq_false hsum,
          List.foldlM_cons]
        exact congrArg (Checked.add word sum number >>= ·) (funext (ih hrest))

/-- The answer is the sum of the numbers up to the limit that are no such sum. -/
theorem answer_eq (hlimit : limit < halfWord) :
    answer limit = .ok (∑ number ∈ otherNumbers limit, number) := by
  obtain ⟨marks, hmarks, -, hentries⟩ := abundantSums_run hlimit
  have hsum : ∑ number ∈ otherNumbers limit, number < word :=
    sum_lt_word hlimit (Finset.filter_subset _ _)
  rw [← sum_filter_inclusive] at hsum ⊢
  rw [answer, hmarks]
  change (Progression.inclusive 1 limit).foldM 0 (addUnmarked marks) = _
  rw [Progression.foldM_eq_foldlM, foldlM_addUnmarked]
  · exact Checked.sum_eq hsum
  · intro number hnumber
    exact hentries number (Progression.mem_toList_inclusive.mp hnumber).2

end NumberPuzzles.AbundantSum
