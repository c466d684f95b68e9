import Mathlib.Tactic.Linarith
import Mathlib.Tactic.Ring
import NumberPuzzles.Proofs.Checked
import NumberPuzzles.Proofs.Progression
import NumberPuzzles.Puzzle.SpiralDiagonal

/-!
# The sum of both diagonals of a number spiral

The ring of a side ends at the square of the side, and its other corners are one, two and
three times the side less one before that.  The walk along the corners adds each of them to a
sum, so no corner is larger than the sum it is in: the sum is past the machine words before a
corner is, and the walk fails exactly when the whole sum is.  That sum is a cubic polynomial
in the side.
-/

namespace NumberPuzzles.SpiralDiagonal

def ringCorners (side : Nat) : List Nat :=
  [side ^ 2, side ^ 2 - (side - 1), side ^ 2 - 2 * (side - 1), side ^ 2 - 3 * (side - 1)]

/-- The numbers on both diagonals of a spiral with so many rings around its middle. -/
def diagonals (rings : Nat) : List Nat :=
  1 :: (List.range rings).flatMap fun ring => ringCorners (2 * ring + 3)

/-- The closed form of the sum. -/
def diagonalTotal (side : Nat) : Nat := (4 * side ^ 3 + 3 * side ^ 2 + 8 * side - 9) / 6

/-! ## The exact sum -/

/-- From the end of the ring inside it, the corners of a ring follow at equal distances. -/
theorem ringCorners_eq (rings : Nat) :
    ringCorners (2 * rings + 3) =
      (List.range' ((2 * rings + 1) ^ 2 + (2 * rings + 2)) 4 (2 * rings + 2)).reverse := by
  have hsquare : (2 * rings + 3) ^ 2 = (2 * rings + 1) ^ 2 + 4 * (2 * rings + 2) := by ring
  simp only [ringCorners, hsquare, List.range'_succ, List.range'_zero, List.reverse_cons,
    List.reverse_nil, List.nil_append, List.cons_append, List.cons.injEq, and_true]
  omega

theorem sum_diagonals_succ (rings : Nat) :
    (diagonals (rings + 1)).sum = (diagonals rings).sum +
      (List.range' ((2 * rings + 1) ^ 2 + (2 * rings + 2)) 4 (2 * rings + 2)).sum := by
  rw [diagonals, List.range_succ, List.flatMap_append, List.flatMap_singleton, ringCorners_eq,
    ← List.cons_append, List.sum_append, List.sum_reverse, ← diagonals]

theorem sum_diagonals_le (done more : Nat) :
    (diagonals done).sum ≤ (diagonals (done + more)).sum := by
  induction more with
  | zero => exact Nat.le_refl _
  | succ more ih =>
      rw [← Nat.add_assoc, sum_diagonals_succ]
      exact Nat.le_add_right_of_le ih

theorem six_mul_sum_diagonals (rings : Nat) :
    6 * (diagonals rings).sum + 9 =
      4 * (2 * rings + 1) ^ 3 + 3 * (2 * rings + 1) ^ 2 + 8 * (2 * rings + 1) := by
  induction rings with
  | zero => rfl
  | succ rings ih =>
      simp only [sum_diagonals_succ, List.range'_succ, List.range'_zero, List.sum_cons,
        List.sum_nil]
      linarith

theorem diagonalTotal_eq (rings : Nat) :
    diagonalTotal (2 * rings + 1) = (diagonals rings).sum := by
  rw [diagonalTotal, ← six_mul_sum_diagonals]
  omega

/-! ## The walk -/

variable {distance corners : Nat} {corner : Corner}

/-- A corner that is past the machine words takes the sum past them too, so only the sum
decides whether the walk goes on. -/
theorem turn_succ (distance corners : Nat) (corner : Corner) :
    turn distance (corners + 1) corner =
      if corner.sum + (corner.value + distance) < word then
        turn distance corners ⟨corner.value + distance, corner.sum + (corner.value + distance)⟩
      else .error .add := by
  rw [turn]
  by_cases hvalue : corner.value + distance < word
  · simp only [Checked.add, if_pos hvalue, Checked.bind_ok]
    by_cases hnext : corner.sum + (corner.value + distance) < word
    · simp only [if_pos hnext, Checked.bind_ok]
    · simp only [if_neg hnext, Checked.bind_error]
  · have hnext : ¬ corner.sum + (corner.value + distance) < word := by omega
    rw [if_neg hnext, Checked.add, if_neg hvalue]
    rfl

/-- The corners that a walk passes are added to the sum, and the walk fails exactly when the
sum with all of them is past the machine words. -/
theorem turn_eq (hsum : corner.sum < word) :
    turn distance corners corner =
      if corner.sum + (List.range' (corner.value + distance) corners distance).sum < word then
        .ok ⟨corner.value + corners * distance,
          corner.sum + (List.range' (corner.value + distance) corners distance).sum⟩
      else .error .add := by
  induction corners generalizing corner with
  | zero => simp [turn, hsum]
  | succ corners ih =>
      rw [turn_succ, List.range'_succ, List.sum_cons]
      by_cases hnext : corner.sum + (corner.value + distance) < word
      · have hlast : corner.value + distance + corners * distance =
            corner.value + (corners + 1) * distance := by ring
        rw [if_pos hnext, ih hnext, hlast, Nat.add_assoc corner.sum]
      · rw [if_neg hnext, if_neg (by omega)]

def cornerAfter (rings : Nat) : Corner := ⟨(2 * rings + 1) ^ 2, (diagonals rings).sum⟩

theorem passRing_eq {rings : Nat} (hsum : (diagonals rings).sum < word) :
    passRing (cornerAfter rings) (2 * rings + 3) =
      if (diagonals (rings + 1)).sum < word then .ok (cornerAfter (rings + 1))
      else .error .add := by
  have hdistance : Checked.sub (2 * rings + 3) 1 = .ok (2 * rings + 2) := if_pos (by omega)
  have hlast : (2 * rings + 1) ^ 2 + 4 * (2 * rings + 2) = (2 * (rings + 1) + 1) ^ 2 := by ring
  rw [passRing, Checked.bind_of_ok hdistance, cornerAfter, turn_eq hsum, hlast, ← sum_diagonals_succ,
    ← cornerAfter]

/-- From the end of a ring, the walk passes further rings as long as the sum is a machine
word. -/
theorem passRings_eq {done : Nat} (more : Nat) (hsum : (diagonals done).sum < word) :
    (List.range' (2 * done + 3) more 2).foldlM passRing (cornerAfter done) =
      if (diagonals (done + more)).sum < word then .ok (cornerAfter (done + more))
      else .error .add := by
  -- The induction is on the rings that are left, so the end of any ring can be the start.
  induction more generalizing done with
  | zero => exact (if_pos hsum).symm
  | succ more ih =>
      have hlater : done + (more + 1) = done + 1 + more := by omega
      rw [List.range'_succ, List.foldlM_cons, passRing_eq hsum, hlater]
      by_cases hnext : (diagonals (done + 1)).sum < word
      · rw [if_pos hnext]
        exact ih hnext
      · -- The rings that are not reached only add to a sum that is past the words already.
        have hpast : ¬ (diagonals (done + 1 + more)).sum < word := fun hlast =>
          hnext ((sum_diagonals_le (done + 1) more).trans_lt hlast)
        rw [if_neg hnext, if_neg hpast]
        rfl

theorem diagonalSum_eq (rings : Nat) :
    diagonalSum (2 * rings + 1) =
      if (diagonals rings).sum < word then .ok (diagonals rings).sum else .error .add := by
  have hrings : Progression.stride 3 (2 * rings + 1 + 1) 2 = ⟨3, 2, rings⟩ := by
    rw [Progression.stride, show (2 * rings + 1 + 1 - 3 + (2 - 1)) / 2 = rings by omega]
  have hwalk : (List.range' 3 rings 2).foldlM passRing ⟨1, 1⟩ =
      if (diagonals rings).sum < word then .ok (cornerAfter rings) else .error .add := by
    have hfirst := passRings_eq rings (show (diagonals 0).sum < word by decide)
    rw [Nat.zero_add rings] at hfirst
    exact hfirst
  rw [diagonalSum, hrings, Progression.foldM_eq_foldlM, Progression.toList, hwalk]
  by_cases hsum : (diagonals rings).sum < word
  · rw [if_pos hsum, if_pos hsum]
    rfl
  · rw [if_neg hsum, if_neg hsum]
    rfl

/-- For every odd side the polynomial is a multiple of six, and its sixth part is the sum of
the numbers on both diagonals.  That sum is returned if it is a machine word, and an addition
overflows exactly when it is not. -/
theorem sums_diagonals {side : Nat} (hodd : side % 2 = 1) :
    (diagonalTotal side : Int) * 6 = 4 * side ^ 3 + 3 * side ^ 2 + 8 * side - 9 ∧
      diagonalTotal side = (diagonals (side / 2)).sum ∧
      (diagonalTotal side < word → diagonalSum side = .ok (diagonalTotal side)) ∧
      (diagonalSum side = .error .add ↔ word ≤ diagonalTotal side) := by
  obtain ⟨rings, rfl⟩ : ∃ rings, side = 2 * rings + 1 := ⟨side / 2, by omega⟩
  have hhalf : (2 * rings + 1) / 2 = rings := by omega
  have hexact := six_mul_sum_diagonals rings
  rw [hhalf, diagonalTotal_eq, diagonalSum_eq]
  refine ⟨?_, rfl, fun hword => if_pos hword, ?_⟩
  · zify at hexact
    push_cast
    linarith
  · constructor
    · intro hfault
      by_contra hword
      rw [if_pos (Nat.not_le.mp hword)] at hfault
      cases hfault
    · intro hpast
      exact if_neg (Nat.not_lt.mpr hpast)

/-- The greatest side with a sum that is a machine word, and the next one. -/
theorem sums_diagonals_up_to_greatest_side :
    3024615 % 2 = 1 ∧ diagonalSum 3024615 = .ok 18446719906291854181 ∧
      3024617 % 2 = 1 ∧ diagonalSum 3024617 = .error .add := by
  have htotal : diagonalTotal 3024615 = 18446719906291854181 := by decide
  refine ⟨by decide, ?_, by decide, ?_⟩
  · rw [← htotal]
    exact (sums_diagonals (by decide)).2.2.1 (by decide)
  · exact (sums_diagonals (by decide)).2.2.2.mpr (by decide)

/-- With three in place of the nine, the polynomial gives one more than the five numbers on the
diagonals of the spiral of side three. -/
theorem larger_polynomial_exceeds_sum :
    (4 * 3 ^ 3 + 3 * 3 ^ 2 + 8 * 3 - 3) / 6 = 26 ∧ 26 < word ∧
      diagonals 1 = [1, 9, 7, 5, 3] ∧ diagonalSum 3 = .ok 25 ∧ diagonalSum 3 ≠ .ok 26 := by
  decide

end NumberPuzzles.SpiralDiagonal
