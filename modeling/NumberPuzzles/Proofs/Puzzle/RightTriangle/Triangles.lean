import Mathlib.Algebra.Order.Ring.Nat
import Mathlib.Algebra.Ring.Commute
import NumberPuzzles.Proofs.Checked
import NumberPuzzles.Proofs.Progression
import NumberPuzzles.Proofs.Puzzle.RightTriangle.Groups
import NumberPuzzles.Proofs.SquareRoot

/-!
# All right triangles within bounds

Legs of at most 31 bits have squares whose sum is a word, so every third side is settled exactly
and the loops go through all pairs of legs.  With one shorter leg, the perimeter rises with the
longer one, so the triangles of one perimeter come with ascending and different shorter legs.
The hypotenuse is longer than both legs, so no leg is longer than half the perimeter.
-/

namespace NumberPuzzles.RightTriangle

variable {maxLeg maxPerimeter short long : Nat} {sides : Sides}

/-! ## Right triangles -/

/-- Two positive legs, the shorter one first, and the side opposite the right angle. -/
structure Sides.IsRight (sides : Sides) : Prop where
  positive : 1 ≤ sides.short
  ordered : sides.short ≤ sides.long
  squares : sides.short ^ 2 + sides.long ^ 2 = sides.hypotenuse ^ 2

namespace Sides.IsRight

theorem long_lt_hypotenuse (hright : sides.IsRight) : sides.long < sides.hypotenuse := by
  apply (Nat.pow_lt_pow_iff_left two_ne_zero).mp
  calc sides.long ^ 2 < sides.short ^ 2 + sides.long ^ 2 :=
        Nat.lt_add_of_pos_left (Nat.pow_pos hright.positive)
    _ = sides.hypotenuse ^ 2 := hright.squares

theorem hypotenuse_le (hright : sides.IsRight) : sides.hypotenuse ≤ sides.short + sides.long := by
  apply (Nat.pow_le_pow_iff_left two_ne_zero).mp
  calc sides.hypotenuse ^ 2 = sides.short ^ 2 + sides.long ^ 2 := hright.squares.symm
    _ ≤ sides.short ^ 2 + 2 * sides.short * sides.long + sides.long ^ 2 :=
        Nat.add_le_add_right (Nat.le_add_right _ _) _
    _ = (sides.short + sides.long) ^ 2 := (add_sq _ _).symm

/-- No leg is longer than half the perimeter. -/
theorem long_le_half (hright : sides.IsRight) (hperimeter : sides.total ≤ maxPerimeter) :
    sides.long ≤ maxPerimeter / 2 := by
  have hlonger := hright.long_lt_hypotenuse
  rw [Sides.total] at hperimeter
  omega

/-- The legs may be given in any order. -/
theorem of_legs {left right hypotenuse : Nat} (hleft : 1 ≤ left) (hright : 1 ≤ right)
    (hsquares : left ^ 2 + right ^ 2 = hypotenuse ^ 2) :
    Sides.IsRight ⟨min left right, max left right, hypotenuse⟩ where
  positive := le_min hleft hright
  ordered := min_le_max
  squares := by
    rcases le_total left right with hle | hle
    · rw [min_eq_left hle, max_eq_right hle, hsquares]
    · rw [min_eq_right hle, max_eq_left hle, add_comm, hsquares]

end Sides.IsRight

/-- With the same shorter leg, the perimeter rises with the longer one. -/
theorem total_lt_of_long_lt {left right : Sides}
    (hleft : left.short ^ 2 + left.long ^ 2 = left.hypotenuse ^ 2)
    (hright : right.short ^ 2 + right.long ^ 2 = right.hypotenuse ^ 2)
    (hshort : left.short = right.short) (hlong : left.long < right.long) :
    left.total < right.total := by
  have hhypotenuse : left.hypotenuse < right.hypotenuse := by
    apply (Nat.pow_lt_pow_iff_left two_ne_zero).mp
    calc left.hypotenuse ^ 2 = right.short ^ 2 + left.long ^ 2 := by rw [← hleft, hshort]
      _ < right.short ^ 2 + right.long ^ 2 :=
          Nat.add_lt_add_left ((Nat.pow_lt_pow_iff_left two_ne_zero).mpr hlong) _
      _ = right.hypotenuse ^ 2 := hright
  rw [Sides.total, Sides.total, hshort]
  omega

/-! ## Two legs -/

def triangle? (short long : Nat) : Option Sides :=
  let hypotenuse := Nat.sqrt (short * short + long * long)
  if hypotenuse * hypotenuse = short * short + long * long then some ⟨short, long, hypotenuse⟩
  else none

theorem triangle?_eq_some_iff :
    triangle? short long = some sides ↔
      sides.short = short ∧ sides.long = long ∧ short ^ 2 + long ^ 2 = sides.hypotenuse ^ 2 := by
  simp only [triangle?, Option.ite_none_right_eq_some, Option.some.injEq, ← pow_two]
  constructor
  · rintro ⟨hsquare, rfl⟩
    exact ⟨rfl, rfl, hsquare.symm⟩
  · rintro ⟨rfl, rfl, hsquare⟩
    rw [hsquare, Nat.sqrt_eq']
    exact ⟨rfl, rfl⟩

theorem withLegs?_eq (hshort : short < 2 ^ 31) (hlong : long < 2 ^ 31) :
    withLegs? short long = .ok (triangle? short long) := by
  have hsquares : short * short + long * long < word := by
    have hshorts := Nat.mul_self_lt_mul_self hshort
    have hlongs := Nat.mul_self_lt_mul_self hlong
    have hroom : (2 : Nat) ^ 31 * 2 ^ 31 + 2 ^ 31 * 2 ^ 31 ≤ word := by decide
    omega
  have hadd : Checked.add word (short * short) (long * long) =
      .ok (short * short + long * long) := if_pos hsquares
  -- Both squares and the square of the root are at most the sum of the squares.
  have hmul : ∀ factor, factor * factor ≤ short * short + long * long →
      Checked.mul word factor factor = .ok (factor * factor) :=
    fun factor hle => if_pos (hle.trans_lt hsquares)
  rw [withLegs?, Checked.bind_of_ok (hmul short (Nat.le_add_right _ _)),
    Checked.bind_of_ok (hmul long (Nat.le_add_left _ _)), Checked.bind_of_ok hadd,
    Checked.bind_of_ok (isqrt_eq_sqrt hsquares), Checked.bind_of_ok (hmul _ (Nat.sqrt_le _))]
  rfl

theorem perimeter_eq (hright : sides.IsRight) (hlong : sides.long < 2 ^ 31) :
    perimeter sides = .ok sides.total := by
  have hordered := hright.ordered
  have hhypotenuse := hright.hypotenuse_le
  have hroom : (2 : Nat) ^ 33 ≤ word := by decide
  have hlegs : Checked.add word sides.short sides.long = .ok (sides.short + sides.long) :=
    if_pos (by omega)
  rw [perimeter, Checked.bind_of_ok hlegs]
  exact if_pos (by omega)

/-! ## All pairs of legs -/

def fitting? (maxPerimeter short long : Nat) : Option Sides :=
  (triangle? short long).filter fun sides => sides.total ≤ maxPerimeter

/-- The triangles within the bounds, in the order of the loops. -/
def fitting (maxLeg maxPerimeter : Nat) : List Sides :=
  (Progression.inclusive 1 maxLeg).toList.flatMap fun short =>
    (Progression.inclusive short maxLeg).toList.filterMap (fitting? maxPerimeter short)

theorem fitting?_eq_some_iff :
    fitting? maxPerimeter short long = some sides ↔
      (sides.short = short ∧ sides.long = long ∧ short ^ 2 + long ^ 2 = sides.hypotenuse ^ 2) ∧
        sides.total ≤ maxPerimeter := by
  rw [fitting?, Option.filter_eq_some_iff, triangle?_eq_some_iff, decide_eq_true_eq]

theorem mem_fitting_iff :
    sides ∈ fitting maxLeg maxPerimeter ↔
      sides.IsRight ∧ sides.long ≤ maxLeg ∧ sides.total ≤ maxPerimeter := by
  simp only [fitting, List.mem_flatMap, List.mem_filterMap, Progression.mem_toList_inclusive,
    fitting?_eq_some_iff]
  constructor
  · rintro ⟨_, ⟨hpositive, -⟩, _, ⟨hordered, hlong⟩, ⟨rfl, rfl, hsquares⟩, htotal⟩
    exact ⟨⟨hpositive, hordered, hsquares⟩, hlong, htotal⟩
  · rintro ⟨hright, hlong, htotal⟩
    exact ⟨sides.short, ⟨hright.positive, hright.ordered.trans hlong⟩, sides.long,
      ⟨hright.ordered, hlong⟩, ⟨rfl, rfl, hright.squares⟩, htotal⟩

/-- The shorter legs come ascending, and those with the same one by their perimeters. -/
theorem fitting_pairwise (maxLeg maxPerimeter : Nat) :
    (fitting maxLeg maxPerimeter).Pairwise fun left right =>
      left.short < right.short ∨ left.total < right.total := by
  rw [fitting, List.pairwise_flatMap]
  constructor
  · intro short _
    apply (Progression.pairwise_toList one_pos).filterMap
    intro long longer hlonger left hleft right hright
    obtain ⟨⟨rfl, rfl, hleftSquares⟩, -⟩ := fitting?_eq_some_iff.mp hleft
    obtain ⟨⟨hshort, rfl, hrightSquares⟩, -⟩ := fitting?_eq_some_iff.mp hright
    rw [← hshort] at hrightSquares
    exact .inr (total_lt_of_long_lt hleftSquares hrightSquares hshort.symm hlonger)
  · apply (Progression.pairwise_toList one_pos).imp
    intro short larger hlarger left hleft right hright
    obtain ⟨_, -, hleft⟩ := List.mem_filterMap.mp hleft
    obtain ⟨_, -, hright⟩ := List.mem_filterMap.mp hright
    obtain ⟨⟨rfl, -⟩, -⟩ := fitting?_eq_some_iff.mp hleft
    obtain ⟨⟨rfl, -⟩, -⟩ := fitting?_eq_some_iff.mp hright
    exact .inl hlarger

/-- The triangles of one perimeter have different shorter legs, which ascend. -/
theorem fitting_filter_pairwise (maxLeg maxPerimeter perimeter : Nat) :
    ((fitting maxLeg maxPerimeter).filter fun sides => sides.total = perimeter).Pairwise
      fun left right => left.short < right.short := by
  apply ((fitting_pairwise maxLeg maxPerimeter).filter _).imp_of_mem
  intro left right hleft hright horder
  have hleft := of_decide_eq_true (List.mem_filter.mp hleft).2
  have hright := of_decide_eq_true (List.mem_filter.mp hright).2
  exact horder.resolve_right (hleft.trans hright.symm).not_lt

/-- The loops add the triangles within the bounds to their groups. -/
theorem rightTriangles_eq (hleg : maxLeg < 2 ^ 31) (maxPerimeter : Nat) :
    rightTriangles maxLeg maxPerimeter = .ok (grouped (fitting maxLeg maxPerimeter)) := by
  rw [rightTriangles, Progression.foldM_eq_foldlM, grouped, fitting, List.foldl_flatMap]
  apply Progression.foldlM_pure
  intro groups short hshort
  rw [Progression.foldM_eq_foldlM, List.foldl_filterMap]
  apply Progression.foldlM_pure
  intro groups long hlong
  obtain ⟨hpositive, -⟩ := Progression.mem_toList_inclusive.mp hshort
  obtain ⟨hordered, hlast⟩ := Progression.mem_toList_inclusive.mp hlong
  have hlimit : long < 2 ^ 31 := hlast.trans_lt hleg
  rw [Checked.bind_of_ok (withLegs?_eq (hordered.trans_lt hlimit) hlimit), fitting?]
  cases htriangle : triangle? short long with
  | none => rfl
  | some sides =>
      obtain ⟨rfl, rfl, hsquares⟩ := triangle?_eq_some_iff.mp htriangle
      have hperimeter := perimeter_eq ⟨hpositive, hordered, hsquares⟩ hlimit
      apply (Checked.bind_of_ok hperimeter _).trans
      rw [Option.filter_some]
      by_cases htotal : sides.total ≤ maxPerimeter
      · rw [if_pos htotal, if_pos (decide_eq_true htotal)]
      · rw [if_neg htotal, if_neg (mt of_decide_eq_true htotal)]

/-! ## The groups -/

/-- With legs of up to 31 bits the search ends without a fault.  Its groups ascend by perimeter,
and none is empty.  Each group has just the right triangles of its perimeter within the bounds,
each once, with ascending shorter legs, and each of these triangles has a group.  If the longest
leg is at least half the largest perimeter, that bound on the legs leaves no triangle out. -/
theorem groups_right_triangles (hleg : maxLeg < 2 ^ 31) (maxPerimeter : Nat) :
    ∃ groups, rightTriangles maxLeg maxPerimeter = .ok groups ∧
      groups.Pairwise (fun left right => left.perimeter < right.perimeter) ∧
      (∀ group ∈ groups, group.triangles ≠ [] ∧
        group.triangles.Pairwise (fun left right => left.short < right.short) ∧
        ∀ sides, sides ∈ group.triangles ↔
          (sides.IsRight ∧ sides.long ≤ maxLeg) ∧
            sides.total = group.perimeter ∧ sides.total ≤ maxPerimeter) ∧
      (∀ sides : Sides, sides.IsRight → sides.long ≤ maxLeg → sides.total ≤ maxPerimeter →
        ∃ group ∈ groups, group.perimeter = sides.total ∧ sides ∈ group.triangles) ∧
      (maxPerimeter / 2 ≤ maxLeg → ∀ left right hypotenuse, 1 ≤ left → 1 ≤ right →
        left ^ 2 + right ^ 2 = hypotenuse ^ 2 → left + right + hypotenuse ≤ maxPerimeter →
        ∃ group ∈ groups, group.perimeter = left + right + hypotenuse ∧
          ⟨min left right, max left right, hypotenuse⟩ ∈ group.triangles) := by
  have hgroups := grouped_groups (fitting maxLeg maxPerimeter)
  have hcomplete : ∀ sides : Sides, sides.IsRight → sides.long ≤ maxLeg →
      sides.total ≤ maxPerimeter → ∃ group ∈ grouped (fitting maxLeg maxPerimeter),
        group.perimeter = sides.total ∧ sides ∈ group.triangles :=
    fun sides hright hlong htotal =>
      hgroups.exists_group (mem_fitting_iff.mpr ⟨hright, hlong, htotal⟩)
  refine ⟨_, rightTriangles_eq hleg maxPerimeter, hgroups.ascending, ?_, hcomplete, ?_⟩
  · intro group hgroup
    refine ⟨hgroups.nonempty group hgroup, ?_, ?_⟩
    · rw [hgroups.triangles_of_mem hgroup]
      exact fitting_filter_pairwise maxLeg maxPerimeter group.perimeter
    · intro sides
      rw [hgroups.triangles_of_mem hgroup, List.mem_filter, mem_fitting_iff, decide_eq_true_eq]
      tauto
  · intro hhalf left right hypotenuse hleft hright hsquares htotal
    have hsides := Sides.IsRight.of_legs hleft hright hsquares
    have hsum : min left right + max left right + hypotenuse = left + right + hypotenuse := by
      rw [min_add_max]
    rw [← hsum] at htotal ⊢
    exact hcomplete _ hsides ((hsides.long_le_half htotal).trans hhalf) htotal

/-- The legs 48 and 20 are within the bound that 1000 asks for, and the triangle is in one group
with the one of 24 and 45. -/
theorem groups_right_triangles_at_120 :
    500 < 2 ^ 31 ∧ 1000 / 2 ≤ 500 ∧ 48 ^ 2 + 20 ^ 2 = 52 ^ 2 ∧ 48 + 20 + 52 ≤ 1000 ∧
      (⟨24, 45, 51⟩ : Sides).IsRight ∧
      ∃ groups, rightTriangles 500 1000 = .ok groups ∧ ∃ group ∈ groups, group.perimeter = 120 ∧
        ⟨20, 48, 52⟩ ∈ group.triangles ∧ ⟨24, 45, 51⟩ ∈ group.triangles := by
  have hright : (⟨24, 45, 51⟩ : Sides).IsRight := ⟨by decide, by decide, by decide⟩
  obtain ⟨groups, hrun, -, hgroups, -, hcomplete⟩ :=
    groups_right_triangles (show 500 < 2 ^ 31 by decide) 1000
  obtain ⟨group, hgroup, hperimeter, hsides⟩ :=
    hcomplete (by decide) 48 20 52 (by decide) (by decide) (by decide) (by decide)
  have hother : ⟨24, 45, 51⟩ ∈ group.triangles := by
    obtain ⟨-, -, hmember⟩ := hgroups group hgroup
    apply (hmember _).mpr
    rw [hperimeter]
    exact ⟨⟨hright, by decide⟩, rfl, by decide⟩
  exact ⟨by decide, by decide, by decide, by decide, hright, groups, hrun, group, hgroup,
    hperimeter, hsides, hother⟩

end NumberPuzzles.RightTriangle
