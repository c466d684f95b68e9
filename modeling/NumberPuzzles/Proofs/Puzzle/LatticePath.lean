import Mathlib.Data.Set.Card
import NumberPuzzles.Proofs.Factorial
import NumberPuzzles.Puzzle.LatticePath

/-!
# Paths are counted by their first move

A path through a rectangle goes on, after its first move, through a rectangle that is one
narrower or one lower.  So the paths of a rectangle are those of two smaller ones, which is how
the binomial coefficients add up as well.  The square needs a coefficient out of twice its side,
and twice the side is where the count stops being possible.
-/

namespace NumberPuzzles.LatticePath

inductive Move where
  | right
  | down

/-- A path by its moves, from a corner of a rectangle to the opposite one: after a move it is a
path through what is left of the rectangle. -/
inductive IsPath : (width height : Nat) → List Move → Prop where
  | arrived : IsPath 0 0 []
  | right {width height : Nat} {moves : List Move} (rest : IsPath width height moves) :
      IsPath (width + 1) height (.right :: moves)
  | down {width height : Nat} {moves : List Move} (rest : IsPath width height moves) :
      IsPath width (height + 1) (.down :: moves)

def paths (width height : Nat) : Set (List Move) := {moves | IsPath width height moves}

/-- How many paths there are: one along an edge, and otherwise as many as through the rectangle
one narrower and the rectangle one lower together. -/
def pathCount : (width height : Nat) → Nat
  | 0, _ => 1
  | _ + 1, 0 => 1
  | width + 1, height + 1 => pathCount width (height + 1) + pathCount (width + 1) height

variable {width height : Nat} {moves : List Move}

/-! ## The paths of a rectangle -/

@[simp]
theorem isPath_zero_width : IsPath 0 height moves ↔ moves = List.replicate height .down := by
  induction height generalizing moves with
  | zero =>
      constructor
      · rintro ⟨⟩
        rfl
      · rintro rfl
        exact .arrived
  | succ height ih =>
      constructor
      · rintro (_ | _ | hrest)
        rw [ih.mp hrest, List.replicate_succ]
      · rintro rfl
        exact .down (ih.mpr rfl)

@[simp]
theorem isPath_zero_height : IsPath width 0 moves ↔ moves = List.replicate width .right := by
  induction width generalizing moves with
  | zero =>
      constructor
      · rintro ⟨⟩
        rfl
      · rintro rfl
        exact .arrived
  | succ width ih =>
      constructor
      · rintro (_ | hrest | _)
        rw [ih.mp hrest, List.replicate_succ]
      · rintro rfl
        exact .right (ih.mpr rfl)

theorem paths_succ_succ (width height : Nat) :
    paths (width + 1) (height + 1) =
      (List.cons Move.right '' paths width (height + 1)) ∪
        (List.cons Move.down '' paths (width + 1) height) := by
  ext moves
  constructor
  · rintro (_ | hrest | hrest)
    · exact .inl ⟨_, hrest, rfl⟩
    · exact .inr ⟨_, hrest, rfl⟩
  · rintro (⟨rest, hrest, rfl⟩ | ⟨rest, hrest, rfl⟩)
    · exact .right hrest
    · exact .down hrest

/-- There are finitely many paths, and the recursion counts them. -/
theorem encard_paths (width height : Nat) :
    (paths width height).encard = pathCount width height := by
  fun_induction pathCount width height with
  | case1 height =>
      have hsingle : paths 0 height = {List.replicate height .down} :=
        Set.ext fun _ => isPath_zero_width
      rw [hsingle, Set.encard_singleton, Nat.cast_one]
  | case2 width =>
      have hsingle : paths (width + 1) 0 = {List.replicate (width + 1) .right} :=
        Set.ext fun _ => isPath_zero_height
      rw [hsingle, Set.encard_singleton, Nat.cast_one]
  | case3 width height ihnarrower ihlower =>
      have hdisjoint : Disjoint (List.cons Move.right '' paths width (height + 1))
          (List.cons Move.down '' paths (width + 1) height) := by
        rw [Set.disjoint_left]
        rintro moves ⟨rest, -, rfl⟩ ⟨other, -, hother⟩
        cases hother
      rw [paths_succ_succ, Set.encard_union_eq hdisjoint, List.cons_injective.encard_image,
        List.cons_injective.encard_image, ihnarrower, ihlower, Nat.cast_add]

theorem pathCount_eq_choose (width height : Nat) :
    pathCount width height = (width + height).choose width := by
  fun_induction pathCount width height with
  | case1 height => rw [Nat.choose_zero_right]
  | case2 width => rw [Nat.add_zero, Nat.choose_self]
  | case3 width height ihnarrower ihlower =>
      -- Both smaller rectangles have one move less.
      have hlower : width + 1 + height = width + (height + 1) := by omega
      have hboth : width + 1 + (height + 1) = width + (height + 1) + 1 := by omega
      rw [ihnarrower, ihlower, hlower, hboth, Nat.choose_succ_succ']

/-! ## The square -/

/-- Whatever was asked before, the paths through a square are counted exactly as long as twice
its side is a half word; from there on doubling the side is a fault, and nothing is kept. -/
theorem counts_paths_through_square {memo : FactorialMemo} (hreached : memo.Reachable)
    (side : Nat) :
    (side < 2 ^ 31 → ((count side).run.run memo).1 = .ok (pathCount side side) ∧
      (paths side side).encard = pathCount side side) ∧
    (2 ^ 31 ≤ side → (count side).run.run memo = (.error .multiply, memo)) := by
  have hhalf : halfWord = 2 * 2 ^ 31 := by decide
  constructor
  · intro hsmall
    have hdouble : Checked.mul halfWord 2 side = .ok (2 * side) := if_pos (by omega)
    obtain ⟨after, hrun, -⟩ := binomial_run (2 * side) side hreached.sound
    refine ⟨?_, encard_paths side side⟩
    rw [count, hdouble, Run.run_bind_ok (Run.run_lift _ memo), hrun, pathCount_eq_choose,
      Nat.two_mul]
  · intro hlarge
    have hdouble : Checked.mul halfWord 2 side = .error .multiply := if_neg (by omega)
    rw [count, hdouble]
    rfl

/-- The paths through a square of side twenty, with 7! asked before, and the first square that
is too large. -/
theorem counts_paths_through_square_of_twenty :
    FactorialMemo.Reachable ((factorialCached 7).run.run FactorialMemo.initial).2 ∧
      ((count 20).run.run ((factorialCached 7).run.run FactorialMemo.initial).2).1 =
        .ok 137846528820 ∧
      ((count (2 ^ 31)).run.run FactorialMemo.initial).1 = .error .multiply := by
  have hreached : FactorialMemo.Reachable ((factorialCached 7).run.run FactorialMemo.initial).2 :=
    .factorial .initial 7
  have htwenty : pathCount 20 20 = 137846528820 := by
    rw [pathCount_eq_choose]
    decide
  have hanswer := ((counts_paths_through_square hreached 20).1 (by decide)).1
  have hfault := (counts_paths_through_square .initial (2 ^ 31)).2 le_rfl
  rw [htwenty] at hanswer
  exact ⟨hreached, hanswer, by rw [hfault]⟩

end NumberPuzzles.LatticePath
