import NumberPuzzles.Progression
import NumberPuzzles.SquareRoot

/-!
# Right triangles with whole sides, by perimeter
-/

namespace NumberPuzzles.RightTriangle

/-- Two legs, the shorter one first, and the side opposite the right angle. -/
structure Sides where
  short : Nat
  long : Nat
  hypotenuse : Nat
  deriving Repr, DecidableEq

structure Group where
  perimeter : Nat
  triangles : List Sides
  deriving Repr, DecidableEq

/-- Adds a triangle behind those of its perimeter; the perimeters stay ascending. -/
def addTriangle (perimeter : Nat) (sides : Sides) : List Group → List Group
  | [] => [⟨perimeter, [sides]⟩]
  | group :: groups =>
      if perimeter < group.perimeter then ⟨perimeter, [sides]⟩ :: group :: groups
      else if perimeter = group.perimeter then
        ⟨perimeter, group.triangles ++ [sides]⟩ :: groups
      else group :: addTriangle perimeter sides groups

/-- The triangle with two given legs, if its third side is whole. -/
def withLegs? (short long : Nat) : Checked (Option Sides) := do
  let squares ← Checked.add word (← Checked.mul word short short) (← Checked.mul word long long)
  let hypotenuse ← isqrt squares
  return if (← Checked.mul word hypotenuse hypotenuse) = squares
    then some ⟨short, long, hypotenuse⟩ else none

def perimeter (sides : Sides) : Checked Nat := do
  Checked.add word (← Checked.add word sides.short sides.long) sides.hypotenuse

/-- The triangles with legs up to one bound and a perimeter up to another, grouped
by perimeter. -/
def rightTriangles (maxLeg maxPerimeter : Nat) : Checked (List Group) :=
  (Progression.inclusive 1 maxLeg).foldM [] fun groups short =>
    (Progression.inclusive short maxLeg).foldM groups fun groups long => do
      match ← withLegs? short long with
      | none => return groups
      | some sides =>
          let perimeter ← perimeter sides
          return if perimeter ≤ maxPerimeter then addTriangle perimeter sides groups else groups

/-- The least perimeter with the most triangles, within the bounds. -/
def answer (maxLeg maxPerimeter : Nat) : Checked Nat := do
  let groups ← rightTriangles maxLeg maxPerimeter
  let best := groups.foldl (fun (best : Group) group =>
    if best.triangles.length < group.triangles.length then group else best) ⟨0, []⟩
  return best.perimeter

end NumberPuzzles.RightTriangle
