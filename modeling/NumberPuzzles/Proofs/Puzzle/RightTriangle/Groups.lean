import Mathlib.Data.List.Induction
import Mathlib.Data.Nat.Basic
import Mathlib.Order.Basic
import NumberPuzzles.Puzzle.RightTriangle

/-!
# Triangles grouped by perimeter

A triangle is put behind those of its perimeter, or into a new group at the place where the
perimeters stay ascending.  So no two groups share a perimeter, no group is empty, and each group
holds what has come with its perimeter, in the order in which it came.
-/

namespace NumberPuzzles.RightTriangle

def Sides.total (sides : Sides) : Nat := sides.short + sides.long + sides.hypotenuse

/-- The triangles of a perimeter, none if there is no group for it. -/
def trianglesAt (perimeter : Nat) : List Group → List Sides
  | [] => []
  | group :: groups =>
      if group.perimeter = perimeter then group.triangles else trianglesAt perimeter groups

def Ascending (groups : List Group) : Prop :=
  groups.Pairwise fun left right => left.perimeter < right.perimeter

variable {groups : List Group} {perimeter : Nat} {sides : Sides}

/-! ## Looking up a perimeter -/

theorem trianglesAt_of_forall_ne (hother : ∀ group ∈ groups, group.perimeter ≠ perimeter) :
    trianglesAt perimeter groups = [] := by
  induction groups with
  | nil => rfl
  | cons group groups ih =>
      obtain ⟨hfirst, hrest⟩ := List.forall_mem_cons.mp hother
      rw [trianglesAt, if_neg hfirst]
      exact ih hrest

theorem Ascending.trianglesAt_of_mem (hascending : Ascending groups) {group : Group}
    (hgroup : group ∈ groups) : trianglesAt group.perimeter groups = group.triangles := by
  induction groups with
  | nil => cases hgroup
  | cons first groups ih =>
      obtain ⟨hfirst, hrest⟩ := List.pairwise_cons.mp hascending
      rcases List.mem_cons.mp hgroup with rfl | hlater
      · rw [trianglesAt, if_pos rfl]
      · rw [trianglesAt, if_neg (hfirst group hlater).ne]
        exact ih hrest hlater

theorem exists_group_of_mem_trianglesAt (hsides : sides ∈ trianglesAt perimeter groups) :
    ∃ group ∈ groups, group.perimeter = perimeter ∧ sides ∈ group.triangles := by
  induction groups with
  | nil => cases hsides
  | cons first groups ih =>
      rw [trianglesAt] at hsides
      split at hsides
      next hfirst => exact ⟨first, List.mem_cons_self, hfirst, hsides⟩
      next =>
        obtain ⟨group, hgroup, hsame, hmember⟩ := ih hsides
        exact ⟨group, List.mem_cons_of_mem first hgroup, hsame, hmember⟩

/-! ## Adding a triangle -/

section Add

variable {first : Group}

theorem addTriangle_cons_of_lt (hbefore : perimeter < first.perimeter) :
    addTriangle perimeter sides (first :: groups) =
      ⟨perimeter, [sides]⟩ :: first :: groups :=
  if_pos hbefore

@[simp]
theorem addTriangle_cons_same :
    addTriangle first.perimeter sides (first :: groups) =
      ⟨first.perimeter, first.triangles ++ [sides]⟩ :: groups := by
  rw [addTriangle, if_neg (lt_irrefl _), if_pos rfl]

theorem addTriangle_cons_of_gt (hbehind : first.perimeter < perimeter) :
    addTriangle perimeter sides (first :: groups) =
      first :: addTriangle perimeter sides groups := by
  rw [addTriangle, if_neg hbehind.asymm, if_neg hbehind.ne']

end Add

/-- Adding a triangle makes a group for its perimeter or changes the one there is. -/
theorem forall_mem_addTriangle {holds : Group → Prop} (hnew : holds ⟨perimeter, [sides]⟩)
    (hbehind : ∀ triangles, holds ⟨perimeter, triangles⟩ →
      holds ⟨perimeter, triangles ++ [sides]⟩)
    (hgroups : ∀ group ∈ groups, holds group) :
    ∀ group ∈ addTriangle perimeter sides groups, holds group := by
  induction groups with
  | nil => exact List.forall_mem_singleton.mpr hnew
  | cons first groups ih =>
      obtain ⟨hfirst, hrest⟩ := List.forall_mem_cons.mp hgroups
      rcases lt_trichotomy perimeter first.perimeter with hlt | rfl | hgt
      · rw [addTriangle_cons_of_lt hlt]
        exact List.forall_mem_cons.mpr ⟨hnew, hgroups⟩
      · rw [addTriangle_cons_same]
        exact List.forall_mem_cons.mpr ⟨hbehind first.triangles hfirst, hrest⟩
      · rw [addTriangle_cons_of_gt hgt]
        exact List.forall_mem_cons.mpr ⟨hfirst, ih hrest⟩

theorem Ascending.add (hascending : Ascending groups) :
    Ascending (addTriangle perimeter sides groups) := by
  induction groups with
  | nil => exact List.pairwise_singleton _ _
  | cons first groups ih =>
      obtain ⟨hfirst, hrest⟩ := List.pairwise_cons.mp hascending
      rcases lt_trichotomy perimeter first.perimeter with hlt | rfl | hgt
      · rw [addTriangle_cons_of_lt hlt]
        apply List.Pairwise.cons _ hascending
        exact List.forall_mem_cons.mpr
          ⟨hlt, fun group hgroup => hlt.trans (hfirst group hgroup)⟩
      · rw [addTriangle_cons_same]
        exact List.Pairwise.cons hfirst hrest
      · rw [addTriangle_cons_of_gt hgt]
        apply List.Pairwise.cons _ (ih hrest)
        exact forall_mem_addTriangle hgt (fun _ _ => hgt) hfirst

/-- The triangle comes behind those of its perimeter; the others stay. -/
theorem Ascending.trianglesAt_add (hascending : Ascending groups) (other : Nat) :
    trianglesAt other (addTriangle perimeter sides groups) =
      trianglesAt other groups ++ if perimeter = other then [sides] else [] := by
  induction groups with
  | nil => rfl
  | cons first groups ih =>
      obtain ⟨hfirst, hrest⟩ := List.pairwise_cons.mp hascending
      rcases lt_trichotomy perimeter first.perimeter with hlt | rfl | hgt
      · rw [addTriangle_cons_of_lt hlt, trianglesAt]
        split
        next hsame =>
          -- The new group is in front of all others, so there was none for its perimeter.
          subst hsame
          rw [trianglesAt_of_forall_ne, List.nil_append]
          exact List.forall_mem_cons.mpr
            ⟨hlt.ne', fun group hgroup => (hlt.trans (hfirst group hgroup)).ne'⟩
        next => rw [List.append_nil]
      · rw [addTriangle_cons_same, trianglesAt, trianglesAt]
        split
        next => rfl
        next => rw [List.append_nil]
      · rw [addTriangle_cons_of_gt hgt, trianglesAt, trianglesAt]
        split
        next hsame => rw [if_neg (hsame.symm.trans_lt hgt).ne', List.append_nil]
        next => exact ih hrest

/-! ## Grouping a list -/

def grouped (found : List Sides) : List Group :=
  found.foldl (fun groups sides => addTriangle sides.total sides groups) []

/-- What the groups of some triangles are: each perimeter that occurs has one group, with the
triangles of that perimeter in their order. -/
structure Groups (found : List Sides) (groups : List Group) : Prop where
  ascending : Ascending groups
  nonempty : ∀ group ∈ groups, group.triangles ≠ []
  triangles : ∀ perimeter,
    trianglesAt perimeter groups = found.filter fun sides => sides.total = perimeter

theorem Groups.add {found : List Sides} (hgroups : Groups found groups) (sides : Sides) :
    Groups (found ++ [sides]) (addTriangle sides.total sides groups) where
  ascending := hgroups.ascending.add
  nonempty := forall_mem_addTriangle (List.cons_ne_nil _ _)
    (fun _ _ => List.append_ne_nil_of_right_ne_nil _ (List.cons_ne_nil _ _)) hgroups.nonempty
  triangles := by
    intro perimeter
    rw [hgroups.ascending.trianglesAt_add, hgroups.triangles, List.filter_append,
      List.filter_cons, List.filter_nil]
    simp only [decide_eq_true_eq]

theorem grouped_groups (found : List Sides) : Groups found (grouped found) := by
  induction found using List.reverseRecOn with
  | nil => exact ⟨List.Pairwise.nil, nofun, fun _ => rfl⟩
  | append_singleton found sides ih =>
      rw [grouped, List.foldl_append]
      exact ih.add sides

namespace Groups

variable {found : List Sides}

theorem triangles_of_mem (hgroups : Groups found groups) {group : Group} (hgroup : group ∈ groups) :
    group.triangles = found.filter fun sides => sides.total = group.perimeter := by
  rw [← hgroups.triangles, hgroups.ascending.trianglesAt_of_mem hgroup]

theorem exists_group (hgroups : Groups found groups) (hsides : sides ∈ found) :
    ∃ group ∈ groups, group.perimeter = sides.total ∧ sides ∈ group.triangles := by
  apply exists_group_of_mem_trianglesAt
  rw [hgroups.triangles]
  exact List.mem_filter.mpr ⟨hsides, decide_eq_true rfl⟩

end Groups

end NumberPuzzles.RightTriangle
