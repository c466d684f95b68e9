import Mathlib.Algebra.Order.Ring.Nat
import Mathlib.Order.Bounds.Basic
import Mathlib.Order.MinMax
import NumberPuzzles.Puzzle.TrianglePath

/-!
# The fold finds the heaviest path, or its overflow

From the lowest row up, each cell comes to hold the greatest sum of a path that starts at it.
Every cell is on a path from the top, so no sum in between is past the machine words unless the
greatest sum of a whole path is: a fault on the way is a fault of the answer.
-/

namespace NumberPuzzles.TrianglePath

variable {height position : Nat} {row : List Nat} {rows : List (List Nat)}

/-- The entries met on a way down some rows, from a position on: the next row is entered at the
same position or the one after it. -/
inductive IsPath : (rows : List (List Nat)) → (position : Nat) → (entries : List Nat) → Prop
  | nil (position : Nat) : IsPath [] position []
  | cons {row : List Nat} {rows : List (List Nat)} {position next entry : Nat}
      {entries : List Nat} (hentry : row[position]? = some entry)
      (hnext : next = position ∨ next = position + 1) (hrest : IsPath rows next entries) :
      IsPath (row :: rows) position (entry :: entries)

def pathSums (rows : List (List Nat)) (position : Nat) : Set Nat :=
  {sum | ∃ entries, IsPath rows position entries ∧ entries.sum = sum}

/-- The greatest sum of a path from a position, by recursion on the rows. -/
def heaviest : (rows : List (List Nat)) → (position : Nat) → Nat
  | [], _ => 0
  | row :: rows, position =>
      row.getD position 0 + max (heaviest rows position) (heaviest rows (position + 1))

theorem exists_entry (hwidening : Widening height (row :: rows)) (hposition : position ≤ height) :
    ∃ entry, row[position]? = some entry := by
  have hinside : position < row.length := by
    rw [hwidening.1]
    omega
  exact ⟨row[position], List.getElem?_eq_getElem hinside⟩

theorem heaviest_cons {entry : Nat} (hentry : row[position]? = some entry) :
    heaviest (row :: rows) position =
      entry + max (heaviest rows position) (heaviest rows (position + 1)) := by
  rw [heaviest, List.getD_eq_getElem?_getD, hentry, Option.getD_some]

/-- In rows that widen, the recursion gives the greatest sum of a path. -/
theorem heaviest_isGreatest (hwidening : Widening height rows) (hposition : position ≤ height) :
    IsGreatest (pathSums rows position) (heaviest rows position) := by
  induction rows generalizing height position with
  | nil =>
      constructor
      · exact ⟨[], .nil position, rfl⟩
      · rintro sum ⟨entries, hpath, rfl⟩
        cases hpath
        exact Nat.le_refl 0
  | cons row rows ih =>
      obtain ⟨entry, hentry⟩ := exists_entry hwidening hposition
      have hhere : IsGreatest (pathSums rows position) (heaviest rows position) :=
        ih hwidening.2 (by omega)
      have hafter : IsGreatest (pathSums rows (position + 1)) (heaviest rows (position + 1)) :=
        ih hwidening.2 (by omega)
      rw [heaviest_cons hentry]
      constructor
      · rcases max_choice (heaviest rows position) (heaviest rows (position + 1)) with hmax | hmax
        · obtain ⟨entries, hpath, hsum⟩ := hhere.1
          exact ⟨entry :: entries, .cons hentry (.inl rfl) hpath, by
            rw [List.sum_cons, hsum, hmax]⟩
        · obtain ⟨entries, hpath, hsum⟩ := hafter.1
          exact ⟨entry :: entries, .cons hentry (.inr rfl) hpath, by
            rw [List.sum_cons, hsum, hmax]⟩
      · rintro sum ⟨entries, hpath, rfl⟩
        cases hpath with
        | cons hother hnext hrest =>
            obtain rfl := Option.some.inj (hentry.symm.trans hother)
            rw [List.sum_cons]
            apply Nat.add_le_add_left
            rcases hnext with rfl | rfl
            · exact le_max_of_le_left (hhere.2 ⟨_, hrest, rfl⟩)
            · exact le_max_of_le_right (hafter.2 ⟨_, hrest, rfl⟩)

/-- A path from a cell goes on from a cell above it, so its sum is reached there. -/
theorem heaviest_le_above (row : List Nat) (rows : List (List Nat)) {below : Nat}
    (hbelow : below ≤ height + 1) :
    ∃ position ≤ height, heaviest rows below ≤ heaviest (row :: rows) position := by
  rcases Nat.lt_or_ge height below with hlast | hinside
  · obtain rfl : below = height + 1 := by omega
    exact ⟨height, Nat.le_refl height, (Nat.le_max_right _ _).trans (Nat.le_add_left _ _)⟩
  · exact ⟨below, hinside, (Nat.le_max_left _ _).trans (Nat.le_add_left _ _)⟩

/-! ## One row -/

@[simp]
theorem greaterOfTwo_eq (best : List Nat) :
    greaterOfTwo best = max (best.getD 0 0) (best.getD 1 0) := by
  rcases best with - | ⟨first, - | ⟨second, rest⟩⟩
  · rfl
  · exact (Nat.max_zero first).symm
  · rfl

/-- The sums of the entries of a row with the greater of the two sums below each. -/
def liftedRow (row best : List Nat) : List Nat :=
  row.mapIdx fun position entry =>
    entry + max (best.getD position 0) (best.getD (position + 1) 0)

@[simp]
theorem liftedRow_cons (entry : Nat) (row best : List Nat) :
    liftedRow (entry :: row) best = (entry + greaterOfTwo best) :: liftedRow row best.tail := by
  rw [liftedRow, List.mapIdx_cons, greaterOfTwo_eq, liftedRow]
  simp only [List.getD_eq_getElem?_getD, List.getElem?_tail]

/-- A row is lifted without a fault exactly if all its sums are machine words. -/
theorem liftRow_eq (row best : List Nat) :
    liftRow row best =
      if ∀ sum ∈ liftedRow row best, sum < word then .ok (liftedRow row best)
      else .error .add := by
  induction row generalizing best with
  | nil => rfl
  | cons entry row ih =>
      have hwords : (∀ sum ∈ liftedRow (entry :: row) best, sum < word) ↔
          entry + greaterOfTwo best < word ∧ ∀ sum ∈ liftedRow row best.tail, sum < word := by
        rw [liftedRow_cons, List.forall_mem_cons]
      rw [liftRow, ih, Checked.add]
      by_cases hentry : entry + greaterOfTwo best < word
      · rw [if_pos hentry]
        by_cases hrow : ∀ sum ∈ liftedRow row best.tail, sum < word
        · rw [if_pos hrow, if_pos (hwords.mpr ⟨hentry, hrow⟩), liftedRow_cons]
          rfl
        · rw [if_neg hrow, if_neg fun hall => hrow (hwords.mp hall).2]
          rfl
      · rw [if_neg hentry, if_neg fun hall => hentry (hwords.mp hall).1]
        rfl

/-! ## All rows -/

/-- The best sums from the cells of the first row, folded from the lowest row up. -/
def bestSums (rows : List (List Nat)) : Checked (List Nat) :=
  rows.reverse.foldlM (fun best row => liftRow row best) []

theorem bestSums_cons (row : List Nat) (rows : List (List Nat)) :
    bestSums (row :: rows) = bestSums rows >>= liftRow row := by
  rw [bestSums, List.reverse_cons, List.foldlM_append, ← bestSums]
  simp

/-- Either the cells of the first row hold the greatest sums of their paths, all of them machine
words, or the fold stopped at a sum and some path from the first row is too heavy. -/
theorem bestSums_run (hwidening : Widening height rows) :
    (∃ best, bestSums rows = .ok best ∧ ∀ position ≤ height,
        best.getD position 0 = heaviest rows position ∧ heaviest rows position < word) ∨
      (bestSums rows = .error .add ∧ ∃ position ≤ height, word ≤ heaviest rows position) := by
  induction rows generalizing height with
  | nil =>
      have hword : 0 < word := by decide
      exact .inl ⟨[], rfl, fun position _ => ⟨rfl, hword⟩⟩
  | cons row rows ih =>
      rcases ih hwidening.2 with ⟨best, hbest, hcells⟩ | ⟨hfault, below, hbelow, hheavy⟩
      · have hlifted (position : Nat) (hposition : position ≤ height) :
            (liftedRow row best)[position]? = some (heaviest (row :: rows) position) := by
          obtain ⟨entry, hentry⟩ := exists_entry hwidening hposition
          rw [liftedRow, List.getElem?_mapIdx, hentry, heaviest_cons hentry,
            (hcells position (by omega)).1, (hcells (position + 1) (by omega)).1]
          rfl
        have hstep : bestSums (row :: rows) = liftRow row best := by
          rw [bestSums_cons, hbest]
          rfl
        rw [hstep, liftRow_eq]
        by_cases hwords : ∀ sum ∈ liftedRow row best, sum < word
        · refine .inl ⟨liftedRow row best, if_pos hwords, ?_⟩
          intro position hposition
          have hcell := hlifted position hposition
          exact ⟨by rw [List.getD_eq_getElem?_getD, hcell, Option.getD_some],
            hwords _ (List.mem_of_getElem? hcell)⟩
        · refine .inr ⟨if_neg hwords, ?_⟩
          push Not at hwords
          obtain ⟨sum, hsum, hpast⟩ := hwords
          obtain ⟨position, hcell⟩ := List.mem_iff_getElem?.mp hsum
          have hposition : position ≤ height := by
            have hinside := (List.getElem?_eq_some_iff.mp hcell).1
            rw [liftedRow, List.length_mapIdx, hwidening.1] at hinside
            omega
          obtain rfl := Option.some.inj (hcell.symm.trans (hlifted position hposition))
          exact ⟨position, hposition, hpast⟩
      · obtain ⟨position, hposition, hle⟩ := heaviest_le_above row rows hbelow
        refine .inr ⟨?_, position, hposition, hheavy.trans hle⟩
        rw [bestSums_cons, hfault]
        rfl

/-- The greatest sum of a path from the top of a triangle to its lowest row is returned if it is
a machine word, and otherwise an addition overflows.  A triangle without rows has one path, whose
sum is zero. -/
theorem finds_heaviest_path (triangle : Triangle) :
    ∃ greatest, IsGreatest (pathSums triangle.rows 0) greatest ∧
      maxPathSum triangle = (if greatest < word then .ok greatest else .error .add) ∧
      (triangle.rows = [] → greatest = 0) := by
  refine ⟨heaviest triangle.rows 0, heaviest_isGreatest triangle.widening (Nat.le_refl 0), ?_, ?_⟩
  · have hfold : maxPathSum triangle = (bestSums triangle.rows).map (List.headD · 0) := by
      rw [maxPathSum, ← bestSums]
      cases bestSums triangle.rows <;> rfl
    rw [hfold]
    rcases bestSums_run triangle.widening with ⟨best, hbest, hcells⟩ | ⟨hfault, top, htop, hheavy⟩
    · obtain ⟨hcell, hword⟩ := hcells 0 (Nat.le_refl 0)
      rw [hbest, if_pos hword, ← hcell]
      cases best <;> rfl
    · obtain rfl : top = 0 := Nat.le_zero.mp htop
      rw [hfault, if_neg (Nat.not_lt.mpr hheavy)]
      rfl
  · intro hempty
    rw [hempty, heaviest]

/-- The path 3, 7, 4, 9 is the heaviest one. -/
example : maxPathSum ⟨[[3], [7, 4], [2, 4, 6], [8, 5, 9, 3]], by simp [Widening]⟩ = .ok 23 := by
  decide

end NumberPuzzles.TrianglePath
