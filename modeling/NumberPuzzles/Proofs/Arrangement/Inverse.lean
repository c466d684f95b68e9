import NumberPuzzles.Proofs.Arrangement.Rank

/-!
# Moves up and down undo each other

A move up leads to the arrangement next above and a move down to the one next below, so
both say the same about a pair of arrangements, read from its two ends.  The number of
arrangements before the current one grows by one with a move up and shrinks by one with a
move down, and it tells the arrangements of the same entries apart.  So where a sequence of
moves ends depends on how many more of them go up than down, and on nothing else.
-/

namespace NumberPuzzles.Arrangement

open scoped List

variable {α : Type} [LinearOrder α]

/-! ## Neighbours determine each other -/

theorem IsSuccessor.old_unique {first second new : List α} (hfirst : IsSuccessor first new)
    (hsecond : IsSuccessor second new) : first = second := by
  have hperm : second ~ first := hsecond.perm.symm.trans hfirst.perm
  rcases lt_trichotomy first second with hless | hsame | hless
  · exact absurd ⟨hless, hsecond.lt⟩ (hfirst.none_between second hperm)
  · exact hsame
  · exact absurd ⟨hless, hfirst.lt⟩ (hsecond.none_between first hperm.symm)

theorem IsSuccessor.new_unique {old first second : List α} (hfirst : IsSuccessor old first)
    (hsecond : IsSuccessor old second) : first = second := by
  rcases lt_trichotomy first second with hless | hsame | hless
  · exact absurd ⟨hfirst.lt, hless⟩ (hsecond.none_between first hfirst.perm)
  · exact hsame
  · exact absurd ⟨hsecond.lt, hless⟩ (hfirst.none_between second hsecond.perm)

/-- A move up moves exactly to the arrangement next above. -/
theorem next_run_iff {entries moved : Array α} :
    next.run.run entries = (.ok true, moved) ↔ IsSuccessor entries.toList moved.toList := by
  rcases next_run_cases entries with ⟨hfalling, hrun⟩ | ⟨above, hrun, hexchange⟩
  · rw [hrun]
    constructor
    · nofun
    · intro hsuccessor
      exact absurd hsuccessor.lt (le_of_pairwise_ge hfalling hsuccessor.perm).not_gt
  · rw [hrun]
    constructor
    · rintro ⟨⟩
      exact hexchange.isSuccessor
    · intro hsuccessor
      rw [Array.toList_inj.mp (hexchange.isSuccessor.new_unique hsuccessor)]

/-- A move down moves exactly to the arrangement next below. -/
theorem previous_run_iff {entries moved : Array α} :
    previous.run.run entries = (.ok true, moved) ↔
      IsSuccessor moved.toList entries.toList := by
  rcases previous_run_cases entries with ⟨hrising, hrun⟩ | ⟨below, hrun, hbelow⟩
  · rw [hrun]
    constructor
    · nofun
    · intro hsuccessor
      exact absurd hsuccessor.lt (le_of_pairwise_le hrising hsuccessor.perm.symm).not_gt
  · rw [hrun]
    constructor
    · rintro ⟨⟩
      exact hbelow
    · intro hsuccessor
      rw [Array.toList_inj.mp (hbelow.old_unique hsuccessor)]

/-! ## The place of an arrangement -/

/-- How many arrangements of the same entries come before one. -/
def place (entries : List α) : Nat := (arrangementsBelow entries entries).card

theorem IsSuccessor.place_eq {old new : List α} (hsuccessor : IsSuccessor old new) :
    place new = place old + 1 := by
  -- Nothing lies between the two, so only the old one is before the new one but not before
  -- itself.
  have hbelow : arrangementsBelow new new = insert old (arrangementsBelow old old) := by
    ext other
    simp only [Finset.mem_insert, mem_arrangementsBelow, hsuccessor.perm.congr_right other]
    constructor
    · rintro ⟨hperm, hless⟩
      rcases lt_trichotomy other old with hbefore | hsame | hafter
      · exact .inr ⟨hperm, hbefore⟩
      · exact .inl hsame
      · exact absurd ⟨hafter, hless⟩ (hsuccessor.none_between other hperm)
    · rintro (rfl | ⟨hperm, hbefore⟩)
      · exact ⟨List.Perm.refl _, hsuccessor.lt⟩
      · exact ⟨hperm, hbefore.trans hsuccessor.lt⟩
  have hnew : old ∉ arrangementsBelow old old := by
    rw [mem_arrangementsBelow]
    exact fun hmember => lt_irrefl old hmember.2
  rw [place, hbelow, Finset.card_insert_of_notMem hnew, place]

theorem place_lt_place {left right : List α} (hperm : left ~ right) (hless : left < right) :
    place left < place right := by
  refine Finset.card_lt_card (Finset.ssubset_iff_of_subset ?_ |>.mpr ⟨left, ?_, ?_⟩)
  · intro other hother
    rw [mem_arrangementsBelow] at hother ⊢
    exact ⟨hother.1.trans hperm, hother.2.trans hless⟩
  · exact mem_arrangementsBelow.mpr ⟨hperm, hless⟩
  · rw [mem_arrangementsBelow]
    exact fun hmember => lt_irrefl left hmember.2

/-- Arrangements of the same entries with the same place are the same. -/
theorem eq_of_place_eq {left right : List α} (hperm : left ~ right)
    (hplace : place left = place right) : left = right := by
  rcases lt_trichotomy left right with hless | hsame | hless
  · exact absurd hplace (place_lt_place hperm hless).ne
  · exact hsame
  · exact absurd hplace (place_lt_place hperm.symm hless).ne'

/-! ## Moves in sequence -/

/-- Steps that all move, one after the other, lead from one arrangement to another. -/
inductive Moves : List Direction → Array α → Array α → Prop where
  | nil (entries : Array α) : Moves [] entries entries
  | cons {direction : Direction} {directions : List Direction} {entries next moved : Array α}
      (moves : (Walk.step direction).run.run entries = (.ok true, next))
      (rest : Moves directions next moved) : Moves (direction :: directions) entries moved

def netSteps (directions : List Direction) : Int :=
  directions.count .ascending - directions.count .descending

/-- One step keeps the entries and changes the place by one. -/
theorem place_of_step {direction : Direction} {entries moved : Array α}
    (hstep : (Walk.step direction).run.run entries = (.ok true, moved)) :
    moved.toList ~ entries.toList ∧
      (place moved.toList : Int) = place entries.toList + netSteps [direction] := by
  cases direction with
  | ascending =>
      have hsuccessor := next_run_iff.mp hstep
      have hplace := hsuccessor.place_eq
      refine ⟨hsuccessor.perm, ?_⟩
      simp [netSteps, hplace]
  | descending =>
      have hsuccessor := previous_run_iff.mp hstep
      have hplace := hsuccessor.place_eq
      refine ⟨hsuccessor.perm.symm, ?_⟩
      simp [netSteps, hplace]

theorem netSteps_cons (direction : Direction) (directions : List Direction) :
    netSteps (direction :: directions) = netSteps [direction] + netSteps directions := by
  simp only [netSteps, List.count_cons, List.count_nil]
  omega

/-- Steps that all move keep the entries and change the place by their difference. -/
theorem Moves.place_eq {directions : List Direction} {entries moved : Array α}
    (hmoves : Moves directions entries moved) :
    moved.toList ~ entries.toList ∧
      (place moved.toList : Int) = place entries.toList + netSteps directions := by
  induction hmoves with
  | nil entries => exact ⟨List.Perm.refl _, by simp [netSteps]⟩
  | @cons direction directions _ _ _ hstep _ ih =>
      obtain ⟨hfirst, hplace⟩ := place_of_step hstep
      obtain ⟨hrest, hlater⟩ := ih
      refine ⟨hrest.trans hfirst, ?_⟩
      rw [hlater, hplace, netSteps_cons direction directions, Int.add_assoc]

/-- One arrangement moves up to another exactly when the other moves down to the one, with
equal entries and without.  A move down finds no arrangement, and changes nothing, exactly
when no entry falls.  And two sequences of steps that all move end at the same arrangement
if in both as many more go up than down. -/
theorem previous_inverts_next (entries : Array α) :
    (∀ moved, next.run.run entries = (.ok true, moved) ↔
        previous.run.run moved = (.ok true, entries)) ∧
      (entries.toList.Pairwise (· ≤ ·) ∧ previous.run.run entries = (.ok false, entries) ∨
        ¬ entries.toList.Pairwise (· ≤ ·) ∧
          ∃ moved, previous.run.run entries = (.ok true, moved)) ∧
      ∀ first second moved other, Moves first entries moved → Moves second entries other →
        netSteps first = netSteps second → moved = other := by
  refine ⟨?_, ?_, ?_⟩
  · intro moved
    rw [next_run_iff, previous_run_iff]
  · rcases previous_run_cases entries with ⟨hrising, hrun⟩ | ⟨moved, hrun, hsuccessor⟩
    · exact .inl ⟨hrising, hrun⟩
    · refine .inr ⟨?_, moved, hrun⟩
      intro hrising
      exact absurd hsuccessor.lt (le_of_pairwise_le hrising hsuccessor.perm.symm).not_gt
  · intro first second moved other hfirst hsecond hnet
    obtain ⟨hmoved, hplace⟩ := hfirst.place_eq
    obtain ⟨hother, hsame⟩ := hsecond.place_eq
    rw [← hnet, ← hplace] at hsame
    exact Array.toList_inj.mp (eq_of_place_eq (hmoved.trans hother.symm) (by omega))

/-- With two equal entries: up twice and down once leads where up once leads. -/
theorem previous_inverts_next_with_equal_entries :
    Moves [.ascending, .ascending, .descending] #[1, 1, 2] #[1, 2, 1] ∧
      Moves [.ascending] #[1, 1, 2] #[1, 2, 1] ∧
      netSteps [.ascending, .ascending, .descending] = netSteps [.ascending] ∧
      ∀ other, Moves [.ascending, .ascending, .descending] #[1, 1, 2] other →
        other = #[1, 2, 1] := by
  have hup : (Walk.step .ascending).run.run #[1, 1, 2] = (.ok true, #[1, 2, 1]) :=
    next_run_iff.mpr (Exchange.intro [1] 1 [] 2 [] (by decide) (by decide) (by decide)).isSuccessor
  have hagain : (Walk.step .ascending).run.run #[1, 2, 1] = (.ok true, #[2, 1, 1]) :=
    next_run_iff.mpr (Exchange.intro [] 1 [] 2 [1] (by decide) (by decide) (by decide)).isSuccessor
  have hdown : (Walk.step .descending).run.run #[2, 1, 1] = (.ok true, #[1, 2, 1]) :=
    previous_run_iff.mpr (next_run_iff.mp hagain)
  have hthree : Moves [.ascending, .ascending, .descending] #[1, 1, 2] #[1, 2, 1] :=
    .cons hup (.cons hagain (.cons hdown (.nil _)))
  have hone : Moves [.ascending] #[1, 1, 2] #[1, 2, 1] := .cons hup (.nil _)
  refine ⟨hthree, hone, by decide, ?_⟩
  intro other hother
  exact (previous_inverts_next #[1, 1, 2]).2.2 _ _ other _ hother hone (by decide)

end NumberPuzzles.Arrangement
