import Mathlib.Data.Finset.Sort
import Mathlib.Data.Prod.Lex
import NumberPuzzles.Arrangement.Walk
import NumberPuzzles.Proofs.Arrangement.Count
import NumberPuzzles.Proofs.Arrangement.Neighbour
import NumberPuzzles.Proofs.Source

/-!
# A walk meets every arrangement once

Both directions are handled together: each starts at the arrangement that nothing
precedes in its order and moves to the one that follows with none between, so the
arrangements that it hands out are all of them, in its order.  The walk ends because
there are finitely many.
-/

namespace NumberPuzzles.Walk

open scoped List
open Arrangement

variable {α : Type} [LinearOrder α]

def Precedes (direction : Direction) (left right : List α) : Prop :=
  match direction with
  | .ascending => left < right
  | .descending => right < left

theorem Precedes.asymm {direction : Direction} {left right : List α}
    (hprecedes : Precedes direction left right) : ¬ Precedes direction right left := by
  cases direction with
  | ascending => exact lt_asymm hprecedes
  | descending => exact lt_asymm hprecedes

/-- The new arrangement follows the old one, with none between. -/
structure Follows (direction : Direction) (old new : List α) : Prop where
  perm : new ~ old
  precedes : Precedes direction old new
  none_between : ∀ other : List α, other ~ old →
    ¬ (Precedes direction old other ∧ Precedes direction other new)

/-- A step ends the walk at the last arrangement, or leads to the one that follows. -/
theorem step_run_cases (direction : Direction) (old : List α) :
    ((step direction).run.run old.toArray = (.ok false, old.toArray) ∧
        ∀ other, other ~ old → ¬ Precedes direction old other) ∨
      ∃ new : List α, (step direction).run.run old.toArray = (.ok true, new.toArray) ∧
        Follows direction old new := by
  cases direction with
  | ascending =>
      rcases next_run_cases old.toArray with ⟨hfalling, hrun⟩ | ⟨moved, hrun, hexchange⟩
      · refine .inl ⟨hrun, ?_⟩
        intro other hperm
        exact (le_of_pairwise_ge hfalling hperm).not_gt
      · have hsuccessor := hexchange.isSuccessor
        exact .inr ⟨moved.toList, hrun, hsuccessor.perm, hsuccessor.lt,
          hsuccessor.none_between⟩
  | descending =>
      rcases previous_run_cases old.toArray with ⟨hrising, hrun⟩ | ⟨moved, hrun, hsuccessor⟩
      · refine .inl ⟨hrun, ?_⟩
        intro other hperm
        exact (le_of_pairwise_le hrising hperm).not_gt
      · refine .inr ⟨moved.toList, hrun, hsuccessor.perm.symm, hsuccessor.lt, ?_⟩
        intro other hperm hbetween
        exact hsuccessor.none_between other (hperm.trans hsuccessor.perm) hbetween.symm

theorem sorted_pairwise (entries : List α) : (sorted entries).Pairwise (· ≤ ·) := by
  have hmerge : (sorted entries).Pairwise fun left right => (!decide (right < left)) = true := by
    apply List.pairwise_mergeSort
    · intro first second third hfirst hsecond
      simp only [Bool.not_eq_true', decide_eq_false_iff_not, not_lt] at hfirst hsecond ⊢
      exact hfirst.trans hsecond
    · intro left right
      simpa using le_total left right
  simpa using hmerge

theorem sortedDown_pairwise (entries : List α) : (sortedDown entries).Pairwise (· ≥ ·) :=
  sorted_pairwise (α := αᵒᵈ) entries

/-- A walk starts at the arrangement that none precedes. -/
theorem start_eq (direction : Direction) (entries : List α) :
    ∃ first : List α, start direction entries = ⟨some first.toArray, direction⟩ ∧
      first ~ entries ∧ ∀ other, other ~ entries → ¬ Precedes direction other first := by
  cases direction with
  | ascending =>
      have hperm : sorted entries ~ entries := List.mergeSort_perm entries _
      refine ⟨sorted entries, rfl, hperm, ?_⟩
      intro other hother
      exact (le_of_pairwise_le (sorted_pairwise entries) (hother.trans hperm.symm)).not_gt
  | descending =>
      have hperm : sortedDown entries ~ entries := List.mergeSort_perm entries _
      refine ⟨sortedDown entries, rfl, hperm, ?_⟩
      intro other hother
      exact (le_of_pairwise_ge (sortedDown_pairwise entries) (hother.trans hperm.symm)).not_gt

/-! ## From one step to the whole walk -/

@[simp]
theorem answerAt_ended (direction : Direction) (position : Nat) :
    Source.answerAt next position (⟨none, direction⟩ : Walk α) = .ok none := by
  induction position with
  | zero => rfl
  | succ position ih => exact ih

/-- A walk hands out a listing in which each step leads from one entry to the next and
the last step ends the walk, and nothing after it.  The induction is on the listing. -/
theorem answerAt_listing {direction : Direction} {first : List α} {rest : List (List α)}
    (hsteps : (first :: rest).IsChain fun old new =>
      (step direction).run.run old.toArray = (.ok true, new.toArray))
    (hstop : ∀ last ∈ (first :: rest).getLast?,
      (step direction).run.run last.toArray = (.ok false, last.toArray))
    (position : Nat) :
    Source.answerAt next position ⟨some first.toArray, direction⟩ =
      .ok (first :: rest)[position]? := by
  induction rest generalizing first position with
  | nil =>
      have hrun : (next.run.run ⟨some first.toArray, direction⟩ : _ × Walk α) =
          (.ok (some first), ⟨none, direction⟩) := by
        change next ⟨some first.toArray, direction⟩ = _
        simp only [next, hstop first rfl]
      cases position with
      | zero => rw [Source.answerAt_zero, hrun]; rfl
      | succ position =>
          rw [Source.answerAt_succ, hrun, answerAt_ended]
          rfl
  | cons second rest ih =>
      obtain ⟨hstep, hsteps⟩ := List.isChain_cons_cons.mp hsteps
      have hrun : (next.run.run ⟨some first.toArray, direction⟩ : _ × Walk α) =
          (.ok (some first), ⟨some second.toArray, direction⟩) := by
        change next ⟨some first.toArray, direction⟩ = _
        simp only [next, hstep]
      cases position with
      | zero => rw [Source.answerAt_zero, hrun]; rfl
      | succ position =>
          rw [Source.answerAt_succ, hrun, ih hsteps (by simpa using hstop)]
          rfl

/-- The arrangements of some entries, each once, in the order of a direction. -/
structure Lists (direction : Direction) (entries : List α) (listing : List (List α)) : Prop where
  ordered : listing.Pairwise (Precedes direction)
  complete : ∀ other, other ∈ listing ↔ other ~ entries

/-- In an ordered listing, what an arrangement precedes stands behind it. -/
theorem Lists.mem_of_precedes {direction : Direction} {entries : List α}
    {front back : List (List α)} {old new : List α}
    (hlists : Lists direction entries (front ++ old :: back)) (hperm : new ~ old)
    (hprecedes : Precedes direction old new) : new ∈ back := by
  obtain ⟨-, -, hfront⟩ := List.pairwise_append.mp hlists.ordered
  have hold : old ~ entries := (hlists.complete old).mp (by simp)
  have hnew : new ∈ front ++ old :: back :=
    (hlists.complete new).mpr (hperm.trans hold)
  rcases List.mem_append.mp hnew with hnew | hnew
  · exact absurd hprecedes (hfront new hnew old List.mem_cons_self).asymm
  rcases List.mem_cons.mp hnew with rfl | hnew
  · exact absurd hprecedes hprecedes.asymm
  · exact hnew

/-- In an ordered listing, the arrangement that follows one is the next in the listing. -/
theorem Lists.eq_of_follows {direction : Direction} {entries : List α}
    {front back : List (List α)} {old listed new : List α}
    (hlists : Lists direction entries (front ++ old :: listed :: back))
    (hfollows : Follows direction old new) : new = listed := by
  obtain ⟨-, hbehind, -⟩ := List.pairwise_append.mp hlists.ordered
  obtain ⟨hold, hback⟩ := List.pairwise_cons.mp hbehind
  have hnew : new ∈ listed :: back :=
    hlists.mem_of_precedes hfollows.perm hfollows.precedes
  rcases List.mem_cons.mp hnew with rfl | hnew
  · rfl
  · have hmember : old ~ entries := (hlists.complete old).mp (by simp)
    have hlisted : listed ~ old :=
      ((hlists.complete listed).mp (by simp)).trans hmember.symm
    have hbetween := (List.pairwise_cons.mp hback).1 new hnew
    exact absurd ⟨hold listed List.mem_cons_self, hbetween⟩
      (hfollows.none_between listed hlisted)

/-- Each step leads from one arrangement of an ordered listing to the next in it. -/
theorem Lists.step_of_adjacent {direction : Direction} {entries : List α}
    {front back : List (List α)} {old listed : List α}
    (hlists : Lists direction entries (front ++ old :: listed :: back)) :
    (step direction).run.run old.toArray = (.ok true, listed.toArray) := by
  rcases step_run_cases direction old with ⟨-, hend⟩ | ⟨new, hrun, hfollows⟩
  · obtain ⟨-, hbehind, -⟩ := List.pairwise_append.mp hlists.ordered
    have hprecedes : Precedes direction old listed :=
      (List.pairwise_cons.mp hbehind).1 listed List.mem_cons_self
    have hold : old ~ entries := (hlists.complete old).mp (by simp)
    have hlisted : listed ~ entries := (hlists.complete listed).mp (by simp)
    exact absurd hprecedes (hend listed (hlisted.trans hold.symm))
  · rw [hrun, hlists.eq_of_follows hfollows]

theorem Lists.step_of_last {direction : Direction} {entries : List α}
    {front : List (List α)} {last : List α}
    (hlists : Lists direction entries (front ++ [last])) :
    (step direction).run.run last.toArray = (.ok false, last.toArray) := by
  rcases step_run_cases direction last with ⟨hrun, -⟩ | ⟨new, -, hfollows⟩
  · exact hrun
  · have hnew := hlists.mem_of_precedes hfollows.perm hfollows.precedes
    cases hnew

/-- A walk hands out the listing of its arrangements in its direction. -/
theorem answerAt_start {direction : Direction} {entries : List α} {listing : List (List α)}
    (hlists : Lists direction entries listing) (position : Nat) :
    Source.answerAt next position (start direction entries) = .ok listing[position]? := by
  obtain ⟨first, hstart, hperm, hfirst⟩ := start_eq direction entries
  have hmember : first ∈ listing := (hlists.complete first).mpr hperm
  cases listing with
  | nil => cases hmember
  | cons head rest =>
      have hhead : head = first := by
        rcases List.mem_cons.mp hmember with hsame | hrest
        · exact hsame.symm
        · have hbefore := (List.pairwise_cons.mp hlists.ordered).1 first hrest
          have hentries : head ~ entries := (hlists.complete head).mp List.mem_cons_self
          exact absurd hbefore (hfirst head hentries)
      subst hhead
      rw [hstart]
      apply answerAt_listing
      · rw [List.isChain_iff_forall_rel_of_append_cons_cons]
        intro old listed front back hsplit
        rw [hsplit] at hlists
        exact hlists.step_of_adjacent
      · intro last hlast
        obtain ⟨front, hfront⟩ := List.getLast?_eq_some_iff.mp hlast
        rw [hfront] at hlists
        exact hlists.step_of_last

def ascendingListing (entries : List α) : List (List α) :=
  (arrangements entries).sort (· ≤ ·)

theorem ascendingListing_lists (entries : List α) :
    Lists .ascending entries (ascendingListing entries) where
  ordered := (Finset.sortedLT_sort _).pairwise
  complete other := by simp [ascendingListing]

theorem reverse_ascendingListing_lists (entries : List α) :
    Lists .descending entries (ascendingListing entries).reverse where
  ordered := List.pairwise_reverse.mpr (ascendingListing_lists entries).ordered
  complete other := by simp [ascendingListing]

/-- The upward walk through some entries hands out their arrangements, each once, in
ascending order, as many as the factorial of their number divided by the factorials of
their multiplicities, and then nothing for ever; the downward walk hands out the same
in reverse. -/
theorem walks_list_arrangements (entries : List α) :
    ∃ listing : List (List α),
      listing.Pairwise (· < ·) ∧
      (∀ other, other ∈ listing ↔ other ~ entries) ∧
      listing.length * ∏ entry ∈ entries.toFinset, (entries.count entry).factorial =
        entries.length.factorial ∧
      (∀ position,
        Source.answerAt next position (start .ascending entries) = .ok listing[position]?) ∧
      (∀ position, Source.answerAt next position (start .descending entries) =
        .ok listing.reverse[position]?) := by
  have hlists := ascendingListing_lists entries
  have hcount : (ascendingListing entries).length = (arrangements entries).card :=
    Finset.length_sort _
  refine ⟨ascendingListing entries, hlists.ordered, hlists.complete, ?_, ?_, ?_⟩
  · rw [hcount]
    exact card_arrangements_mul entries
  · intro position
    exact answerAt_start hlists position
  · intro position
    exact answerAt_start (reverse_ascendingListing_lists entries) position

end NumberPuzzles.Walk
