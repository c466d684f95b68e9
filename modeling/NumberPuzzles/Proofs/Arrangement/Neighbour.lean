import Mathlib.Data.List.Induction
import NumberPuzzles.Arrangement
import NumberPuzzles.Proofs.Arrangement.Lexicographic
import NumberPuzzles.Proofs.Checked

/-!
# Moving to the neighbouring arrangement

The two searches of a move go down the table from its end.  The first keeps the
entries behind it without a rise, so it stops at the last rise; the second keeps
the entries behind it at most the pivot, so it stops at the last entry above the
pivot, and it stops before it could leave the table, because the entry just behind
the pivot is above it.  Every position that is read or exchanged is therefore one
that the table has.
-/

namespace NumberPuzzles

namespace Checked

variable {α : Type}

/-- Exchanging two entries changes nothing before, between and behind them. -/
theorem swap_eq {table : Array α} {front middle back : List α} {left right : α}
    (htable : table.toList = front ++ left :: (middle ++ right :: back)) :
    ∃ swapped, swap table front.length (front.length + 1 + middle.length) = .ok swapped ∧
      swapped.toList = front ++ right :: (middle ++ left :: back) := by
  have hsize : table.size = (front ++ left :: (middle ++ right :: back)).length := by
    rw [← htable, Array.length_toList]
  simp only [List.length_append, List.length_cons] at hsize
  have hinside : front.length < table.size ∧
      front.length + 1 + middle.length < table.size := by omega
  have hleft : table[front.length] = left := by
    rw [← Array.getElem_toList]
    simp [htable]
  have hright : table[front.length + 1 + middle.length] = right := by
    rw [← Array.getElem_toList]
    simp [htable, Nat.add_assoc, Nat.add_comm 1]
  refine ⟨_, dif_pos hinside, ?_⟩
  rw [Array.toList_swap, hleft, hright, htable]
  simp [Nat.add_assoc, Nat.add_comm 1]

/-- Turning round from a position on leaves what is before the position. -/
theorem reverseFrom_eq {table : Array α} {front back : List α}
    (htable : table.toList = front ++ back) :
    ∃ turned, reverseFrom table front.length = .ok turned ∧
      turned.toList = front ++ back.reverse := by
  have hsize : table.size = (front ++ back).length := by
    rw [← htable, Array.length_toList]
  rw [List.length_append] at hsize
  refine ⟨_, if_pos (by omega), ?_⟩
  simp [htable, hsize, List.extract_eq_take_drop]

end Checked

namespace Arrangement

open scoped List

variable {α : Type} [LinearOrder α]

abbrev rises (left right : α) : Bool := decide (left < right)

/-- While nothing rises behind a position, the search for the pivot goes down until
the whole table is without a rise or until the last rise. -/
theorem pivotBelow_run {entries : Array α} {front : List α} {entry : α} {tail : List α}
    (hentries : entries.toList = front ++ entry :: tail)
    (hfalling : (entry :: tail).Pairwise (· ≥ ·)) :
    (pivotBelow rises entries front.length = .ok none ∧
        entries.toList.Pairwise (· ≥ ·)) ∨
      ∃ before pivot next behind,
        pivotBelow rises entries front.length = .ok (some before.length) ∧
          entries.toList = before ++ pivot :: next :: behind ∧ pivot < next ∧
          (next :: behind).Pairwise (· ≥ ·) := by
  -- The search goes down the table, so the induction takes entries off its end.
  induction front using List.reverseRecOn generalizing entry tail with
  | nil =>
      refine .inl ⟨rfl, ?_⟩
      rw [hentries]
      exact hfalling
  | append_singleton front left ih =>
      rw [List.append_assoc, List.singleton_append] at hentries
      have hleft : entries.toList[front.length]? = some left := by simp [hentries]
      have hentry : entries.toList[front.length + 1]? = some entry := by
        simp [hentries]
      rw [List.length_append, List.length_singleton]
      simp only [pivotBelow, Checked.entry_eq hleft, Checked.entry_eq hentry, Checked.bind_ok]
      by_cases hrise : left < entry
      · exact .inr ⟨front, left, entry, tail, by simp [hrise, Checked.pure_eq], hentries,
          hrise, hfalling⟩
      · have hbehind : (left :: entry :: tail).Pairwise (· ≥ ·) := by
          refine List.pairwise_cons.mpr ⟨?_, hfalling⟩
          intro other hother
          rcases List.mem_cons.mp hother with rfl | hother
          · exact not_lt.mp hrise
          · exact (List.rel_of_pairwise_cons hfalling hother).trans (not_lt.mp hrise)
        simpa [hrise] using ih hentries hbehind

theorem partnerFrom_stop {entries : Array α} {pivot entry : α} {position : Nat}
    (hentry : entries.toList[position]? = some entry) (hrise : pivot < entry) :
    partnerFrom rises entries pivot position = .ok position := by
  cases position <;>
    simp [partnerFrom, Checked.entry_eq hentry, hrise, Checked.pure_eq]

theorem partnerFrom_step {entries : Array α} {pivot entry : α} {position : Nat}
    (hentry : entries.toList[position + 1]? = some entry) (hsmall : entry ≤ pivot) :
    partnerFrom rises entries pivot (position + 1) =
      partnerFrom rises entries pivot position := by
  simp [partnerFrom, Checked.entry_eq hentry, hsmall.not_gt]

/-- While no entry behind a position is above the pivot, the search for its partner
goes down to the last entry that is.  It does not pass the entry just behind the
pivot, which is above it. -/
theorem partnerFrom_run {entries : Array α} {front : List α} {pivot next : α}
    {behind upper : List α} {entry : α} {lower : List α}
    (hentries : entries.toList = front ++ next :: behind) (hrise : pivot < next)
    (hsplit : next :: behind = upper ++ entry :: lower)
    (hlower : ∀ other ∈ lower, other ≤ pivot) :
    ∃ larger partner smaller, next :: behind = larger ++ partner :: smaller ∧
      pivot < partner ∧ (∀ other ∈ smaller, other ≤ pivot) ∧
      partnerFrom rises entries pivot (front.length + upper.length) =
        .ok (front.length + larger.length) := by
  have hentry : entries.toList[front.length + upper.length]? = some entry := by
    simp [hentries, hsplit]
  induction upper using List.reverseRecOn generalizing entry lower with
  | nil =>
      -- The search has come down to the entry just behind the pivot.
      obtain ⟨rfl, rfl⟩ := List.cons.inj hsplit
      exact ⟨[], next, behind, rfl, hrise, hlower, partnerFrom_stop hentry hrise⟩
  | append_singleton upper above ih =>
      by_cases hpartner : pivot < entry
      · exact ⟨upper ++ [above], entry, lower, hsplit, hpartner, hlower,
          partnerFrom_stop hentry hpartner⟩
      · have hsmall : entry ≤ pivot := not_lt.mp hpartner
        rw [List.length_append, List.length_singleton, ← Nat.add_assoc] at hentry ⊢
        rw [partnerFrom_step hentry hsmall]
        rw [List.append_assoc, List.singleton_append] at hsplit
        apply ih hsplit
        · intro other hother
          rcases List.mem_cons.mp hother with rfl | hother
          · exact hsmall
          · exact hlower other hother
        · simp [hentries, hsplit]

/-- At the last rise of a table, pivot and partner are exchanged without a fault. -/
theorem exchangeAt_run {entries : Array α} {before : List α} {pivot next : α}
    {behind : List α} (hentries : entries.toList = before ++ pivot :: next :: behind)
    (hrise : pivot < next) (hfalling : (next :: behind).Pairwise (· ≥ ·)) :
    ∃ moved, exchangeAt rises entries before.length = .ok moved ∧
      Exchange entries.toList moved.toList := by
  have hpivot : entries.toList[before.length]? = some pivot := by simp [hentries]
  have hsize : entries.size = before.length + 1 + (next :: behind).length := by
    rw [← Array.length_toList, hentries, List.length_append, List.length_cons,
      Nat.add_right_comm, Nat.add_assoc]
  obtain ⟨upper, last, hlast⟩ : ∃ upper last, next :: behind = upper ++ [last] :=
    (List.eq_nil_or_concat' _).resolve_left (List.cons_ne_nil next behind)
  have hfront : entries.toList = (before ++ [pivot]) ++ next :: behind := by simp [hentries]
  obtain ⟨larger, partner, smaller, hsplit, habove, hsmaller, hpartner⟩ :=
    partnerFrom_run hfront hrise hlast (by simp)
  rw [List.length_append, List.length_singleton] at hpartner
  have hstart : Checked.sub entries.size 1 = .ok (before.length + 1 + upper.length) := by
    rw [hlast, List.length_append, List.length_singleton] at hsize
    rw [Checked.sub, if_pos (by omega), hsize, ← Nat.add_assoc, Nat.add_sub_cancel]
  rw [hsplit] at hentries hfalling
  obtain ⟨swapped, hswap, hswapped⟩ := Checked.swap_eq hentries
  have hturn : swapped.toList = (before ++ [partner]) ++ (larger ++ pivot :: smaller) := by
    simp [hswapped]
  obtain ⟨moved, hreverse, hmoved⟩ := Checked.reverseFrom_eq hturn
  rw [List.length_append, List.length_singleton] at hreverse
  refine ⟨moved, ?_, ?_⟩
  · simp only [exchangeAt, Checked.entry_eq hpivot, hstart, hpartner, hswap, hreverse, Checked.bind_ok]
  · rw [hentries, hmoved, List.append_assoc, List.singleton_append]
    exact .intro before pivot larger partner smaller hfalling habove hsmaller

/-- A move up either finds no rise and leaves the table as it is, or exchanges. -/
theorem next_run_cases (entries : Array α) :
    (entries.toList.Pairwise (· ≥ ·) ∧ next.run.run entries = (.ok false, entries)) ∨
      ∃ moved, next.run.run entries = (.ok true, moved) ∧
        Exchange entries.toList moved.toList := by
  have hsearch : (pivotBelow rises entries (entries.size - 1) = .ok none ∧
        entries.toList.Pairwise (· ≥ ·)) ∨
      ∃ before pivot next behind,
        pivotBelow rises entries (entries.size - 1) = .ok (some before.length) ∧
          entries.toList = before ++ pivot :: next :: behind ∧ pivot < next ∧
          (next :: behind).Pairwise (· ≥ ·) := by
    rcases List.eq_nil_or_concat' entries.toList with hempty | ⟨init, last, hlast⟩
    · have hsize : entries.size = 0 := by rw [← Array.length_toList, hempty, List.length_nil]
      refine .inl ⟨by rw [hsize]; rfl, ?_⟩
      rw [hempty]
      exact List.Pairwise.nil
    · have hsize : entries.size - 1 = init.length := by
        rw [← Array.length_toList, hlast, List.length_append, List.length_singleton,
          Nat.add_sub_cancel]
      rw [hsize]
      exact pivotBelow_run hlast (List.pairwise_singleton _ last)
  rcases hsearch with ⟨hnone, hfalling⟩ | ⟨before, pivot, after, behind, hfound, hentries,
    hrise, hfalling⟩
  · refine .inl ⟨hfalling, ?_⟩
    rw [next, advance, Run.run_bind_ok (Run.run_get entries), hnone,
      Run.run_bind_ok (Run.run_lift _ entries)]
    rfl
  · obtain ⟨moved, hmoved, hexchange⟩ := exchangeAt_run hentries hrise hfalling
    refine .inr ⟨moved, ?_, hexchange⟩
    rw [next, advance, Run.run_bind_ok (Run.run_get entries), hfound,
      Run.run_bind_ok (Run.run_lift _ entries)]
    simp only [hmoved]
    rw [Run.run_bind_ok (Run.run_lift _ entries), Run.run_bind_ok (Run.run_set moved entries)]
    rfl

/-- A move down either finds no fall and leaves the table as it is, or leads to the
arrangement next below: it is a move up in the order turned round. -/
theorem previous_run_cases (entries : Array α) :
    (entries.toList.Pairwise (· ≤ ·) ∧
        previous.run.run entries = (.ok false, entries)) ∨
      ∃ moved, previous.run.run entries = (.ok true, moved) ∧
        IsSuccessor moved.toList entries.toList := by
  rcases next_run_cases (α := αᵒᵈ) entries with ⟨hrising, hrun⟩ | ⟨moved, hrun, hexchange⟩
  · exact .inl ⟨hrising, hrun⟩
  · exact .inr ⟨moved, hrun, IsSuccessor.of_dual (α := α) hexchange.isSuccessor⟩

/-- A move up never leaves the table.  Either no entry rises, which makes the
arrangement the greatest of its entries, and it stays as it is and the answer is
false; or some entry rises, and the arrangement becomes the one next above and the
answer is true. -/
theorem next_moves_to_successor (entries : Array α) :
    (entries.toList.Pairwise (· ≥ ·) ∧
        (∀ other, other ~ entries.toList → other ≤ entries.toList) ∧
        next.run.run entries = (.ok false, entries)) ∨
      (¬ entries.toList.Pairwise (· ≥ ·) ∧
        ∃ moved, next.run.run entries = (.ok true, moved) ∧
          IsSuccessor entries.toList moved.toList) := by
  rcases next_run_cases entries with ⟨hfalling, hrun⟩ | ⟨moved, hrun, hexchange⟩
  · refine .inl ⟨hfalling, ?_, hrun⟩
    intro other hperm
    exact le_of_pairwise_ge hfalling hperm
  · have hsuccessor := hexchange.isSuccessor
    refine .inr ⟨?_, moved, hrun, hsuccessor⟩
    intro hfalling
    exact absurd hsuccessor.lt (le_of_pairwise_ge hfalling hsuccessor.perm).not_gt

end Arrangement

end NumberPuzzles
