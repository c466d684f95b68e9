import Mathlib.Order.Bounds.Basic
import NumberPuzzles.Fault
import NumberPuzzles.Progression

/-!
# Walking a progression with a state

A walk that never meets a fault folds the members in order, whatever it does to its state
on the way, as long as each visit leaves the state fit for the next one.  Filtering and
searching are walks of that kind; what a search finds is the least member that passes.  A
walk without such a state is the fold of the listed members.
-/

namespace NumberPuzzles.Progression

variable {σ ε α : Type} {fit : σ → Prop} {step : Nat}

@[simp]
theorem mem_toList_below {first limit member : Nat} :
    member ∈ (below first limit).toList ↔ first ≤ member ∧ member < limit := by
  simp only [toList, below, List.mem_range'_1]
  omega

@[simp]
theorem mem_toList_inclusive {first last member : Nat} :
    member ∈ (inclusive first last).toList ↔ first ≤ member ∧ member ≤ last := by
  simp only [toList, inclusive, List.mem_range'_1]
  omega

theorem mem_toList_stride {first limit step member : Nat} (hstep : 0 < step) :
    member ∈ (stride first limit step).toList ↔
      first ≤ member ∧ member < limit ∧ step ∣ member - first := by
  simp only [toList, stride, List.mem_range']
  constructor
  · rintro ⟨index, hindex, rfl⟩
    rw [Nat.lt_div_iff_mul_lt hstep] at hindex
    have hmember : step * index < limit - first := by
      rw [Nat.mul_comm]
      omega
    refine ⟨Nat.le_add_right _ _, by omega, ?_⟩
    rw [Nat.add_sub_cancel_left]
    exact Nat.dvd_mul_right step index
  · rintro ⟨hfirst, hlimit, index, hindex⟩
    refine ⟨index, ?_, by omega⟩
    rw [Nat.lt_div_iff_mul_lt hstep, Nat.mul_comm]
    omega

theorem pairwise_toList {numbers : Progression} (hstep : 0 < numbers.step) :
    numbers.toList.Pairwise (· < ·) :=
  List.pairwise_lt_range' numbers.step hstep

theorem foldFrom_eq_foldlM {m : Type → Type} [Monad m] (visit : α → Nat → m α)
    (count current : Nat) (value : α) :
    foldFrom visit step count current value =
      (List.range' current count step).foldlM visit value := by
  induction count generalizing current value with
  | zero => rfl
  | succ count ih => simp only [foldFrom, List.range'_succ, List.foldlM_cons, ih]

/-- Visits that each give a known result and leave the state fit add up to a fold. -/
theorem foldlM_run {β : Type} {visit : α → β → Run σ ε α} {result : α → β → α} {members : List β}
    (hvisit : ∀ value, ∀ member ∈ members, ∀ state, fit state →
      ∃ after, (visit value member).run.run state = (.ok (result value member), after) ∧ fit after)
    (value : α) {state : σ} (hfit : fit state) :
    ∃ after, (members.foldlM visit value).run.run state =
        (.ok (members.foldl result value), after) ∧ fit after := by
  induction members generalizing value state with
  | nil => exact ⟨state, rfl, hfit⟩
  | cons member members ih =>
      obtain ⟨middle, hfirst, hmiddle⟩ := hvisit value member List.mem_cons_self state hfit
      have hlater := ih (fun value later hlater => hvisit value later
        (List.mem_cons_of_mem member hlater)) (result value member) hmiddle
      obtain ⟨after, hrest, hafter⟩ := hlater
      exact ⟨after, by rw [List.foldlM_cons, Run.run_bind_ok hfirst]; exact hrest, hafter⟩

theorem foldFrom_run {visit : α → Nat → Run σ ε α} {result : α → Nat → α} {count current : Nat}
    (hvisit : ∀ value, ∀ member ∈ List.range' current count step, ∀ state, fit state →
      ∃ after, (visit value member).run.run state = (.ok (result value member), after) ∧ fit after)
    (value : α) {state : σ} (hfit : fit state) :
    ∃ after, (foldFrom visit step count current value).run.run state =
        (.ok ((List.range' current count step).foldl result value), after) ∧ fit after := by
  rw [foldFrom_eq_foldlM]
  exact foldlM_run hvisit value hfit

/-- Visits that each take what holds at their member to the next one take it past the last. -/
theorem foldFrom_keeps {visit : α → Nat → Run σ ε α} {holds : Nat → α → σ → Prop}
    {count current : Nat}
    (hvisit : ∀ member ∈ List.range' current count step, ∀ value state, holds member value state →
      ∃ next after, (visit value member).run.run state = (.ok next, after) ∧
        holds (member + step) next after)
    {value : α} {state : σ} (hcurrent : holds current value state) :
    ∃ last after, (foldFrom visit step count current value).run.run state = (.ok last, after) ∧
      holds (current + step * count) last after := by
  induction count generalizing current value state with
  | zero => exact ⟨value, state, rfl, hcurrent⟩
  | succ count ih =>
      rw [List.range'_succ] at hvisit
      obtain ⟨next, middle, hfirst, hnext⟩ :=
        hvisit current List.mem_cons_self value state hcurrent
      obtain ⟨last, after, hrest, hlast⟩ :=
        ih (fun member hmember => hvisit member (List.mem_cons_of_mem current hmember)) hnext
      refine ⟨last, after, ?_, ?_⟩
      · rw [foldFrom, Run.run_bind_ok hfirst]
        exact hrest
      · rwa [Nat.mul_succ, Nat.add_comm (step * count), ← Nat.add_assoc]

theorem foldl_keep (test : Nat → Bool) (members kept : List Nat) :
    members.foldl (fun kept member => if test member then member :: kept else kept) kept =
      (members.filter test).reverse ++ kept := by
  induction members generalizing kept with
  | nil => rfl
  | cons member members ih =>
      rw [List.foldl_cons, ih, List.filter_cons]
      split
      · rw [List.reverse_cons, List.append_assoc, List.singleton_append]
      · rfl

/-- Tests that each give a known answer and leave the state fit filter the members. -/
theorem filterM_run {test : Nat → Run σ ε Bool} {passes : Nat → Bool} {numbers : Progression}
    (htest : ∀ member ∈ numbers.toList, ∀ state, fit state →
      ∃ after, (test member).run.run state = (.ok (passes member), after) ∧ fit after)
    {state : σ} (hfit : fit state) :
    ∃ after, (numbers.filterM test).run.run state =
        (.ok (numbers.toList.filter passes), after) ∧ fit after := by
  have hvisit : ∀ kept, ∀ member ∈ numbers.toList, ∀ state, fit state → ∃ after,
      (do if ← test member then pure (member :: kept) else pure kept : Run σ ε (List Nat)).run.run
        state = (.ok (if passes member then member :: kept else kept), after) ∧ fit after := by
    intro kept member hmember state hfit
    obtain ⟨after, hrun, hafter⟩ := htest member hmember state hfit
    refine ⟨after, ?_, hafter⟩
    rw [Run.run_bind_ok hrun]
    split
    · rfl
    · rfl
  obtain ⟨after, hrun, hafter⟩ := foldFrom_run hvisit [] hfit
  refine ⟨after, ?_, hafter⟩
  rw [filterM, foldM, Run.run_bind_ok hrun, Run.run_pure, foldl_keep, List.append_nil,
    List.reverse_reverse]
  rfl

/-- A search whose tests each give a known answer and leave the state fit ends with the first
member that passes. -/
theorem findFrom_run {test : Nat → Run σ ε Bool} {passes : Nat → Bool} {count current : Nat}
    (htest : ∀ member ∈ List.range' current count step, ∀ state, fit state →
      ∃ after, (test member).run.run state = (.ok (passes member), after) ∧ fit after)
    {state : σ} (hfit : fit state) :
    ∃ after, (findFrom test step count current).run.run state =
        (.ok ((List.range' current count step).find? passes), after) ∧ fit after := by
  induction count generalizing current state with
  | zero => exact ⟨state, rfl, hfit⟩
  | succ count ih =>
      rw [List.range'_succ] at htest ⊢
      obtain ⟨middle, hfirst, hmiddle⟩ := htest current List.mem_cons_self state hfit
      rw [findFrom, Run.run_bind_ok hfirst]
      cases hpasses : passes current with
      | true =>
          rw [List.find?_cons_of_pos hpasses]
          exact ⟨middle, rfl, hmiddle⟩
      | false =>
          rw [List.find?_cons_of_neg (by simp [hpasses])]
          exact ih (fun member hmember => htest member (List.mem_cons_of_mem current hmember))
            hmiddle

theorem findM?_run {test : Nat → Run σ ε Bool} {passes : Nat → Bool} {numbers : Progression}
    (htest : ∀ member ∈ numbers.toList, ∀ state, fit state →
      ∃ after, (test member).run.run state = (.ok (passes member), after) ∧ fit after)
    {state : σ} (hfit : fit state) :
    ∃ after, (numbers.findM? test).run.run state =
        (.ok (numbers.toList.find? passes), after) ∧ fit after :=
  findFrom_run htest hfit

/-- The first member that passes is the least one. -/
theorem find?_eq_some_iff {numbers : Progression} (hstep : 0 < numbers.step)
    {passes : Nat → Bool} {member : Nat} :
    numbers.toList.find? passes = some member ↔
      IsLeast {other | other ∈ numbers.toList ∧ passes other = true} member := by
  have hsorted := pairwise_toList hstep
  rw [List.find?_eq_some_iff_append]
  constructor
  · rintro ⟨hpasses, front, back, hmembers, hfront⟩
    rw [hmembers] at hsorted ⊢
    refine ⟨⟨by simp, hpasses⟩, ?_⟩
    rintro other ⟨hother, hotherPasses⟩
    rcases List.mem_append.mp hother with hother | hother
    · exact absurd (hfront other hother) (by simp [hotherPasses])
    · rcases List.mem_cons.mp hother with rfl | hother
      · exact le_rfl
      · exact (List.rel_of_pairwise_cons (List.pairwise_append.mp hsorted).2.1 hother).le
  · rintro ⟨⟨hmember, hpasses⟩, hleast⟩
    obtain ⟨front, back, hmembers⟩ := List.append_of_mem hmember
    refine ⟨hpasses, front, back, hmembers, ?_⟩
    rw [hmembers] at hsorted hleast
    intro other hother
    have hbefore : other < member :=
      (List.pairwise_append.mp hsorted).2.2 other hother member List.mem_cons_self
    by_contra hotherPasses
    exact absurd (hleast ⟨List.mem_append_left _ hother, by simpa using hotherPasses⟩)
      (Nat.not_le.mpr hbefore)

/-! ## Walks in any monad -/

section Listed

variable {m : Type → Type} [Monad m]

/-- A walk is the fold of the members as they are listed. -/
@[simp]
theorem foldM_eq_foldlM (numbers : Progression) (value : α) (visit : α → Nat → m α) :
    numbers.foldM value visit = numbers.toList.foldlM visit value :=
  foldFrom_eq_foldlM visit numbers.count numbers.start value

variable [LawfulMonad m]

/-- Steps that each have a known result and no effect fold to the result of them all. -/
theorem foldlM_pure {visit : α → Nat → m α} {result : α → Nat → α} {members : List Nat}
    (hvisit : ∀ value, ∀ member ∈ members, visit value member = pure (result value member))
    (value : α) : members.foldlM visit value = pure (members.foldl result value) := by
  induction members generalizing value with
  | nil => rfl
  | cons member members ih =>
      rw [List.foldlM_cons, hvisit value member List.mem_cons_self, pure_bind, List.foldl_cons]
      exact ih (fun value member hmember => hvisit value member
        (List.mem_cons_of_mem _ hmember)) (result value member)

/-- Tests that each give a known answer and have no effect filter the members. -/
theorem filterM_pure {test : Nat → m Bool} {passes : Nat → Bool} {numbers : Progression}
    (htest : ∀ member ∈ numbers.toList, test member = pure (passes member)) :
    numbers.filterM test = pure (numbers.toList.filter passes) := by
  have hvisit : ∀ kept : List Nat, ∀ member ∈ numbers.toList,
      (do if ← test member then pure (member :: kept) else pure kept) =
        (pure (if passes member then member :: kept else kept) : m (List Nat)) := by
    intro kept member hmember
    rw [htest member hmember, pure_bind]
    split
    · rfl
    · rfl
  rw [filterM, foldM_eq_foldlM, foldlM_pure hvisit, pure_bind, foldl_keep, List.append_nil,
    List.reverse_reverse]

end Listed

@[simp]
theorem fold_eq (numbers : Progression) (value : α) (visit : α → Nat → α) :
    numbers.fold value visit = numbers.toList.foldl visit value :=
  (foldM_eq_foldlM (m := Id) numbers value visit).trans (foldlM_pure (fun _ _ _ => rfl) value)

@[simp]
theorem filter_eq (numbers : Progression) (test : Nat → Bool) :
    numbers.filter test = numbers.toList.filter test :=
  filterM_pure (m := Id) fun _ _ => rfl

end NumberPuzzles.Progression
