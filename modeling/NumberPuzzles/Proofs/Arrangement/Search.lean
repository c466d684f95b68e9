import NumberPuzzles.Proofs.Arrangement.Walk

/-!
# Searches through all arrangements

A search visits what a walk hands out, and may visit as many arrangements as a list of that
length can have.  So it never ends for want of visits: it goes through the whole listing, unless
an answer ends it.  The answer that it ends with is the one of the first arrangement, in its
direction, that has any, and collecting the answers keeps them in the order of the walk.
-/

namespace NumberPuzzles.Walk

open scoped List
open Arrangement

variable {α σ β : Type}

/-- The number of visits is the factorial of the number of entries. -/
@[simp]
theorem arrangementBound_eq (count : Nat) : arrangementBound count = count.factorial := by
  induction count with
  | zero => rfl
  | succ count ih => rw [arrangementBound, ih, Nat.factorial_succ]

/-! ## Visiting a listing -/

section Visits

variable {m : Type → Type} [Monad m]

/-- Threads a state through a list of arrangements, until a visit ends it with an answer. -/
def visitEach (visit : σ → List α → m (σ ⊕ β)) : List (List α) → σ → m (σ ⊕ β)
  | [], state => pure (.inl state)
  | entries :: listing, state => do
      match ← visit state entries with
      | .inl state => visitEach visit listing state
      | .inr answer => pure (.inr answer)

variable [LT α] [DecidableLT α] [MonadExceptOf Fault m]

/-- A search with enough visits goes through all that the walk hands out. -/
theorem searchFrom_eq (visit : σ → List α → m (σ ⊕ β)) {listing : List (List α)}
    {visits : Nat} {walk : Walk α} (hvisits : listing.length ≤ visits)
    (hanswers : ∀ position, Source.answerAt next position walk = .ok listing[position]?)
    (state : σ) : searchFrom visit visits walk state = visitEach visit listing state := by
  induction visits generalizing listing walk state with
  | zero =>
      rw [List.length_eq_zero_iff.mp (Nat.le_zero.mp hvisits)]
      rfl
  | succ visits ih =>
      have hrun : next.run.run walk = (.ok listing[0]?, Source.after next 1 walk) :=
        Source.run_of_answerAt (hanswers 0)
      cases listing with
      | nil =>
          rw [searchFrom, hrun]
          rfl
      | cons entries listing =>
          have hlater : ∀ position, Source.answerAt next position (Source.after next 1 walk) =
              .ok listing[position]? :=
            fun position => hanswers (position + 1)
          rw [searchFrom, hrun, visitEach]
          apply bind_congr
          intro outcome
          cases outcome with
          | inl state => exact ih (Nat.le_of_succ_le_succ hvisits) hlater state
          | inr answer => rfl

end Visits

variable [LinearOrder α] {direction : Direction} {entries : List α} {listing : List (List α)}

/-- The arrangements of a listing are different, so there are enough visits for them. -/
theorem Lists.length_le (hlists : Lists direction entries listing) :
    listing.length ≤ arrangementBound entries.length := by
  have hdistinct : listing.Nodup := by
    apply hlists.ordered.imp
    rintro left right hprecedes rfl
    exact hprecedes.asymm hprecedes
  have hmembers : listing ⊆ entries.permutations := by
    intro other hother
    exact List.mem_permutations.mpr ((hlists.complete other).mp hother)
  rw [arrangementBound_eq, ← List.length_permutations]
  exact (List.subperm_of_subset hdistinct hmembers).length_le

/-- A search from the start of a walk goes through the listing of its arrangements. -/
theorem searchFrom_start {m : Type → Type} [Monad m] [MonadExceptOf Fault m]
    (hlists : Lists direction entries listing) (visit : σ → List α → m (σ ⊕ β)) (state : σ) :
    searchFrom visit (arrangementBound entries.length) (start direction entries) state =
      visitEach visit listing state :=
  searchFrom_eq visit hlists.length_le (answerAt_start hlists) state

theorem exists_lists (direction : Direction) (entries : List α) :
    ∃ listing, Lists direction entries listing := by
  cases direction with
  | ascending => exact ⟨_, ascendingListing_lists entries⟩
  | descending => exact ⟨_, reverse_ascendingListing_lists entries⟩

/-! ## The first answer -/

/-- The answer of the first arrangement, in a direction, that has one. -/
def IsFirstAnswer (direction : Direction) (entries : List α) (answer : List α → Option β) :
    Option β → Prop
  | none => ∀ other, other ~ entries → answer other = none
  | some found => ∃ first, first ~ entries ∧ answer first = some found ∧
      ∀ other, other ~ entries → Precedes direction other first → answer other = none

/-- In a listing, the first answer is the answer of the first arrangement that has one. -/
theorem Lists.isFirstAnswer (hlists : Lists direction entries listing)
    (answer : List α → Option β) :
    IsFirstAnswer direction entries answer (listing.findSome? answer) := by
  cases hfound : listing.findSome? answer with
  | none =>
      intro other hother
      exact List.findSome?_eq_none_iff.mp hfound other ((hlists.complete other).mpr hother)
  | some found =>
      obtain ⟨front, first, back, rfl, hanswer, hfront⟩ := List.findSome?_eq_some_iff.mp hfound
      refine ⟨first, (hlists.complete first).mp (by simp), hanswer, ?_⟩
      intro other hother hprecedes
      apply hfront
      -- What precedes the first arrangement stands before it in the listing.
      have hmember : other ∈ front ++ first :: back := (hlists.complete other).mpr hother
      rcases List.mem_append.mp hmember with hbefore | hbehind
      · exact hbefore
      · obtain ⟨-, hordered, -⟩ := List.pairwise_append.mp hlists.ordered
        rcases List.mem_cons.mp hbehind with rfl | hbehind
        · exact absurd hprecedes hprecedes.asymm
        · exact absurd hprecedes ((List.pairwise_cons.mp hordered).1 other hbehind).asymm

section Find

variable {m : Type → Type} [Monad m] [LawfulMonad m]

theorem findM?_eq [MonadExceptOf Fault m] (hlists : Lists direction entries listing)
    (test : List α → m (Option β)) :
    findM? direction entries test = listing.findSomeM? test := by
  simp only [findM?, searchFrom_start hlists]
  clear hlists
  induction listing with
  | nil => exact pure_bind _ _
  | cons first listing ih =>
      rw [List.findSomeM?, ← ih]
      simp only [visitEach, bind_assoc]
      apply bind_congr
      intro answer
      cases answer with
      | none => simp only [pure_bind]
      | some answer => simp only [pure_bind]

omit [LinearOrder α] in
theorem findSomeM?_pure {test : List α → m (Option β)} {answer : List α → Option β}
    (htest : ∀ other ∈ listing, test other = pure (answer other)) :
    listing.findSomeM? test = pure (listing.findSome? answer) := by
  induction listing with
  | nil => rfl
  | cons first listing ih =>
      obtain ⟨hfirst, hrest⟩ := List.forall_mem_cons.mp htest
      rw [List.findSomeM?, hfirst, pure_bind, List.findSome?_cons]
      cases answer first with
      | none => exact ih hrest
      | some found => rfl

/-- Tests without an effect find the first answer. -/
theorem findM?_pure [MonadExceptOf Fault m] {test : List α → m (Option β)}
    {answer : List α → Option β}
    (htest : ∀ other, other ~ entries → test other = pure (answer other)) :
    ∃ found, findM? direction entries test = pure found ∧
      IsFirstAnswer direction entries answer found := by
  obtain ⟨listing, hlists⟩ := exists_lists direction entries
  refine ⟨_, ?_, hlists.isFirstAnswer answer⟩
  rw [findM?_eq hlists]
  apply findSomeM?_pure
  intro other hother
  exact htest other ((hlists.complete other).mp hother)

end Find

section Run

variable {fit : σ → Prop} {test : List α → Run σ Fault (Option β)} {answer : List α → Option β}

omit [LinearOrder α] in
theorem findSomeM?_run
    (htest : ∀ other ∈ listing, ∀ state, fit state →
      ∃ after, (test other).run.run state = (.ok (answer other), after) ∧ fit after)
    {state : σ} (hfit : fit state) :
    ∃ after, (listing.findSomeM? test).run.run state = (.ok (listing.findSome? answer), after) ∧
      fit after := by
  induction listing generalizing state with
  | nil => exact ⟨state, rfl, hfit⟩
  | cons first listing ih =>
      obtain ⟨hfirst, hrest⟩ := List.forall_mem_cons.mp htest
      obtain ⟨middle, hmiddle, hfitMiddle⟩ := hfirst state hfit
      rw [List.findSomeM?, Run.run_bind_ok hmiddle, List.findSome?_cons]
      cases answer first with
      | none => exact ih hrest hfitMiddle
      | some found => exact ⟨middle, rfl, hfitMiddle⟩

/-- Tests that each give a known answer and leave the state fit find the first answer. -/
theorem findM?_run
    (htest : ∀ other, other ~ entries → ∀ state, fit state →
      ∃ after, (test other).run.run state = (.ok (answer other), after) ∧ fit after)
    {state : σ} (hfit : fit state) :
    ∃ found after, (findM? direction entries test).run.run state = (.ok found, after) ∧
      IsFirstAnswer direction entries answer found ∧ fit after := by
  obtain ⟨listing, hlists⟩ := exists_lists direction entries
  have hmembers : ∀ other ∈ listing, ∀ state, fit state →
      ∃ after, (test other).run.run state = (.ok (answer other), after) ∧ fit after :=
    fun other hother => htest other ((hlists.complete other).mp hother)
  obtain ⟨after, hrun, hafter⟩ := findSomeM?_run hmembers hfit
  rw [← findM?_eq hlists] at hrun
  exact ⟨_, after, hrun, hlists.isFirstAnswer answer, hafter⟩

end Run

/-! ## All answers -/

section Collect

variable {m : Type → Type} [Monad m] [LawfulMonad m] (answer : List α → Option β)

omit [LinearOrder α] in
/-- Visits that put their answers in front keep those of the whole listing, turned round. -/
theorem visitEach_keeps {γ : Type} {visit : List β → List α → m (List β ⊕ γ)}
    (hvisit : ∀ other ∈ listing, ∀ answers,
      visit answers other = pure (.inl ((answer other).toList ++ answers)))
    (answers : List β) :
    visitEach visit listing answers =
      pure (.inl ((listing.filterMap answer).reverse ++ answers)) := by
  induction listing generalizing answers with
  | nil => rfl
  | cons first listing ih =>
      obtain ⟨hfirst, hrest⟩ := List.forall_mem_cons.mp hvisit
      rw [visitEach, hfirst, pure_bind]
      cases hanswer : answer first with
      | none =>
          rw [List.filterMap_cons_none hanswer]
          exact ih hrest answers
      | some found =>
          rw [List.filterMap_cons_some hanswer, List.reverse_cons, List.append_assoc]
          exact ih hrest (found :: answers)

/-- Tests without an effect collect their answers in the order of the walk. -/
theorem collectM_pure [MonadExceptOf Fault m] {test : List α → m (Option β)}
    (hlists : Lists direction entries listing)
    (htest : ∀ other, other ~ entries → test other = pure (answer other)) :
    collectM direction entries test = pure (listing.filterMap answer) := by
  simp only [collectM, searchFrom_start hlists]
  rw [visitEach_keeps answer, pure_bind]
  · simp only [List.append_nil, List.reverse_reverse]
  · intro other hother answers
    rw [htest other ((hlists.complete other).mp hother), pure_bind]
    cases answer other with
    | none => rfl
    | some found => rfl

end Collect

end NumberPuzzles.Walk
