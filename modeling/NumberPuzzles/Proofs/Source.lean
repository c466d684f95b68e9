import NumberPuzzles.Source

/-!
# The answers of a source

A source is characterised by its answers to the requests in turn, each made in the
state that the requests before it left behind.  Taking items while they pass a test need
not end; a relation says when it does, and after how many items.
-/

namespace NumberPuzzles.Source

variable {σ ε α : Type}

/-- The state that so many requests leave behind. -/
def after (next : Source σ ε α) : (requests : Nat) → σ → σ
  | 0, state => state
  | requests + 1, state => after next requests (next.run.run state).2

/-- The answer to the request at a position, counted from zero. -/
def answerAt (next : Source σ ε α) (position : Nat) (state : σ) : Except ε (Option α) :=
  (next.run.run (after next position state)).1

/-- The item is handed out at some request, and every request before that has handed out an item
too: the source has neither failed nor ended yet. -/
def Yields (next : Source σ ε α) (state : σ) (item : α) : Prop :=
  ∃ position, (∀ earlier < position, ∃ other, answerAt next earlier state = .ok (some other)) ∧
    answerAt next position state = .ok (some item)

@[simp]
theorem answerAt_zero (next : Source σ ε α) (state : σ) :
    answerAt next 0 state = (next.run.run state).1 := rfl

@[simp]
theorem answerAt_succ (next : Source σ ε α) (position : Nat) (state : σ) :
    answerAt next (position + 1) state = answerAt next position (next.run.run state).2 := rfl

@[simp]
theorem after_succ (next : Source σ ε α) (requests : Nat) (state : σ) :
    after next (requests + 1) state = (next.run.run (after next requests state)).2 := by
  induction requests generalizing state with
  | zero => rfl
  | succ requests ih => exact ih (next.run.run state).2

theorem after_add (next : Source σ ε α) (first later : Nat) (state : σ) :
    after next (first + later) state = after next later (after next first state) := by
  induction later with
  | zero => rfl
  | succ later ih => rw [← Nat.add_assoc, after_succ, after_succ, ih]

theorem answerAt_add (next : Source σ ε α) (first position : Nat) (state : σ) :
    answerAt next (first + position) state = answerAt next position (after next first state) := by
  rw [answerAt, after_add, answerAt]

theorem run_of_answerAt {next : Source σ ε α} {position : Nat} {state : σ}
    {answer : Except ε (Option α)} (hanswer : answerAt next position state = answer) :
    next.run.run (after next position state) = (answer, after next (position + 1) state) := by
  rw [after_succ]
  exact Prod.ext hanswer rfl

/-- Skipping items that are there hands out the one after them. -/
theorem nth_run {next : Source σ ε α} {skipped : Nat} {state : σ}
    (hitems : ∀ earlier < skipped, ∃ item, answerAt next earlier state = .ok (some item)) :
    (nth next skipped).run.run state = next.run.run (after next skipped state) := by
  induction skipped generalizing state with
  | zero => rfl
  | succ skipped ih =>
      obtain ⟨item, hitem⟩ := hitems 0 (Nat.succ_pos skipped)
      have hrun : next.run.run state = (.ok (some item), after next 1 state) :=
        run_of_answerAt hitem
      rw [nth, Run.run_bind_ok hrun]
      apply ih
      intro earlier hearlier
      exact hitems (earlier + 1) (Nat.succ_lt_succ hearlier)

/-! ## Taking items while they pass a test -/

variable {next : Source σ ε α} {passes : α → Bool} {item : Nat → α} {state : σ} {count : Nat}

/-- From a state on, so many items pass a test, and then the source hands out one that does not
or ends.  There is no such number for a source that never gets there. -/
inductive TakesWhile (next : Source σ ε α) (passes : α → Bool) : (state : σ) → (count : Nat) → Prop
  | refused {state reached : σ} {item : α}
      (hrun : next.run.run state = (.ok (some item), reached)) (hrefused : passes item = false) :
      TakesWhile next passes state 0
  | ended {state reached : σ} (hrun : next.run.run state = (.ok none, reached)) :
      TakesWhile next passes state 0
  | passed {state reached : σ} {item : α} {count : Nat}
      (hrun : next.run.run state = (.ok (some item), reached)) (hpassed : passes item = true)
      (hrest : TakesWhile next passes reached count) :
      TakesWhile next passes state (count + 1)

/-- A source that always has an item is taken from up to the first one that is refused. -/
theorem takesWhile_of_items
    (hitems : ∀ position, answerAt next position state = .ok (some (item position)))
    (hpassed : ∀ earlier < count, passes (item earlier) = true)
    (hrefused : passes (item count) = false) : TakesWhile next passes state count := by
  induction count generalizing state item with
  | zero =>
      exact .refused (run_of_answerAt (hitems 0)) hrefused
  | succ count ih =>
      have hlater : ∀ position,
          answerAt next position (after next 1 state) = .ok (some (item (position + 1))) :=
        fun position => hitems (position + 1)
      have hrest : TakesWhile next passes (after next 1 state) count := by
        apply ih hlater
        · intro earlier hearlier
          exact hpassed (earlier + 1) (Nat.succ_lt_succ hearlier)
        · exact hrefused
      exact .passed (run_of_answerAt (hitems 0)) (hpassed 0 (Nat.succ_pos count)) hrest

/-- At most one number of items is taken. -/
theorem TakesWhile.unique {other : Nat} (hcount : TakesWhile next passes state count)
    (hother : TakesWhile next passes state other) : count = other := by
  induction hcount generalizing other with
  | refused hrun hrefused =>
      cases hother with
      | refused => rfl
      | ended => rfl
      | passed hagain hpassed =>
          rw [hrun] at hagain
          cases hagain
          rw [hrefused] at hpassed
          cases hpassed
  | ended hrun =>
      cases hother with
      | refused => rfl
      | ended => rfl
      | passed hagain =>
          rw [hrun] at hagain
          cases hagain
  | passed hrun hpassed _ ih =>
      cases hother with
      | refused hagain hrefused =>
          rw [hrun] at hagain
          cases hagain
          rw [hpassed] at hrefused
          cases hrefused
      | ended hagain =>
          rw [hrun] at hagain
          cases hagain
      | passed hagain _ hrest =>
          rw [hrun] at hagain
          cases hagain
          exact congrArg Nat.succ (ih hrest)

end NumberPuzzles.Source
