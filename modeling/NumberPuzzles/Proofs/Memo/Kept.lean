import NumberPuzzles.Memo.Recursion

/-!
# What a memo keeps

A value is stored only for an input that has none, so the table of kept values
only ever grows, and the value that a call answers is the one in the table.  Both
facts are shown once for a call through the memo, whatever its evaluation does to
the memo in between, and then for bodies that know nothing of the memo and for
scripts that ask it again at any depth.  A body that is a function fills the table
with values of that function only, so its calls answer as if nothing were kept.
-/

namespace NumberPuzzles.Memo

variable {κ ν σ ε α : Type} [BEq κ] [Hashable κ]

def Extends (earlier later : Std.HashMap κ ν) : Prop :=
  ∀ (input : κ) (value : ν), earlier[input]? = some value → later[input]? = some value

theorem Extends.refl (kept : Std.HashMap κ ν) : Extends kept kept := by
  intro input value hkept
  exact hkept

theorem Extends.trans {first second third : Std.HashMap κ ν}
    (hfirst : Extends first second) (hsecond : Extends second third) :
    Extends first third := by
  intro input value hkept
  exact hsecond input value (hfirst input value hkept)

/-- A computation on the memo that drops and changes no kept value, however it ends. -/
def Grows (action : Run (Memo κ ν σ) ε α) : Prop :=
  ∀ memo, Extends memo.kept (action.run.run memo).2.kept

/-- A call that only grows the memo and answers the value kept for its input. -/
structure Faithful (call : κ → Run (Memo κ ν σ) ε ν) : Prop where
  grows : ∀ input, Grows (call input)
  answers : ∀ {input memo value after},
    (call input).run.run memo = (.ok value, after) → after.kept[input]? = some value

/-! ## Storing -/

theorem store_eq (kept : Std.HashMap κ ν) (input : κ) (value : ν) :
    store kept input value = (kept[input]?.getD value, kept.insertIfNew input value) := by
  have hfst : (kept.getThenInsertIfNew? input value).1 = kept[input]? :=
    Std.HashMap.getThenInsertIfNew?_fst
  have hsnd : (kept.getThenInsertIfNew? input value).2 = kept.insertIfNew input value :=
    Std.HashMap.getThenInsertIfNew?_snd
  rcases hpair : kept.getThenInsertIfNew? input value with ⟨first, after⟩
  rw [hpair] at hfst hsnd
  subst hfst hsnd
  simp only [store, hpair]
  cases kept[input]? <;> rfl

section Lawful

variable [EquivBEq κ] [LawfulHashable κ]

/-- Storing answers the value that the table keeps from then on. -/
@[simp]
theorem getElem?_store (kept : Std.HashMap κ ν) (input : κ) (value : ν) :
    (store kept input value).2[input]? = some (store kept input value).1 := by
  rw [store_eq, Std.HashMap.getElem?_insertIfNew]
  by_cases hmember : input ∈ kept
  · simp [hmember]
  · simp [hmember]

/-- Storing changes no value that is kept already. -/
theorem extends_store (kept : Std.HashMap κ ν) (input : κ) (value : ν) :
    Extends kept (store kept input value).2 := by
  intro other known hknown
  have hmember : other ∈ kept :=
    Std.HashMap.mem_iff_isSome_getElem?.mpr (by simp [hknown])
  rw [store_eq, Std.HashMap.getElem?_insertIfNew, if_neg, hknown]
  rintro ⟨hsame, hmissing⟩
  exact hmissing ((Std.HashMap.mem_congr hsame).mpr hmember)

end Lawful

/-! ## Calls through the memo -/

section Through

variable {evaluate : κ → Run (Memo κ ν σ) ε ν} {input : κ} {memo after : Memo κ ν σ}

theorem through_hit {value : ν} (hkept : memo.kept[input]? = some value) :
    (through evaluate input).run.run memo = (.ok value, memo) := by
  change through evaluate input memo = _
  simp only [through, hkept]

theorem through_stored {value : ν} (hmissing : memo.kept[input]? = none)
    (hrun : (evaluate input).run.run memo = (.ok value, after)) :
    (through evaluate input).run.run memo =
      (.ok (store after.kept input value).1,
        ⟨(store after.kept input value).2, after.inner⟩) := by
  change through evaluate input memo = _
  simp only [through, hmissing, hrun]

theorem through_failed {failure : ε} (hmissing : memo.kept[input]? = none)
    (hrun : (evaluate input).run.run memo = (.error failure, after)) :
    (through evaluate input).run.run memo = (.error failure, after) := by
  change through evaluate input memo = _
  simp only [through, hmissing, hrun]

/-- A call through the memo is faithful if its evaluation only grows the memo. -/
theorem through_faithful [EquivBEq κ] [LawfulHashable κ]
    (hgrows : ∀ input, Grows (evaluate input)) : Faithful (through evaluate) where
  grows input memo := by
    cases hkept : memo.kept[input]? with
    | some value =>
        rw [through_hit hkept]
        exact Extends.refl memo.kept
    | none =>
        have hevaluate := hgrows input memo
        rcases hrun : (evaluate input).run.run memo with ⟨failure | value, after⟩
        · rw [hrun] at hevaluate
          rw [through_failed hkept hrun]
          exact hevaluate
        · -- The evaluation may itself have kept a value for this input: storing leaves it.
          rw [hrun] at hevaluate
          rw [through_stored hkept hrun]
          exact hevaluate.trans (extends_store _ _ _)
  answers {input memo value after} hcall := by
    cases hkept : memo.kept[input]? with
    | some first =>
        rw [through_hit hkept] at hcall
        cases hcall
        exact hkept
    | none =>
        rcases hrun : (evaluate input).run.run memo with ⟨failure | fresh, reached⟩
        · rw [through_failed hkept hrun] at hcall
          cases hcall
        · rw [through_stored hkept hrun] at hcall
          cases hcall
          exact getElem?_store _ _ _

end Through

/-! ## Tables of a function -/

section Function

variable {function : κ → ν}

def IsTableOf (function : κ → ν) (kept : Std.HashMap κ ν) : Prop :=
  ∀ (input : κ) (value : ν), kept[input]? = some value → value = function input

@[simp]
theorem isTableOf_empty (function : κ → ν) : IsTableOf function ∅ := by
  intro input value hkept
  rw [Std.HashMap.getElem?_empty] at hkept
  cases hkept

variable [LawfulBEq κ]

/-- Storing the function's value answers that value and keeps no other. -/
theorem IsTableOf.store {kept : Std.HashMap κ ν} (htable : IsTableOf function kept) (input : κ) :
    (store kept input (function input)).1 = function input ∧
      IsTableOf function (store kept input (function input)).2 := by
  have hafter : IsTableOf function (Memo.store kept input (function input)).2 := by
    intro other value hkept
    rw [store_eq, Std.HashMap.getElem?_insertIfNew] at hkept
    split at hkept
    next hnew =>
      have hsame : input = other := by simpa using hnew.1
      rw [← hsame]
      exact (Option.some.inj hkept).symm
    next => exact htable other value hkept
  exact ⟨hafter input _ (getElem?_store kept input (function input)), hafter⟩

/-- Over a table of a function, a call with that function as its body answers its value,
whether it is kept already or not. -/
theorem apply_function {memo : Memo κ ν σ} (htable : IsTableOf function memo.kept) (input : κ) :
    ∃ after, (apply (fun input => pure (function input)) input : Run _ ε ν).run.run memo =
        (.ok (function input), after) ∧ IsTableOf function after.kept := by
  cases hkept : memo.kept[input]? with
  | some value =>
      refine ⟨memo, ?_, htable⟩
      rw [← htable input value hkept]
      exact through_hit hkept
  | none =>
      have hbody : (within (pure (function input)) : Run (Memo κ ν σ) ε ν).run.run memo =
          (.ok (function input), memo) := rfl
      obtain ⟨hvalue, hafter⟩ := htable.store input
      refine ⟨⟨(Memo.store memo.kept input (function input)).2, memo.inner⟩, ?_, hafter⟩
      rw [apply, through_stored hkept hbody, hvalue]

end Function

/-! ## The two kinds of bodies -/

theorem within_grows (action : Run σ ε α) :
    Grows (within action : Run (Memo κ ν σ) ε α) := by
  intro memo
  exact Extends.refl memo.kept

/-- A memoised function whose body does not know of the memo is faithful. -/
theorem apply_faithful [EquivBEq κ] [LawfulHashable κ] (body : κ → Run σ ε ν) :
    Faithful (apply body : κ → Run (Memo κ ν σ) ε ν) := by
  apply through_faithful
  intro input
  exact within_grows (body input)

theorem follow_ask_ok {answer : κ → Run (Memo κ ν σ) ε ν} {input : κ} {value : ν}
    {memo after : Memo κ ν σ} (hrun : (answer input).run.run memo = (.ok value, after))
    (resume : ν → Script κ ν σ ε α) :
    ((Script.ask input resume).follow answer).run.run memo =
      ((resume value).follow answer).run.run after := by
  change Script.follow answer (.ask input resume) memo = _
  simp only [Script.follow, hrun]
  rfl

theorem follow_ask_error {answer : κ → Run (Memo κ ν σ) ε ν} {input : κ} {failure : ε}
    {memo after : Memo κ ν σ} (hrun : (answer input).run.run memo = (.error failure, after))
    (resume : ν → Script κ ν σ ε α) :
    ((Script.ask input resume).follow answer).run.run memo = (.error failure, after) := by
  change Script.follow answer (.ask input resume) memo = _
  simp only [Script.follow, hrun]

/-- Following a script only grows the memo if answering its questions does. -/
theorem follow_grows {answer : κ → Run (Memo κ ν σ) ε ν}
    (hanswer : ∀ input, Grows (answer input)) (script : Script κ ν σ ε α) :
    Grows (script.follow answer) := by
  induction script with
  | done value => exact fun memo => Extends.refl memo.kept
  | fail failure => exact fun memo => Extends.refl memo.kept
  | step change resume ih =>
      intro memo
      exact ih memo.inner ⟨memo.kept, change memo.inner⟩
  | ask input resume ih =>
      intro memo
      have hask := hanswer input memo
      rcases hrun : (answer input).run.run memo with ⟨failure | value, after⟩
      · rw [hrun] at hask
        rw [follow_ask_error hrun]
        exact hask
      · rw [hrun] at hask
        rw [follow_ask_ok hrun]
        exact hask.trans (ih value after)

/-- A memoised recursion is faithful, to whatever depth it may go. -/
theorem recurse_faithful [EquivBEq κ] [LawfulHashable κ]
    (body : κ → Script κ ν σ Fault ν) (depth : Nat) : Faithful (recurse body depth) := by
  induction depth with
  | zero =>
      constructor
      · intro input memo
        exact Extends.refl memo.kept
      · intro input memo value after hcall
        cases hcall
  | succ depth ih =>
      apply through_faithful
      intro input
      exact follow_grows ih.grows (body input)

end NumberPuzzles.Memo
