import NumberPuzzles.Proofs.Memo.FirstValue

/-!
# Entries, values and failures in a run of calls

The body of a memoised function may answer differently at each entry, or fail.  A call
does one of three things: it finds a value and leaves everything as it is, it enters
the body and keeps the value, or it enters the body and reports the failure, which
leaves the table as it was.  Summed over a run, the table therefore holds one value for
each input that has been answered, and the body is entered at just those calls whose
input had not been answered before.
-/

namespace NumberPuzzles.Memo

variable {κ ν σ ε : Type} [BEq κ] [Hashable κ]

def answeredInputs (call : κ → Run (Memo κ ν σ) ε ν) : List κ → Memo κ ν σ → List κ
  | [], _ => []
  | input :: inputs, memo =>
      match (call input).run.run memo with
      | (.ok _, after) => input :: answeredInputs call inputs after
      | (.error _, after) => answeredInputs call inputs after

/-- How a call stands to the calls before it, of which some have been answered. -/
structure Accounted (body : Nat → κ → Except ε ν) (answered : List κ) (input : κ)
    (before : Memo κ ν Nat) (outcome : Except ε ν) (after : Memo κ ν Nat) : Prop where
  size : before.size = answered.eraseDups.length
  isEmpty : before.isEmpty = true ↔ answered = []
  entered : after.inner = if answered.contains input then before.inner else before.inner + 1
  reported : answered.contains input = false → outcome = body (before.inner + 1) input
  failed : ∀ failure, outcome = .error failure →
    answered.contains input = false ∧ after.kept = before.kept ∧
      ((apply (counted body) input).run.run after).2.inner = after.inner + 1

/-! ## One call -/

theorem within_counted (body : Nat → κ → Except ε ν) (input : κ) (memo : Memo κ ν Nat) :
    (within (counted body input) : Run (Memo κ ν Nat) ε ν).run.run memo =
      (body (memo.inner + 1) input, ⟨memo.kept, memo.inner + 1⟩) := rfl

section Lawful

variable [EquivBEq κ] [LawfulHashable κ] {body : Nat → κ → Except ε ν} {input : κ}
  {memo : Memo κ ν Nat}

theorem apply_hit (hkept : memo.kept.contains input = true) :
    ∃ value, (apply (counted body) input).run.run memo = (.ok value, memo) := by
  rw [Std.HashMap.contains_eq_isSome_getElem?, Option.isSome_iff_exists] at hkept
  obtain ⟨value, hvalue⟩ := hkept
  exact ⟨value, through_hit hvalue⟩

theorem apply_stored (hmissing : memo.kept.contains input = false) {value : ν}
    (hbody : body (memo.inner + 1) input = .ok value) :
    (apply (counted body) input).run.run memo =
      (.ok value, ⟨memo.kept.insertIfNew input value, memo.inner + 1⟩) := by
  have hnone := Std.HashMap.getElem?_eq_none_of_contains_eq_false hmissing
  have hrun := within_counted body input memo
  rw [hbody] at hrun
  rw [apply, through_stored hnone hrun, store_eq, hnone]
  rfl

theorem apply_failed (hmissing : memo.kept.contains input = false) {failure : ε}
    (hbody : body (memo.inner + 1) input = .error failure) :
    (apply (counted body) input).run.run memo =
      (.error failure, ⟨memo.kept, memo.inner + 1⟩) := by
  have hnone := Std.HashMap.getElem?_eq_none_of_contains_eq_false hmissing
  have hrun := within_counted body input memo
  rw [hbody] at hrun
  rw [apply, through_failed hnone hrun]

/-- A call finds a value and changes nothing, or enters the body and reports what it
reports; only a value is kept. -/
theorem apply_cases (body : Nat → κ → Except ε ν) (input : κ) (memo : Memo κ ν Nat) :
    (memo.kept.contains input = true ∧
        ∃ value, (apply (counted body) input).run.run memo = (.ok value, memo)) ∨
      (memo.kept.contains input = false ∧
        ((∃ value, body (memo.inner + 1) input = .ok value ∧
            (apply (counted body) input).run.run memo =
              (.ok value, ⟨memo.kept.insertIfNew input value, memo.inner + 1⟩)) ∨
          ∃ failure, body (memo.inner + 1) input = .error failure ∧
            (apply (counted body) input).run.run memo =
              (.error failure, ⟨memo.kept, memo.inner + 1⟩))) := by
  cases hmember : memo.kept.contains input with
  | true => exact .inl ⟨rfl, apply_hit hmember⟩
  | false =>
      refine .inr ⟨rfl, ?_⟩
      cases hbody : body (memo.inner + 1) input with
      | ok value => exact .inl ⟨value, rfl, apply_stored hmember hbody⟩
      | error failure => exact .inr ⟨failure, rfl, apply_failed hmember hbody⟩

theorem apply_enters (hmissing : memo.kept.contains input = false) :
    ((apply (counted body) input).run.run memo).2.inner = memo.inner + 1 := by
  rcases apply_cases body input memo with
    ⟨hkept, -⟩ | ⟨-, ⟨value, -, hrun⟩ | ⟨failure, -, hrun⟩⟩
  · exact absurd hkept (by rw [hmissing]; exact Bool.false_ne_true)
  · rw [hrun]
  · rw [hrun]

/-! ## Whole runs -/

/-- After a run the table has the inputs that it had and those that were answered. -/
theorem contains_memoAfter (inputs : List κ) (memo : Memo κ ν Nat) (other : κ) :
    (memoAfter (apply (counted body)) inputs memo).kept.contains other =
      (memo.kept.contains other ||
        (answeredInputs (apply (counted body)) inputs memo).contains other) := by
  induction inputs generalizing memo with
  | nil => simp [memoAfter, answeredInputs]
  | cons input inputs ih =>
      rcases apply_cases body input memo with
        ⟨hkept, value, hrun⟩ | ⟨-, ⟨value, -, hrun⟩ | ⟨failure, -, hrun⟩⟩
      · simp only [memoAfter, answeredInputs, hrun, ih, List.contains_cons]
        by_cases hsame : other == input
        · rw [Std.HashMap.contains_congr hsame, hkept]
          simp
        · simp [hsame]
      · simp only [memoAfter, answeredInputs, hrun, ih, List.contains_cons,
          Std.HashMap.contains_insertIfNew, BEq.comm (a := input)]
        rw [Bool.or_comm (other == input), Bool.or_assoc]
      · simp only [memoAfter, answeredInputs, hrun, ih]

/-- A run adds one value for each distinct input that it answers and that had none. -/
theorem size_memoAfter (inputs : List κ) (memo : Memo κ ν Nat) :
    (memoAfter (apply (counted body)) inputs memo).kept.size =
      memo.kept.size + ((answeredInputs (apply (counted body)) inputs memo).filter
        fun other => !memo.kept.contains other).eraseDups.length := by
  induction inputs generalizing memo with
  | nil => simp [memoAfter, answeredInputs]
  | cons input inputs ih =>
      rcases apply_cases body input memo with
        ⟨hkept, value, hrun⟩ | ⟨hmissing, ⟨value, -, hrun⟩ | ⟨failure, -, hrun⟩⟩
      · simp [memoAfter, answeredInputs, hrun, ih, hkept]
      · -- The new input comes first among the distinct ones, and counts no more later.
        have hnew : ¬ input ∈ memo.kept := by simp [← Std.HashMap.contains_iff_mem, hmissing]
        have hlater (other : κ) : (!(memo.kept.insertIfNew input value).contains other) =
            (!other == input && !memo.kept.contains other) := by
          rw [Std.HashMap.contains_insertIfNew, Bool.not_or, BEq.comm]
        simp only [memoAfter, answeredInputs, hrun, ih, List.filter_cons, hmissing,
          Bool.not_false, if_true, List.eraseDups_cons, List.length_cons, List.filter_filter,
          hlater, Std.HashMap.size_insertIfNew, if_neg hnew]
        omega
      · simp only [memoAfter, answeredInputs, hrun, ih]

/-- From the start, the inputs in the table are those that have been answered. -/
theorem contains_after_calls (body : Nat → κ → Except ε ν) (inputs : List κ) (other : κ) :
    (memoAfter (apply (counted body)) inputs (Memo.empty 0)).kept.contains other =
      (answeredInputs (apply (counted body)) inputs (Memo.empty 0)).contains other := by
  rw [contains_memoAfter, Memo.empty, Std.HashMap.contains_empty, Bool.false_or]

theorem size_after_calls (body : Nat → κ → Except ε ν) (inputs : List κ) :
    (memoAfter (apply (counted body)) inputs (Memo.empty 0)).size =
      (answeredInputs (apply (counted body)) inputs (Memo.empty 0)).eraseDups.length := by
  have hnone (answered : List κ) : (answered.filter fun other =>
      !(Memo.empty 0 : Memo κ ν Nat).kept.contains other) = answered := by
    simp [Memo.empty]
  rw [size, size_memoAfter, hnone, Memo.empty, Std.HashMap.size_empty, Nat.zero_add]

theorem isEmpty_after_calls (body : Nat → κ → Except ε ν) (inputs : List κ) :
    (memoAfter (apply (counted body)) inputs (Memo.empty 0)).isEmpty = true ↔
      answeredInputs (apply (counted body)) inputs (Memo.empty 0) = [] := by
  rw [isEmpty, Std.HashMap.isEmpty_eq_size_eq_zero, beq_iff_eq]
  have hsize := size_after_calls body inputs
  rw [size] at hsize
  rw [hsize, List.length_eq_zero_iff]
  cases answeredInputs (apply (counted body)) inputs (Memo.empty 0) with
  | nil => simp
  | cons first others => simp [List.eraseDups_cons]

/-- A call is accounted for by the answers before it, if the table holds those. -/
theorem accounted_call {answered : List κ} (hsize : memo.size = answered.eraseDups.length)
    (hempty : memo.isEmpty = true ↔ answered = [])
    (hanswered : memo.kept.contains input = answered.contains input) :
    Accounted body answered input memo ((apply (counted body) input).run.run memo).1
      ((apply (counted body) input).run.run memo).2 := by
  rcases apply_cases body input memo with
    ⟨hkept, value, hrun⟩ | ⟨hmissing, ⟨value, hbody, hrun⟩ | ⟨failure, hbody, hrun⟩⟩
  · rw [hkept] at hanswered
    rw [hrun]
    exact ⟨hsize, hempty, by rw [← hanswered, if_pos rfl], by simp [← hanswered], nofun⟩
  · rw [hmissing] at hanswered
    rw [hrun]
    exact ⟨hsize, hempty, by simp [← hanswered], fun _ => hbody.symm, nofun⟩
  · rw [hmissing] at hanswered
    rw [hrun]
    refine ⟨hsize, hempty, by simp [← hanswered], fun _ => hbody.symm, ?_⟩
    intro reported hreported
    exact ⟨hanswered.symm, rfl, apply_enters hmissing⟩

/-- In every run of calls of a memoised function, the body is entered exactly when no
earlier call has answered the input; the size is the number of distinct inputs answered
so far; and a failure is the body's own, leaves the table as it was and is followed by a
new entry when the call is repeated. -/
theorem calls_accounted (body : Nat → κ → Except ε ν) (earlier : List κ) (input : κ) :
    let call : κ → Run (Memo κ ν Nat) ε ν := apply (counted body)
    let before := memoAfter call earlier (Memo.empty 0)
    Accounted body (answeredInputs call earlier (Memo.empty 0)) input before
      ((call input).run.run before).1 ((call input).run.run before).2 :=
  accounted_call (size_after_calls body earlier) (isEmpty_after_calls body earlier)
    (contains_after_calls body earlier input)

/-- A body that refuses its first entry: the second call with the same input enters it
again, and the third does not. -/
theorem flaky_accounted :
    Accounted (Sample.flaky 1)
        (answeredInputs (apply (counted (Sample.flaky 1))) [7, 7] (Memo.empty 0)) 7
        (memoAfter (apply (counted (Sample.flaky 1))) [7, 7] (Memo.empty 0))
        ((apply (counted (Sample.flaky 1)) 7).run.run
          (memoAfter (apply (counted (Sample.flaky 1))) [7, 7] (Memo.empty 0))).1
        ((apply (counted (Sample.flaky 1)) 7).run.run
          (memoAfter (apply (counted (Sample.flaky 1))) [7, 7] (Memo.empty 0))).2 ∧
      answeredInputs (apply (counted (Sample.flaky 1))) [7, 7] (Memo.empty 0) = [7] := by
  refine ⟨calls_accounted (Sample.flaky 1) [7, 7] 7, ?_⟩
  have hmissing (entered : Nat) : (⟨∅, entered⟩ : Memo Nat Nat Nat).kept.contains 7 = false :=
    Std.HashMap.contains_empty
  have hfirst : (apply (counted (Sample.flaky 1)) 7).run.run (Memo.empty 0) =
      (.error (.refused "call 1 failed"), ⟨∅, 1⟩) := apply_failed (hmissing 0) rfl
  have hsecond : (apply (counted (Sample.flaky 1)) 7).run.run ⟨∅, 1⟩ =
      (.ok 2007, ⟨(∅ : Std.HashMap Nat Nat).insertIfNew 7 2007, 2⟩) :=
    apply_stored (hmissing 1) rfl
  simp only [answeredInputs, hfirst, hsecond]

end Lawful

end NumberPuzzles.Memo
