import NumberPuzzles.Memo.Recursion
import NumberPuzzles.Proofs.Memo.FirstValue

/-!
# The moments of a memoised recursion

A call of a memoised recursion enters its body unless it finds a value, and then it
returns a value or is unwound by a fault.  At each of these moments some calls are still
under way and the table keeps some values; between them nothing is stored.  A body that
marks its entries in the shared state marks just the entries that are found here.
-/

namespace NumberPuzzles.Memo

section Marking

variable {κ ν σ ε : Type}

/-- A body that marks each of its entries in the shared state, and is a given body
apart from that. -/
def marking (mark : κ → σ → σ) (body : κ → Script κ ν σ ε ν) (input : κ) :
    Script κ ν σ ε ν :=
  .step (mark input) fun _ => body input

/-- Counting the entries of a body that does not use the count is a way of marking them. -/
theorem countedScript_eq_marking (body : κ → Script κ ν Nat Fault ν) :
    countedScript (fun _ => body) = marking (fun _ entered => entered + 1) body := rfl

end Marking

variable {κ ν σ ε : Type} [BEq κ] [Hashable κ]

/-- What happens to a call: its body is entered, or it ends with a value or a fault. -/
inductive Event (ν : Type) where
  | entered
  | returned (value : ν)
  | unwound (fault : Fault)

/-- A moment of a run: what happens to the call for an input, the inputs of the calls
around it, innermost first, and what the table keeps then. -/
structure Moment (κ ν : Type) [BEq κ] [Hashable κ] where
  input : κ
  event : Event ν
  callers : List κ
  kept : Std.HashMap κ ν

def ending (callers : List κ) (input : κ) : Except Fault ν × Memo κ ν σ → Moment κ ν
  | (.ok value, after) => ⟨input, .returned value, callers, after.kept⟩
  | (.error fault, after) => ⟨input, .unwound fault, callers, after.kept⟩

def scriptMoments (answer : κ → Run (Memo κ ν σ) Fault ν)
    (inside : κ → Memo κ ν σ → List (Moment κ ν)) :
    Script κ ν σ Fault ν → Memo κ ν σ → List (Moment κ ν)
  | .done _, _ | .fail _, _ => []
  | .step change resume, memo =>
      scriptMoments answer inside (resume memo.inner) ⟨memo.kept, change memo.inner⟩
  | .ask input resume, memo =>
      inside input memo ++
        match (answer input).run.run memo with
        | (.ok value, after) => scriptMoments answer inside (resume value) after
        | (.error _, _) => []

/-- The moments of a call: unless it finds a value, its body is entered and makes calls
of its own; then it ends. -/
def callMoments (body : κ → Script κ ν σ Fault ν) :
    (depth : Nat) → (callers : List κ) → (input : κ) → Memo κ ν σ → List (Moment κ ν)
  | 0, _, _, _ => []
  | depth + 1, callers, input, memo =>
      (match memo.kept[input]? with
        | some _ => []
        | none => ⟨input, .entered, callers, memo.kept⟩ ::
            scriptMoments (recurse body depth) (callMoments body depth (input :: callers))
              (body input) memo) ++
        [ending callers input ((recurse body (depth + 1) input).run.run memo)]

def runMoments (body : κ → Script κ ν σ Fault ν) (depth : Nat) :
    List κ → Memo κ ν σ → List (Moment κ ν)
  | [], _ => []
  | input :: inputs, memo =>
      callMoments body depth [] input memo ++
        runMoments body depth inputs ((recurse body depth input).run.run memo).2

def outcomes (call : κ → Run (Memo κ ν σ) ε ν) : List κ → Memo κ ν σ → List (Except ε ν)
  | [], _ => []
  | input :: inputs, memo =>
      ((call input).run.run memo).1 :: outcomes call inputs ((call input).run.run memo).2

def entries (moments : List (Moment κ ν)) : List κ :=
  moments.filterMap fun moment =>
    match moment.event with
    | .entered => some moment.input
    | .returned _ | .unwound _ => none

@[simp]
theorem entries_nil : entries ([] : List (Moment κ ν)) = [] := rfl

@[simp]
theorem entries_append (left right : List (Moment κ ν)) :
    entries (left ++ right) = entries left ++ entries right :=
  List.filterMap_append

@[simp]
theorem entries_entered (input : κ) (callers : List κ) (kept : Std.HashMap κ ν)
    (moments : List (Moment κ ν)) :
    entries (⟨input, .entered, callers, kept⟩ :: moments) = input :: entries moments := rfl

/-! ## The moments of a call -/

section Call

variable {body : κ → Script κ ν σ Fault ν} {depth : Nat} {callers : List κ} {input : κ}
  {memo : Memo κ ν σ}

theorem callMoments_hit {value : ν} (hkept : memo.kept[input]? = some value) :
    callMoments body (depth + 1) callers input memo =
      [⟨input, .returned value, callers, memo.kept⟩] := by
  have hcall : (recurse body (depth + 1) input).run.run memo = (.ok value, memo) :=
    through_hit hkept
  simp only [callMoments, hkept, hcall, ending, List.nil_append]

/-- A body that marks its entries has no moments beside those of the given body, which it
follows from the marked state on. -/
theorem callMoments_marking_miss {mark : κ → σ → σ} (hmissing : memo.kept[input]? = none) :
    callMoments (marking mark body) (depth + 1) callers input memo =
      ⟨input, .entered, callers, memo.kept⟩ ::
        (scriptMoments (recurse (marking mark body) depth)
            (callMoments (marking mark body) depth (input :: callers)) (body input)
            ⟨memo.kept, mark input memo.inner⟩ ++
          [ending callers input
            ((recurse (marking mark body) (depth + 1) input).run.run memo)]) := by
  simp only [callMoments, hmissing, List.cons_append]
  rfl

end Call

end NumberPuzzles.Memo
