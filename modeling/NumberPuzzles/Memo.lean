import Std.Data.HashMap
import NumberPuzzles.Fault

/-!
# Memoised functions

A memo keeps the value of every input that has had one.  The body of the
function is any stateful computation: it may fail, and its state may differ from
one evaluation to the next, but only the first value of an input is ever kept
and handed out.  A failure is not kept, so the same input is evaluated again.
-/

namespace NumberPuzzles

/-- The values kept so far, and the state that the body of the function works on. -/
structure Memo (κ ν σ : Type) [BEq κ] [Hashable κ] where
  kept : Std.HashMap κ ν
  inner : σ

namespace Memo

variable {κ ν σ ε α : Type} [BEq κ] [Hashable κ]

def empty (inner : σ) : Memo κ ν σ := ⟨∅, inner⟩

def size (memo : Memo κ ν σ) : Nat := memo.kept.size

def isEmpty (memo : Memo κ ν σ) : Bool := memo.kept.isEmpty

/-- Keeps a value for an input that has none, and answers the value kept for it. -/
def store (kept : Std.HashMap κ ν) (input : κ) (value : ν) : ν × Std.HashMap κ ν :=
  match kept.getThenInsertIfNew? input value with
  | (some first, kept) => (first, kept)
  | (none, kept) => (value, kept)

/-- Runs a computation on the state of the body alone. -/
@[inline] def within (action : Run σ ε α) : Run (Memo κ ν σ) ε α := fun ⟨kept, inner⟩ =>
  match action.run.run inner with
  | (outcome, inner) => (outcome, ⟨kept, inner⟩)

/-- The value kept for an input, or else the value of an evaluation.  The evaluation
works on the memo itself, so by its end the memo may hold a value for this very
input; that value is then the answer. -/
@[specialize] def through (evaluate : κ → Run (Memo κ ν σ) ε ν) (input : κ) :
    Run (Memo κ ν σ) ε ν := fun memo =>
  match memo.kept[input]? with
  | some value => (.ok value, memo)
  | none =>
      match (evaluate input).run.run memo with
      | (.ok value, ⟨kept, inner⟩) =>
          let (value, kept) := store kept input value
          (.ok value, ⟨kept, inner⟩)
      | (.error failure, memo) => (.error failure, memo)

/-- The value kept for an input, or else the value that the body gives it now. -/
@[specialize] def apply (body : κ → Run σ ε ν) (input : κ) : Run (Memo κ ν σ) ε ν :=
  through (fun input => within (body input)) input

/-- A body that counts how often it has been entered and may use the count, the
entry at hand included. -/
def counted (body : Nat → κ → Except ε ν) (input : κ) : Run Nat ε ν := fun entered =>
  (body (entered + 1) input, entered + 1)

end Memo

end NumberPuzzles
