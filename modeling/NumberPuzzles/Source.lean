import NumberPuzzles.Fault

/-!
# Sources of items

A source hands out one item for each request, or says that it has no more.  It
is a single stateful request; walking it is repeating the request, so what a
walk leaves behind is the state that its last request left.
-/

namespace NumberPuzzles

/-- One request to a source: its next item, or `none` when it is exhausted. -/
abbrev Source (σ ε α : Type) := Run σ ε (Option α)

namespace Source

variable {σ ε α : Type}

/-- Skips as many items as told and hands out the one after them.  An exhausted
source ends the skipping at once. -/
def nth (next : Source σ ε α) : Nat → Run σ ε (Option α)
  | 0 => next
  | skipped + 1 => do
      match ← next with
      | none => pure none
      | some _ => nth next skipped

/-- The next items, at most as many as told; no request is made past them. -/
def take (next : Source σ ε α) : Nat → Run σ ε (List α)
  | 0 => pure []
  | count + 1 => do
      match ← next with
      | none => pure []
      | some item => return item :: (← take next count)

end Source

end NumberPuzzles
