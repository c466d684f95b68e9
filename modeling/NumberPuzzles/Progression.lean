import NumberPuzzles.Fault

/-!
# Arithmetic progressions

A search walks a progression of numbers from its least member up.  The walks
recurse on how many members are left, so they end without a bound being shown
for them, and they never hold the members in memory: a search may stop early in
a progression that is far too long to list.
-/

namespace NumberPuzzles

/-- The numbers `start, start + step, …`, as many as `count`. -/
structure Progression where
  start : Nat
  step : Nat
  count : Nat
  deriving Repr, DecidableEq

namespace Progression

def inclusive (first last : Nat) : Progression :=
  ⟨first, 1, last + 1 - first⟩

def below (first limit : Nat) : Progression :=
  ⟨first, 1, limit - first⟩

def toList (numbers : Progression) : List Nat :=
  List.range' numbers.start numbers.count numbers.step

/-- Every `step`-th number from `first` on that is below `limit`. -/
def stride (first limit step : Nat) : Progression :=
  ⟨first, step, (limit - first + (step - 1)) / step⟩

section Monadic

variable {m : Type → Type} [Monad m] {σ : Type}

/-- Threads a state through `count` members, ascending. -/
@[specialize] def foldFrom (visit : σ → Nat → m σ) (step : Nat) : Nat → Nat → σ → m σ
  | 0, _, state => pure state
  | count + 1, current, state => do
      let state ← visit state current
      foldFrom visit step count (current + step) state

/-- Threads a state through the members, ascending. -/
@[inline] def foldM (numbers : Progression) (state : σ) (visit : σ → Nat → m σ) : m σ :=
  foldFrom visit numbers.step numbers.count numbers.start state

/-- The first of `count` members that passes a test; no later member is tested. -/
@[specialize] def findFrom (test : Nat → m Bool) (step : Nat) : Nat → Nat → m (Option Nat)
  | 0, _ => pure none
  | count + 1, current => do
      if ← test current then pure (some current)
      else findFrom test step count (current + step)

/-- The first member that passes a test; no later member is tested. -/
@[inline] def findM? (numbers : Progression) (test : Nat → m Bool) : m (Option Nat) :=
  findFrom test numbers.step numbers.count numbers.start

@[inline] def filterM (numbers : Progression) (test : Nat → m Bool) : m (List Nat) := do
  let kept ← numbers.foldM ([] : List Nat) fun kept current => do
    if ← test current then pure (current :: kept) else pure kept
  pure kept.reverse

end Monadic

@[inline] def fold {σ : Type} (numbers : Progression) (state : σ) (visit : σ → Nat → σ) : σ :=
  Id.run (numbers.foldM state fun state current => pure (visit state current))

@[inline] def filter (numbers : Progression) (test : Nat → Bool) : List Nat :=
  Id.run (numbers.filterM fun current => pure (test current))

end Progression

end NumberPuzzles
