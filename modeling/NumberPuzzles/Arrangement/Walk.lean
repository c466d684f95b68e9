import NumberPuzzles.Arrangement
import NumberPuzzles.Source

/-!
# Walks through all arrangements

A walk starts at the least or at the greatest arrangement of its entries and
moves to the neighbour each time, so it meets every distinct arrangement once
and in order.
-/

namespace NumberPuzzles

inductive Direction where
  | ascending
  | descending
  deriving DecidableEq, Repr

/-- A walk, at the arrangement that it hands out next; `none` when it has ended. -/
structure Walk (α : Type) where
  current : Option (Array α)
  direction : Direction

namespace Walk

variable {α : Type} [LT α] [DecidableLT α]

def sorted (entries : List α) : List α :=
  entries.mergeSort fun left right => !decide (right < left)

def sortedDown (entries : List α) : List α :=
  entries.mergeSort fun left right => !decide (left < right)

def start (direction : Direction) (entries : List α) : Walk α :=
  match direction with
  | .ascending => ⟨some (sorted entries).toArray, .ascending⟩
  | .descending => ⟨some (sortedDown entries).toArray, .descending⟩

@[inline] def step (direction : Direction) : Run (Array α) Fault Bool :=
  match direction with
  | .ascending => Arrangement.next
  | .descending => Arrangement.previous

/-- Hands out the current arrangement and moves on. -/
@[specialize] def next : Source (Walk α) Fault (List α) := fun ⟨current, direction⟩ =>
  match current with
  | none => (.ok none, ⟨none, direction⟩)
  | some entries =>
      match (step direction).run.run entries with
      | (.ok true, following) => (.ok (some entries.toList), ⟨some following, direction⟩)
      | (.ok false, _) => (.ok (some entries.toList), ⟨none, direction⟩)
      | (.error fault, _) => (.error fault, ⟨none, direction⟩)

/-- Threads a state through the arrangements that a walk hands out, until a visit
ends it with an answer or as many as told have been visited. -/
@[specialize] def searchFrom {m : Type → Type} [Monad m] [MonadExceptOf Fault m] {σ β : Type}
    (visit : σ → List α → m (σ ⊕ β)) : Nat → Walk α → σ → m (σ ⊕ β)
  | 0, _, state => pure (.inl state)
  | visits + 1, walk, state => do
      match next.run.run walk with
      | (.ok none, _) => pure (.inl state)
      | (.ok (some entries), walk) =>
          match ← visit state entries with
          | .inl state => searchFrom visit visits walk state
          | .inr answer => pure (.inr answer)
      | (.error fault, _) => throw fault

/-- The product of the numbers up to a given one: no list of that many entries
has more arrangements. -/
def arrangementBound : Nat → Nat
  | 0 => 1
  | count + 1 => (count + 1) * arrangementBound count

/-- The first arrangement in a direction for which a test gives an answer. -/
@[inline] def findM? {m : Type → Type} [Monad m] [MonadExceptOf Fault m] {β : Type}
    (direction : Direction) (entries : List α) (test : List α → m (Option β)) :
    m (Option β) := do
  let visit : Unit → List α → m (Unit ⊕ β) := fun _ arrangement => do
    match ← test arrangement with
    | some answer => pure (.inr answer)
    | none => pure (.inl ())
  match ← searchFrom visit (arrangementBound entries.length) (start direction entries) () with
  | .inl _ => pure none
  | .inr answer => pure (some answer)

/-- The answers of a test over all arrangements, in the order of the walk. -/
@[inline] def collectM {m : Type → Type} [Monad m] [MonadExceptOf Fault m] {β : Type}
    (direction : Direction) (entries : List α) (test : List α → m (Option β)) :
    m (List β) := do
  let visit : List β → List α → m (List β ⊕ Empty) := fun answers arrangement => do
    match ← test arrangement with
    | some answer => pure (.inl (answer :: answers))
    | none => pure (.inl answers)
  match ← searchFrom visit (arrangementBound entries.length) (start direction entries) [] with
  | .inl answers => pure answers.reverse

end Walk

end NumberPuzzles
