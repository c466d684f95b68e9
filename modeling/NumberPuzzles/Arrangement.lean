import NumberPuzzles.Word

/-!
# Neighbouring arrangements

The arrangements of a table are its rearrangements, ordered as words are: by the
first place where they differ.  The neighbour of an arrangement keeps as much of
its beginning as it can.  Behind that, one entry, the pivot, gives way to the
nearest entry on the far side of it among those that follow, and the rest is put
in the order in which a run of neighbours starts.  The table is changed in place,
and every position on the way is checked.
-/

namespace NumberPuzzles.Arrangement

variable {α : Type}

/-- The last position, below a given one, whose entry comes before the entry behind it. -/
@[specialize] def pivotBelow (before : α → α → Bool) (entries : Array α) :
    (position : Nat) → Checked (Option Nat)
  | 0 => .ok none
  | position + 1 => do
      let left ← Checked.entry entries position
      let right ← Checked.entry entries (position + 1)
      if before left right then return some position
      else pivotBelow before entries position

/-- The last position, from a given one down, whose entry the pivot comes before.
A step down from the first position is a fault. -/
@[specialize] def partnerFrom (before : α → α → Bool) (entries : Array α) (pivot : α) :
    (position : Nat) → Checked Nat
  | 0 => do
      if before pivot (← Checked.entry entries 0) then return 0 else .error .subtract
  | position + 1 => do
      if before pivot (← Checked.entry entries (position + 1)) then return position + 1
      else partnerFrom before entries pivot position

/-- Exchanges the pivot at a position with its partner, and turns round what follows. -/
@[specialize] def exchangeAt (before : α → α → Bool) (entries : Array α) (position : Nat) :
    Checked (Array α) := do
  let pivot ← Checked.entry entries position
  let partner ← partnerFrom before entries pivot (← Checked.sub entries.size 1)
  Checked.reverseFrom (← Checked.swap entries position partner) (position + 1)

/-- Turns the entries into the neighbouring arrangement on the side that `before`
points to and answers true, or answers false when there is none on that side. -/
@[specialize] def advance (before : α → α → Bool) : Run (Array α) Fault Bool := do
  let entries ← get
  match ← pivotBelow before entries (entries.size - 1) with
  | none => return false
  | some position =>
      set (← exchangeAt before entries position)
      return true

variable [LT α] [DecidableLT α]

@[specialize] def next : Run (Array α) Fault Bool :=
  advance fun left right => decide (left < right)

@[specialize] def previous : Run (Array α) Fault Bool :=
  advance fun left right => decide (right < left)

end NumberPuzzles.Arrangement
