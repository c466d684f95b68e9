/-!
# Faults

Every quantity that a puzzle computes has a declared width.  A step whose exact
result falls outside that width stops the computation, and a `Fault` says which
check it was.  Nothing wraps: an answer is either exact or a fault.
-/

namespace NumberPuzzles

/-- The check that stopped a computation. -/
inductive Fault where
  | add
  | subtract
  | multiply
  /-- A power past its width.  Raising is one operation with a check and a wording of its own,
  not the multiplications that it is made of. -/
  | exponentiate
  | negate
  | divide
  | remainder
  /-- A position that a table does not have. -/
  | outOfRange
  /-- A table of more bytes than any table may have. -/
  | capacity
  /-- A text cut inside the encoding of a character. -/
  | splitCharacter
  /-- A self-reference nested deeper than there are machine words. -/
  | endless
  deriving DecidableEq, Repr, Inhabited

namespace Fault

/-- The wording of an arithmetic fault; the other faults carry none. -/
def message? : Fault → Option String
  | add => some "attempt to add with overflow"
  | subtract => some "attempt to subtract with overflow"
  | multiply => some "attempt to multiply with overflow"
  | exponentiate => some "attempt to exponentiate with overflow"
  | negate => some "attempt to negate with overflow"
  | divide => some "attempt to divide by zero"
  | remainder => some "attempt to calculate the remainder with a divisor of zero"
  | outOfRange | capacity | splitCharacter | endless => none

end Fault

/-- A value, or the check that stopped its computation. -/
abbrev Checked := Except Fault

namespace Checked

variable {α β : Type}

@[simp]
theorem bind_ok (value : α) (next : α → Checked β) :
    ((.ok value : Checked α) >>= next) = next value := rfl

@[simp]
theorem bind_error (stop : Fault) (next : α → Checked β) :
    ((.error stop : Checked α) >>= next) = .error stop := rfl

theorem pure_eq (value : α) : (pure value : Checked α) = .ok value := rfl

end Checked

/-- A computation over a state that survives a failure: the state reached when a
check stops it is still the state that the next computation starts from. -/
abbrev Run (σ ε : Type) := ExceptT ε (StateM σ)

namespace Run

variable {σ ε α β : Type}

@[simp]
theorem run_pure (value : α) (state : σ) :
    (pure value : Run σ ε α).run.run state = (.ok value, state) := rfl

@[simp]
theorem run_get (state : σ) : (get : Run σ ε σ).run.run state = (.ok state, state) := rfl

@[simp]
theorem run_set (next state : σ) :
    (set next : Run σ ε PUnit).run.run state = (.ok ⟨⟩, next) := rfl

@[simp]
theorem run_modify (change : σ → σ) (state : σ) :
    (modify change : Run σ ε PUnit).run.run state = (.ok ⟨⟩, change state) := rfl

@[simp]
theorem run_lift (value : Checked α) (state : σ) :
    (liftM value : Run σ Fault α).run.run state = (value, state) := rfl

theorem run_bind_ok {action : Run σ ε α} {state after : σ} {value : α}
    (haction : action.run.run state = (.ok value, after)) (next : α → Run σ ε β) :
    (action >>= next).run.run state = (next value).run.run after := by
  simp only [ExceptT.run_bind, StateT.run_bind, haction]
  rfl

end Run

end NumberPuzzles
