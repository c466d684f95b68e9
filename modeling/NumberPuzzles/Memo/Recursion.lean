import NumberPuzzles.Memo

/-!
# Memoised recursion

The body of a recursive function is a script: it ends with a value or a failure,
it changes a state that all levels share, or it asks for the function's own value
at some input and goes on with the answer.  Following a script with the memo
answering its questions keeps every level of the recursion.  A question may be
about the very input that is being evaluated; whichever level finishes first then
decides the value for all of them.
-/

namespace NumberPuzzles

/-- What a body does next: end, fail, change the shared state and look at what it
was, or ask for the function's own value. -/
inductive Script (κ ν σ ε α : Type) where
  | done (value : α)
  | fail (failure : ε)
  | step (change : σ → σ) (resume : σ → Script κ ν σ ε α)
  | ask (input : κ) (resume : ν → Script κ ν σ ε α)

namespace Script

variable {κ ν σ ε α β : Type}

def andThen (script : Script κ ν σ ε α) (next : α → Script κ ν σ ε β) : Script κ ν σ ε β :=
  match script with
  | done value => next value
  | fail failure => fail failure
  | step change resume => step change fun state => (resume state).andThen next
  | ask input resume => ask input fun answer => (resume answer).andThen next

instance : Monad (Script κ ν σ ε) where
  pure := done
  bind := andThen

def self (input : κ) : Script κ ν σ ε ν := ask input done

/-- A script that asks nothing. -/
def ofExcept : Except ε α → Script κ ν σ ε α
  | .ok value => done value
  | .error failure => fail failure

instance : MonadLift (Except ε) (Script κ ν σ ε) where
  monadLift := ofExcept

/-- Runs a script on a memo, with a computation that answers its questions. -/
@[specialize] def follow [BEq κ] [Hashable κ] (answer : κ → Run (Memo κ ν σ) ε ν) :
    Script κ ν σ ε α → Run (Memo κ ν σ) ε α
  | done value => pure value
  | fail failure => throw failure
  | step change resume => fun ⟨kept, inner⟩ =>
      follow answer (resume inner) ⟨kept, change inner⟩
  | ask input resume => fun memo =>
      match (answer input).run.run memo with
      | (.ok value, memo) => follow answer (resume value) memo
      | (.error failure, memo) => (.error failure, memo)

end Script

namespace Memo

variable {κ ν σ : Type} [BEq κ] [Hashable κ]

/-- The value of a recursive function at an input, every level through the memo.
A recursion nested deeper than the given depth is stopped. -/
def recurse (body : κ → Script κ ν σ Fault ν) :
    (depth : Nat) → (input : κ) → Run (Memo κ ν σ) Fault ν
  | 0, _ => throw .endless
  | depth + 1, input => through (fun input => (body input).follow (recurse body depth)) input

/-- A recursive body that counts how often it has been entered and may use the
count, the entry at hand included. -/
def countedScript (body : Nat → κ → Script κ ν Nat Fault ν) (input : κ) :
    Script κ ν Nat Fault ν :=
  .step (· + 1) fun entered => body (entered + 1) input

end Memo

end NumberPuzzles
