import Mathlib.Logic.Relation
import NumberPuzzles.Memo.Sample

/-!
# Recursion without a memo

Evaluated plainly, the script of a recursive body ends with a value or a failure after
each question in it has been answered by evaluating the body again.  A script that asks
and computes, and leaves the shared state alone, ends in at most one way.  It does end
if the questions that lead on from its input are well-founded, and only then, so no
input is asked for again while it is being evaluated.
-/

namespace NumberPuzzles

/-- A script that neither changes the shared state nor looks at it. -/
def Script.IsPure {κ ν σ ε α : Type} : Script κ ν σ ε α → Prop
  | .done _ | .fail _ => True
  | .step _ _ => False
  | .ask _ resume => ∀ answer, (resume answer).IsPure

theorem Script.isPure_ofExcept {κ ν σ ε α : Type} (outcome : Except ε α) :
    (Script.ofExcept outcome : Script κ ν σ ε α).IsPure := by
  cases outcome with
  | ok value => trivial
  | error failure => trivial

namespace Memo

variable {κ ν σ ε : Type}

/-- How a script of a body ends when nothing is kept: each question is answered by
evaluating the body at the input asked for, and a failure there ends the script too. -/
inductive Ends (body : κ → Script κ ν σ ε ν) : Script κ ν σ ε ν → Except ε ν → Prop
  | done (value : ν) : Ends body (.done value) (.ok value)
  | fail (failure : ε) : Ends body (.fail failure) (.error failure)
  | answered {input : κ} {answer : ν} {resume : ν → Script κ ν σ ε ν} {outcome : Except ε ν}
      (hinput : Ends body (body input) (.ok answer))
      (hrest : Ends body (resume answer) outcome) : Ends body (.ask input resume) outcome
  | refused {input : κ} {failure : ε} {resume : ν → Script κ ν σ ε ν}
      (hinput : Ends body (body input) (.error failure)) :
      Ends body (.ask input resume) (.error failure)

/-- The plain recursion returns a value at an input, or fails there. -/
abbrev PlainOutcome (body : κ → Script κ ν σ ε ν) (input : κ) (outcome : Except ε ν) : Prop :=
  Ends body (body input) outcome

/-- An input that is asked for while a script is evaluated plainly. -/
inductive Asks (body : κ → Script κ ν σ ε ν) : Script κ ν σ ε ν → κ → Prop
  | now (input : κ) (resume : ν → Script κ ν σ ε ν) : Asks body (.ask input resume) input
  | later {input other : κ} {answer : ν} {resume : ν → Script κ ν σ ε ν}
      (hinput : PlainOutcome body input (.ok answer))
      (hrest : Asks body (resume answer) other) : Asks body (.ask input resume) other

/-- The body, evaluated at the outer input, asks for its own value at the inner one. -/
def SelfCall (body : κ → Script κ ν σ ε ν) (inner outer : κ) : Prop :=
  Asks body (body outer) inner

variable {body : κ → Script κ ν σ ε ν}

theorem not_asks_ofExcept {outcome : Except ε ν} {input : κ} :
    ¬ Asks body (Script.ofExcept outcome) input := by
  intro hasks
  cases outcome with
  | ok value => cases hasks
  | error failure => cases hasks

/-- The plain recursion ends in at most one way. -/
theorem Ends.unique {script : Script κ ν σ ε ν} {left right : Except ε ν}
    (hleft : Ends body script left) (hright : Ends body script right) : left = right := by
  induction hleft generalizing right with
  | done value => cases hright; rfl
  | fail failure => cases hright; rfl
  | answered hinput hrest ihInput ihRest =>
      cases hright with
      | answered hagain hother =>
          cases ihInput hagain
          exact ihRest hother
      | refused hagain => cases ihInput hagain
  | refused hinput ihInput =>
      cases hright with
      | answered hagain hother => cases ihInput hagain
      | refused hagain => exact ihInput hagain

/-! ## Well-founded self-calls -/

/-- A pure script ends if the plain recursion ends at every input that it asks for. -/
theorem exists_ends_of_asked {script : Script κ ν σ ε ν} (hpure : script.IsPure)
    (hasked : ∀ input, Asks body script input → ∃ outcome, PlainOutcome body input outcome) :
    ∃ outcome, Ends body script outcome := by
  induction script with
  | done value => exact ⟨_, .done value⟩
  | fail failure => exact ⟨_, .fail failure⟩
  | step change resume => exact hpure.elim
  | ask input resume ih =>
      obtain ⟨failure | answer, hinput⟩ := hasked input (.now input resume)
      · exact ⟨_, .refused hinput⟩
      · have hrest : ∃ outcome, Ends body (resume answer) outcome := by
          apply ih answer (hpure answer)
          intro other hother
          exact hasked other (.later hinput hother)
        obtain ⟨outcome, hrest⟩ := hrest
        exact ⟨outcome, .answered hinput hrest⟩

/-- The plain recursion of a pure body ends where the self-calls are well-founded. -/
theorem exists_plainOutcome (hpure : ∀ input, (body input).IsPure) {input : κ}
    (hwell : Acc (SelfCall body) input) : ∃ outcome, PlainOutcome body input outcome := by
  induction hwell with
  | intro input _ ih => exact exists_ends_of_asked (hpure input) ih

theorem Ends.acc_of_asks {script : Script κ ν σ ε ν} {outcome : Except ε ν}
    (hends : Ends body script outcome) {other : κ} (hasks : Asks body script other) :
    Acc (SelfCall body) other := by
  induction hends generalizing other with
  | done value => cases hasks
  | fail failure => cases hasks
  | answered hinput hrest ihInput ihRest =>
      cases hasks with
      | now => exact Acc.intro _ fun inner hinner => ihInput hinner
      | later hagain hother =>
          cases hinput.unique hagain
          exact ihRest hother
  | refused hinput ihInput =>
      cases hasks with
      | now => exact Acc.intro _ fun inner hinner => ihInput hinner
      | later hagain hother => cases hinput.unique hagain

/-- Where the plain recursion ends, no chain of self-calls leads back to its start. -/
theorem not_selfCall_chain {input : κ} {outcome : Except ε ν}
    (hplain : PlainOutcome body input outcome) :
    ¬ Relation.TransGen (SelfCall body) input input := by
  have hwell : Acc (Relation.TransGen (SelfCall body)) input :=
    (Acc.intro _ fun _ hinner => hplain.acc_of_asks hinner).transGen
  clear hplain
  induction hwell with
  | intro input _ ih =>
      intro hchain
      exact ih input hchain hchain

end Memo

end NumberPuzzles
