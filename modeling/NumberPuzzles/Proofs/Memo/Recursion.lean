import Mathlib.Data.List.Forall2
import NumberPuzzles.Proofs.Memo.Agreement

/-!
# Runs of a memoised recursion

A memoised recursion may be called again and again, and a fault in one call leaves behind
what the calls inside it have kept.  Each call of such a run ends as the plain recursion
does, as long as the depth suffices for all of them, because every call starts from a
table that keeps plain values only.
-/

namespace NumberPuzzles.Memo

variable {κ ν σ : Type} [BEq κ] [Hashable κ]

/-- A run of a memoised recursion, from an empty table on, that does what the plain
recursion does.  The tables of the run are those at its moments and the last one.  Where a
fault unwinds a call, none of them has its input or that of a call around it. -/
structure FollowsPlain (mark : κ → σ → σ) (body : κ → Script κ ν σ Fault ν) (start : σ)
    (inputs : List κ) (ended : List (Except Fault ν)) (moments : List (Moment κ ν))
    (final : Memo κ ν σ) : Prop where
  ends : List.Forall₂ (fun input outcome => ∀ other, PlainOutcome body input other ↔ other = outcome)
    inputs ended
  plain : ∀ table ∈ moments.map Moment.kept ++ [final.kept], ∀ input value,
    table[input]? = some value → PlainOutcome body input (.ok value)
  grows : (moments.map Moment.kept ++ [final.kept]).Pairwise Extends
  returned : ∀ moment ∈ moments, ∀ value, moment.event = .returned value →
    moment.kept[moment.input]? = some value
  unwound : ∀ moment ∈ moments, ∀ fault, moment.event = .unwound fault →
    ∀ input ∈ moment.input :: moment.callers,
      ∀ table ∈ moments.map Moment.kept ++ [final.kept], input ∉ table
  marked : final.inner = (entries moments).foldl (fun state input => mark input state) start
  once : (∀ outcome ∈ ended, ∃ value, outcome = .ok value) →
    (∀ moment ∈ moments, (entries moments).count moment.input = 1) ∧
      (entries moments).length = final.size

structure RunAgreement (mark : κ → σ → σ) (body : κ → Script κ ν σ Fault ν)
    (inputs : List κ) (ended : List (Except Fault ν)) (before after : Memo κ ν σ)
    (moments : List (Moment κ ν)) : Prop where
  ends : List.Forall₂ (PlainOutcome body) inputs ended
  stretch : Stretch mark body before after moments
  once : (∀ outcome ∈ ended, ∃ value, outcome = .ok value) →
    EntersOnce (fun _ => True) before after moments

variable {mark : κ → σ → σ} {body : κ → Script κ ν σ Fault ν} {before after : Memo κ ν σ}
  {moments : List (Moment κ ν)} {inputs : List κ} {ended : List (Except Fault ν)}

theorem RunAgreement.cons {input : κ} {outcome : Except Fault ν} {middle : Memo κ ν σ}
    {first : List (Moment κ ν)} {range : κ → Prop} (hplain : PlainOutcome body input outcome)
    (hcall : Agreement mark body range outcome before (outcome, middle) first)
    (hrun : RunAgreement mark body inputs ended middle after moments) :
    RunAgreement mark body (input :: inputs) (outcome :: ended) before after
      (first ++ moments) where
  ends := .cons hplain hrun.ends
  stretch := hcall.stretch.append hrun.stretch
  once hvalues := by
    obtain ⟨⟨value, hvalue⟩, hlater⟩ := List.forall_mem_cons.mp hvalues
    have hfirst := (hcall.once value hvalue).widen fun _ _ => trivial
    exact hfirst.append (hrun.once hlater)

/-- Every table of a stretch keeps plain values only. -/
theorem Stretch.forall_tables (hstretch : Stretch mark body before after moments) :
    ∀ table ∈ moments.map Moment.kept ++ [after.kept], Sound body table := by
  refine List.forall_mem_append.mpr ⟨?_, List.forall_mem_singleton.mpr hstretch.sound⟩
  refine List.forall_mem_map.mpr ?_
  intro moment hmoment
  exact (hstretch.truthful moment hmoment).sound

theorem Stretch.pairwise_tables (hstretch : Stretch mark body before after moments) :
    (moments.map Moment.kept ++ [after.kept]).Pairwise Extends := by
  refine List.pairwise_append.mpr
    ⟨List.pairwise_map.mpr hstretch.ordered, List.pairwise_singleton _ _, ?_⟩
  intro table htable last hlast
  obtain ⟨moment, hmoment, rfl⟩ := List.mem_map.mp htable
  rw [List.mem_singleton.mp hlast]
  exact (hstretch.between moment hmoment).2

section Lawful

variable [LawfulBEq κ]

/-- A sequence of calls, from any memo that keeps plain values, agrees with the plain
recursion at every depth that suffices for each of them. -/
theorem exists_runAgreement (mark : κ → σ → σ)
    (hends : ∀ input ∈ inputs, ∃ outcome, PlainOutcome body input outcome) :
    ∃ bound, ∀ depth, bound ≤ depth → ∀ memo : Memo κ ν σ, Sound body memo.kept →
      RunAgreement mark body inputs (outcomes (recurse (marking mark body) depth) inputs memo)
        memo (memoAfter (recurse (marking mark body) depth) inputs memo)
        (runMoments (marking mark body) depth inputs memo) := by
  induction inputs with
  | nil => exact ⟨0, fun _ _ memo hsound => ⟨.nil, Stretch.nil hsound, fun _ => .nil⟩⟩
  | cons input inputs ih =>
      obtain ⟨⟨outcome, hplain⟩, hlater⟩ := List.forall_mem_cons.mp hends
      obtain ⟨boundFirst, hfirst⟩ := exists_callAgrees mark hplain
      obtain ⟨boundRest, hrest⟩ := ih hlater
      refine ⟨max boundFirst boundRest, ?_⟩
      intro depth hdepth memo hsound
      have hcall := hfirst depth (Nat.le_trans (Nat.le_max_left _ _) hdepth) [] memo hsound
        fun _ _ => nofun
      rcases hrun : (recurse (marking mark body) depth input).run.run memo with ⟨reached, middle⟩
      rw [hrun] at hcall
      have hreached : reached = outcome := hcall.ends
      subst hreached
      simp only [outcomes, memoAfter, runMoments, hrun]
      exact .cons hplain hcall
        (hrest depth (Nat.le_trans (Nat.le_max_right _ _) hdepth) middle hcall.stretch.sound)

/-- Without a fault, and from an empty table on, the input of every moment is entered. -/
theorem EntersOnce.mem_entries {range : κ → Prop} {start : σ}
    (honce : EntersOnce range (Memo.empty start) after moments)
    (hstretch : Stretch mark body (Memo.empty start) after moments) {moment : Moment κ ν}
    (hmoment : moment ∈ moments) : moment.input ∈ entries moments := by
  cases hevent : moment.event with
  | entered => exact List.mem_filterMap.mpr ⟨moment, hmoment, by rw [hevent]⟩
  | returned value =>
      have hkept := (hstretch.truthful moment hmoment).returned value hevent
      have hlast := (hstretch.between moment hmoment).2 _ _ hkept
      have hmember : moment.input ∈ after.kept := by
        rw [Std.HashMap.mem_iff_isSome_getElem?, hlast, Option.isSome_some]
      exact ((honce.kept moment.input).mp hmember).resolve_left Std.HashMap.not_mem_empty
  | unwound fault => exact absurd hevent (honce.calm moment hmoment fault)

theorem RunAgreement.followsPlain {start : σ}
    (hrun : RunAgreement mark body inputs ended (Memo.empty start) after moments) :
    FollowsPlain mark body start inputs ended moments after where
  ends := hrun.ends.imp fun input outcome hplain other =>
    ⟨fun hother => hother.unique hplain, fun hsame => hsame ▸ hplain⟩
  plain := hrun.stretch.forall_tables
  grows := hrun.stretch.pairwise_tables
  returned moment hmoment := (hrun.stretch.truthful moment hmoment).returned
  unwound moment hmoment fault hevent input hinput table htable :=
    (hrun.stretch.forall_tables table htable).not_mem_of_fault
      ((hrun.stretch.truthful moment hmoment).unwound fault hevent input hinput)
  marked := hrun.stretch.marked
  once hvalues := by
    have honce := hrun.once hvalues
    refine ⟨?_, ?_⟩
    · intro moment hmoment
      rw [honce.nodup.count, if_pos (honce.mem_entries hrun.stretch hmoment)]
    · calc (entries moments).length = 0 + (entries moments).length := (Nat.zero_add _).symm
        _ = after.kept.size := honce.size.symm

/-- For every pure body and every sequence of calls whose self-calls are well-founded, the
memoised recursion does what the plain recursion does, at every depth that is great
enough. -/
theorem recursion_follows_plain (mark : κ → σ → σ) (body : κ → Script κ ν σ Fault ν)
    (hpure : ∀ input, (body input).IsPure) (start : σ) (inputs : List κ)
    (hwell : ∀ input ∈ inputs, Acc (SelfCall body) input) :
    ∃ bound, ∀ depth, bound ≤ depth →
      FollowsPlain mark body start inputs
        (outcomes (recurse (marking mark body) depth) inputs (Memo.empty start))
        (runMoments (marking mark body) depth inputs (Memo.empty start))
        (memoAfter (recurse (marking mark body) depth) inputs (Memo.empty start)) := by
  have hends (input : κ) (hinput : input ∈ inputs) : ∃ outcome, PlainOutcome body input outcome :=
    exists_plainOutcome hpure (hwell input hinput)
  obtain ⟨bound, hrun⟩ := exists_runAgreement mark hends
  have hempty : Sound body (Memo.empty start : Memo κ ν σ).kept := by
    intro input value hvalue
    rw [Memo.empty, Std.HashMap.getElem?_empty] at hvalue
    cases hvalue
  exact ⟨bound, fun depth hdepth => (hrun depth hdepth _ hempty).followsPlain⟩

end Lawful

/-! ## A body that asks for smaller inputs -/

theorem fibonacci_eq (entered input : Nat) : Sample.fibonacci entered input =
    if input < 2 then .done input
    else .ask (input - 1) fun previous => .ask (input - 2) fun beforeThat =>
      Script.ofExcept (Checked.add word previous beforeThat) := by
  rw [Sample.fibonacci]
  split
  · rfl
  · rfl

theorem fibonacci_isPure (entered input : Nat) : (Sample.fibonacci entered input).IsPure := by
  rw [fibonacci_eq]
  split
  · trivial
  · intro previous beforeThat
    exact Script.isPure_ofExcept _

theorem fibonacci_asks_smaller {entered inner outer : Nat}
    (hcall : SelfCall (Sample.fibonacci entered) inner outer) : inner < outer := by
  rw [SelfCall, fibonacci_eq] at hcall
  split at hcall
  case isTrue => cases hcall
  case isFalse hlarge =>
    cases hcall with
    | now => omega
    | later _ hrest =>
        cases hrest with
        | now => omega
        | later _ hlast => exact absurd hlast not_asks_ofExcept

theorem fibonacci_acc (entered input : Nat) :
    Acc (SelfCall (Sample.fibonacci entered)) input :=
  Subrelation.accessible fibonacci_asks_smaller (Nat.lt_wfRel.wf.apply input)

/-- The value at 94 exceeds a word.  A run that counts its entries meets the fault there and
still agrees with the plain recursion at 30. -/
theorem fibonacci_follows_plain :
    (∀ input, (Sample.fibonacci 0 input).IsPure) ∧
      (∀ input ∈ [94, 30], Acc (SelfCall (Sample.fibonacci 0)) input) ∧
      ∃ bound, ∀ depth, bound ≤ depth →
        FollowsPlain (fun _ entered => entered + 1) (Sample.fibonacci 0) 0 [94, 30]
          (outcomes (recurse (countedScript fun _ => Sample.fibonacci 0) depth) [94, 30]
            (Memo.empty 0))
          (runMoments (countedScript fun _ => Sample.fibonacci 0) depth [94, 30] (Memo.empty 0))
          (memoAfter (recurse (countedScript fun _ => Sample.fibonacci 0) depth) [94, 30]
            (Memo.empty 0)) := by
  have hpure := fibonacci_isPure 0
  have hwell : ∀ input ∈ [94, 30], Acc (SelfCall (Sample.fibonacci 0)) input :=
    fun input _ => fibonacci_acc 0 input
  rw [countedScript_eq_marking]
  exact ⟨hpure, hwell, recursion_follows_plain _ _ hpure 0 [94, 30] hwell⟩

end NumberPuzzles.Memo
