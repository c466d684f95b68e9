import NumberPuzzles.Proofs.Memo.Moments
import NumberPuzzles.Proofs.Memo.Plain

/-!
# A memoised recursion agrees with the plain one

Where the self-calls of a pure body are well-founded, the memo changes how often the body
is entered but not what a call answers.  A table that keeps values of the plain recursion
only is kept so by every call, whether it returns or is unwound.  What a call adds lies
below its input in the order of the self-calls, so an input has no value while it is being
evaluated; without a fault it has one from then on and is not entered again.  An input
where the plain recursion faults is never kept, and a fault passes through all callers.
-/

namespace NumberPuzzles.Memo

variable {κ ν σ : Type} [BEq κ] [Hashable κ]

def Sound (body : κ → Script κ ν σ Fault ν) (kept : Std.HashMap κ ν) : Prop :=
  ∀ input value, kept[input]? = some value → PlainOutcome body input (.ok value)

/-- A moment that keeps to the plain recursion: the table keeps plain values only, a value
that is returned is kept, and a fault is that of the input and of all callers. -/
structure Truthful (body : κ → Script κ ν σ Fault ν) (moment : Moment κ ν) : Prop where
  sound : Sound body moment.kept
  returned : ∀ value, moment.event = .returned value →
    moment.kept[moment.input]? = some value
  unwound : ∀ fault, moment.event = .unwound fault →
    ∀ input ∈ moment.input :: moment.callers, PlainOutcome body input (.error fault)

/-- A stretch of a run, from a memo to a memo: every moment keeps to the plain recursion,
the table only grows, and the shared state is marked for each entry. -/
structure Stretch (mark : κ → σ → σ) (body : κ → Script κ ν σ Fault ν)
    (before after : Memo κ ν σ) (moments : List (Moment κ ν)) : Prop where
  grows : Extends before.kept after.kept
  sound : Sound body after.kept
  truthful : ∀ moment ∈ moments, Truthful body moment
  between : ∀ moment ∈ moments,
    Extends before.kept moment.kept ∧ Extends moment.kept after.kept
  ordered : moments.Pairwise fun earlier later => Extends earlier.kept later.kept
  marked : after.inner =
    (entries moments).foldl (fun state input => mark input state) before.inner

/-- A stretch of a run without faults, in which the entered inputs lie in a given range:
each is entered once, had no value before and has one afterwards. -/
structure EntersOnce (range : κ → Prop) (before after : Memo κ ν σ)
    (moments : List (Moment κ ν)) : Prop where
  calm : ∀ moment ∈ moments, ∀ fault, moment.event ≠ .unwound fault
  inRange : ∀ input ∈ entries moments, range input
  nodup : (entries moments).Nodup
  new : ∀ input ∈ entries moments, input ∉ before.kept
  kept : ∀ input, input ∈ after.kept ↔ input ∈ before.kept ∨ input ∈ entries moments
  size : after.kept.size = before.kept.size + (entries moments).length

variable {mark : κ → σ → σ} {body : κ → Script κ ν σ Fault ν} {before middle after : Memo κ ν σ}
  {left right : List (Moment κ ν)}

theorem Sound.not_mem_of_fault [LawfulBEq κ] {kept : Std.HashMap κ ν} (hsound : Sound body kept)
    {input : κ} {fault : Fault} (hplain : PlainOutcome body input (.error fault)) :
    input ∉ kept := by
  intro hmember
  obtain ⟨value, hvalue⟩ := Option.isSome_iff_exists.mp
    (Std.HashMap.mem_iff_isSome_getElem?.mp hmember)
  cases (hsound input value hvalue).unique hplain

theorem Stretch.append (hleft : Stretch mark body before middle left)
    (hright : Stretch mark body middle after right) :
    Stretch mark body before after (left ++ right) where
  grows := hleft.grows.trans hright.grows
  sound := hright.sound
  truthful := List.forall_mem_append.mpr ⟨hleft.truthful, hright.truthful⟩
  between := by
    refine List.forall_mem_append.mpr ⟨?_, ?_⟩
    · intro moment hmoment
      obtain ⟨hbefore, hmiddle⟩ := hleft.between moment hmoment
      exact ⟨hbefore, hmiddle.trans hright.grows⟩
    · intro moment hmoment
      obtain ⟨hmiddle, hafter⟩ := hright.between moment hmoment
      exact ⟨hleft.grows.trans hmiddle, hafter⟩
  ordered := by
    refine List.pairwise_append.mpr ⟨hleft.ordered, hright.ordered, ?_⟩
    intro earlier hearlier later hlater
    exact (hleft.between earlier hearlier).2.trans (hright.between later hlater).1
  marked := by rw [entries_append, List.foldl_append, ← hleft.marked, hright.marked]

theorem EntersOnce.append {range : κ → Prop} (hleft : EntersOnce range before middle left)
    (hright : EntersOnce range middle after right) :
    EntersOnce range before after (left ++ right) where
  calm := List.forall_mem_append.mpr ⟨hleft.calm, hright.calm⟩
  inRange := by
    rw [entries_append]
    exact List.forall_mem_append.mpr ⟨hleft.inRange, hright.inRange⟩
  nodup := by
    rw [entries_append]
    refine List.nodup_append.mpr ⟨hleft.nodup, hright.nodup, ?_⟩
    rintro input hinput _ hagain rfl
    exact hright.new input hagain ((hleft.kept input).mpr (.inr hinput))
  new := by
    rw [entries_append]
    refine List.forall_mem_append.mpr ⟨hleft.new, ?_⟩
    intro input hinput hbefore
    exact hright.new input hinput ((hleft.kept input).mpr (.inl hbefore))
  kept input := by rw [hright.kept, hleft.kept, entries_append, List.mem_append, or_assoc]
  size := by rw [hright.size, hleft.size, entries_append, List.length_append, Nat.add_assoc]

theorem Stretch.nil (hsound : Sound body before.kept) : Stretch mark body before before [] where
  grows := Extends.refl before.kept
  sound := hsound
  truthful := nofun
  between := nofun
  ordered := .nil
  marked := rfl

/-- A single moment, at which the table has what it has from then on. -/
theorem Stretch.single {moment : Moment κ ν} (hgrows : Extends before.kept after.kept)
    (hsound : Sound body after.kept) (hkept : moment.kept = after.kept)
    (hreturned : ∀ value, moment.event = .returned value →
      after.kept[moment.input]? = some value)
    (hunwound : ∀ fault, moment.event = .unwound fault →
      ∀ input ∈ moment.input :: moment.callers, PlainOutcome body input (.error fault))
    (hmarked : after.inner =
      (entries [moment]).foldl (fun state input => mark input state) before.inner) :
    Stretch mark body before after [moment] where
  grows := hgrows
  sound := hsound
  truthful := by
    refine List.forall_mem_singleton.mpr ⟨hkept ▸ hsound, ?_, hunwound⟩
    rwa [hkept]
  between := List.forall_mem_singleton.mpr ⟨hkept ▸ hgrows, hkept ▸ Extends.refl _⟩
  ordered := List.pairwise_singleton _ _
  marked := hmarked

/-- Entering the body marks the shared state. -/
theorem stretch_entered {input : κ} {callers : List κ} (hsound : Sound body before.kept) :
    Stretch mark body before ⟨before.kept, mark input before.inner⟩
      [⟨input, .entered, callers, before.kept⟩] :=
  Stretch.single (Extends.refl _) hsound rfl nofun nofun rfl

theorem EntersOnce.nil {range : κ → Prop} : EntersOnce range before before [] := by
  constructor <;> simp

theorem EntersOnce.hit {range : κ → Prop} {input : κ} {value : ν} {callers : List κ} :
    EntersOnce range before before [⟨input, .returned value, callers, before.kept⟩] := by
  constructor <;> simp [entries]

theorem EntersOnce.widen {inner range : κ → Prop} (honce : EntersOnce inner before after left)
    (hinner : ∀ input, inner input → range input) : EntersOnce range before after left :=
  { honce with inRange := fun input hinput => hinner input (honce.inRange input hinput) }

section Lawful

variable [LawfulBEq κ] {input : κ} {value : ν} {callers : List κ} {memo : Memo κ ν σ}

/-- Keeping the plain value of an input that has none, and returning it. -/
theorem stretch_stored (hsound : Sound body memo.kept)
    (hplain : PlainOutcome body input (.ok value)) (hmissing : memo.kept[input]? = none) :
    Stretch mark body memo ⟨memo.kept.insertIfNew input value, memo.inner⟩
      [⟨input, .returned value, callers, memo.kept.insertIfNew input value⟩] := by
  have hstore : store memo.kept input value = (value, memo.kept.insertIfNew input value) := by
    rw [store_eq, hmissing]
    rfl
  have hkept := getElem?_store memo.kept input value
  have hgrows := extends_store memo.kept input value
  rw [hstore] at hkept hgrows
  have hstored : Sound body (memo.kept.insertIfNew input value) := by
    intro other known hknown
    by_cases hsame : other = input
    · subst hsame
      rw [hkept] at hknown
      cases hknown
      exact hplain
    · apply hsound other known
      rwa [Std.HashMap.getElem?_insertIfNew, if_neg (by simp [Ne.symm hsame])] at hknown
  refine Stretch.single hgrows hstored rfl ?_ nofun rfl
  rintro _ ⟨⟩
  exact hkept

/-- An evaluation that enters each input below its own once, and its own not at all, is
followed by keeping a value for its own. -/
theorem EntersOnce.enclose {range : κ → Prop} {marked : σ} {moments : List (Moment κ ν)}
    (honce : EntersOnce range ⟨memo.kept, marked⟩ after moments)
    (hmissing : input ∉ memo.kept) (hunentered : input ∉ entries moments)
    (hrange : range input) :
    EntersOnce range memo ⟨after.kept.insertIfNew input value, after.inner⟩
      (⟨input, .entered, callers, memo.kept⟩ ::
        (moments ++ [⟨input, .returned value, callers, after.kept.insertIfNew input value⟩])) := by
  have hentries : entries (⟨input, .entered, callers, memo.kept⟩ ::
      (moments ++ [⟨input, .returned value, callers, after.kept.insertIfNew input value⟩])) =
        input :: entries moments := by
    rw [entries_entered, entries_append]
    exact congrArg (List.cons input) (List.append_nil _)
  have hunkept : input ∉ after.kept := by
    rw [honce.kept, not_or]
    exact ⟨hmissing, hunentered⟩
  constructor
  · refine List.forall_mem_cons.mpr ⟨nofun, List.forall_mem_append.mpr ⟨honce.calm, ?_⟩⟩
    exact List.forall_mem_singleton.mpr nofun
  · rw [hentries]
    exact List.forall_mem_cons.mpr ⟨hrange, honce.inRange⟩
  · rw [hentries]
    exact List.nodup_cons.mpr ⟨hunentered, honce.nodup⟩
  · rw [hentries]
    exact List.forall_mem_cons.mpr ⟨hmissing, honce.new⟩
  · intro other
    rw [hentries, Std.HashMap.mem_insertIfNew, honce.kept, List.mem_cons, beq_iff_eq,
      eq_comm (a := input), or_left_comm]
  · rw [hentries, Std.HashMap.size_insertIfNew, if_neg hunkept, honce.size, List.length_cons,
      Nat.add_assoc]

end Lawful

/-! ## Calls and scripts -/

/-- Below a script lie the inputs that it asks for and those that their self-calls lead to. -/
def Below (body : κ → Script κ ν σ Fault ν) (script : Script κ ν σ Fault ν) (input : κ) : Prop :=
  ∃ asked, Asks body script asked ∧ Relation.ReflTransGen (SelfCall body) input asked

/-- Where the plain recursion ends, nothing below the script of an input enters it. -/
theorem EntersOnce.not_mem_entries {input : κ} {outcome : Except Fault ν}
    {moments : List (Moment κ ν)} (hplain : PlainOutcome body input outcome)
    (honce : EntersOnce (Below body (body input)) before after moments) :
    input ∉ entries moments := by
  intro hentered
  obtain ⟨asked, hasked, hchain⟩ := honce.inRange input hentered
  exact not_selfCall_chain hplain (Relation.TransGen.tail' hchain hasked)

/-- A result and the moments that led to it are as the plain recursion has them: the
outcome is the same, and so is everything kept on the way; without a fault each input is
entered once. -/
structure Agreement (mark : κ → σ → σ) (body : κ → Script κ ν σ Fault ν) (range : κ → Prop)
    (outcome : Except Fault ν) (before : Memo κ ν σ) (result : Except Fault ν × Memo κ ν σ)
    (moments : List (Moment κ ν)) : Prop where
  ends : result.1 = outcome
  stretch : Stretch mark body before result.2 moments
  once : ∀ value, outcome = .ok value → EntersOnce range before result.2 moments

/-- Following a script agrees with the plain recursion from every memo that keeps plain
values.  A fault is expected only under callers that end with the same fault. -/
def ScriptAgrees (mark : κ → σ → σ) (body : κ → Script κ ν σ Fault ν) (depth : Nat)
    (script : Script κ ν σ Fault ν) (outcome : Except Fault ν) : Prop :=
  ∀ (callers : List κ) (memo : Memo κ ν σ), Sound body memo.kept →
    (∀ fault, outcome = .error fault →
        ∀ caller ∈ callers, PlainOutcome body caller (.error fault)) →
      Agreement mark body (Below body script) outcome memo
        ((script.follow (recurse (marking mark body) depth)).run.run memo)
        (scriptMoments (recurse (marking mark body) depth)
          (callMoments (marking mark body) depth callers) script memo)

/-- A call agrees with the plain recursion from every memo that keeps plain values. -/
def CallAgrees (mark : κ → σ → σ) (body : κ → Script κ ν σ Fault ν) (depth : Nat)
    (input : κ) (outcome : Except Fault ν) : Prop :=
  ∀ (callers : List κ) (memo : Memo κ ν σ), Sound body memo.kept →
    (∀ fault, outcome = .error fault →
        ∀ caller ∈ callers, PlainOutcome body caller (.error fault)) →
      Agreement mark body (Relation.ReflTransGen (SelfCall body) · input) outcome memo
        ((recurse (marking mark body) depth input).run.run memo)
        (callMoments (marking mark body) depth callers input memo)

section Agreement

variable {depth : Nat} {input : κ} {script : Script κ ν σ Fault ν} {outcome : Except Fault ν}
  {callers : List κ} {memo : Memo κ ν σ}

theorem hit_agrees {value : ν} (hsound : Sound body memo.kept)
    (hkept : memo.kept[input]? = some value) :
    Agreement mark body (Relation.ReflTransGen (SelfCall body) · input) (.ok value) memo
      ((recurse (marking mark body) (depth + 1) input).run.run memo)
      (callMoments (marking mark body) (depth + 1) callers input memo) := by
  have hrun : (recurse (marking mark body) (depth + 1) input).run.run memo =
      (.ok value, memo) := through_hit hkept
  rw [hrun, callMoments_hit hkept]
  refine ⟨rfl, Stretch.single (Extends.refl _) hsound rfl ?_ nofun rfl, ?_⟩
  · rintro _ ⟨⟩
    exact hkept
  · intro _ _
    exact EntersOnce.hit

/-- A fault of the script ends the call with that fault, and all its callers after it. -/
theorem unwound_agrees {fault : Fault} (hsound : Sound body memo.kept)
    (hmissing : memo.kept[input]? = none) (hplain : PlainOutcome body input (.error fault))
    (hcallers : ∀ caller ∈ callers, PlainOutcome body caller (.error fault))
    (hscript : ScriptAgrees mark body depth (body input) (.error fault)) :
    Agreement mark body (Relation.ReflTransGen (SelfCall body) · input) (.error fault) memo
      ((recurse (marking mark body) (depth + 1) input).run.run memo)
      (callMoments (marking mark body) (depth + 1) callers input memo) := by
  have hfaults : ∀ other ∈ input :: callers, PlainOutcome body other (.error fault) :=
    List.forall_mem_cons.mpr ⟨hplain, hcallers⟩
  have hbody : Agreement mark body _ _ _ _ _ :=
    hscript (input :: callers) ⟨memo.kept, mark input memo.inner⟩ hsound
      (by rintro _ ⟨⟩; exact hfaults)
  rw [callMoments_marking_miss hmissing]
  rcases hfollow : ((body input).follow (recurse (marking mark body) depth)).run.run
    ⟨memo.kept, mark input memo.inner⟩ with ⟨reached, after⟩
  rw [hfollow] at hbody
  have hreached : reached = .error fault := hbody.ends
  subst hreached
  have hrun : (recurse (marking mark body) (depth + 1) input).run.run memo =
      (.error fault, after) := through_failed hmissing hfollow
  have hunwound : Stretch mark body after after [⟨input, .unwound fault, callers, after.kept⟩] :=
    Stretch.single (Extends.refl _) hbody.stretch.sound rfl nofun
      (by rintro _ ⟨⟩; exact hfaults) rfl
  rw [hrun]
  exact ⟨rfl, (stretch_entered hsound).append (hbody.stretch.append hunwound), nofun⟩

section Lawful

variable [LawfulBEq κ]

/-- The value of the script is kept and returned, since the calls inside have kept none
for the input. -/
theorem returned_agrees {value : ν} (hsound : Sound body memo.kept)
    (hmissing : memo.kept[input]? = none) (hplain : PlainOutcome body input (.ok value))
    (hscript : ScriptAgrees mark body depth (body input) (.ok value)) :
    Agreement mark body (Relation.ReflTransGen (SelfCall body) · input) (.ok value) memo
      ((recurse (marking mark body) (depth + 1) input).run.run memo)
      (callMoments (marking mark body) (depth + 1) callers input memo) := by
  have hbody := hscript (input :: callers) ⟨memo.kept, mark input memo.inner⟩ hsound nofun
  rw [callMoments_marking_miss hmissing]
  generalize scriptMoments (recurse (marking mark body) depth)
    (callMoments (marking mark body) depth (input :: callers)) (body input)
    ⟨memo.kept, mark input memo.inner⟩ = moments at hbody ⊢
  rcases hfollow : ((body input).follow (recurse (marking mark body) depth)).run.run
    ⟨memo.kept, mark input memo.inner⟩ with ⟨reached, after⟩
  rw [hfollow] at hbody
  have hreached : reached = .ok value := hbody.ends
  subst hreached
  have honce := hbody.once value rfl
  have hunentered : input ∉ entries moments := honce.not_mem_entries hplain
  have hunmember : input ∉ memo.kept := by
    rw [Std.HashMap.mem_iff_isSome_getElem?, hmissing]
    exact Bool.false_ne_true
  have hunkept : after.kept[input]? = none := by
    apply Std.HashMap.getElem?_eq_none
    rw [honce.kept, not_or]
    exact ⟨hunmember, hunentered⟩
  have hrun : (recurse (marking mark body) (depth + 1) input).run.run memo =
      (.ok value, ⟨after.kept.insertIfNew input value, after.inner⟩) := by
    rw [recurse, through_stored hmissing hfollow, store_eq, hunkept]
    rfl
  rw [hrun]
  refine ⟨rfl, ?_, ?_⟩
  · exact (stretch_entered hsound).append
      (hbody.stretch.append (stretch_stored hbody.stretch.sound hplain hunkept))
  · intro _ _
    refine (honce.widen ?_).enclose hunmember hunentered .refl
    rintro other ⟨asked, hasked, hchain⟩
    exact hchain.tail hasked

/-- A call agrees with the plain recursion if the script of its input does. -/
theorem callAgrees (hplain : PlainOutcome body input outcome)
    (hscript : ScriptAgrees mark body depth (body input) outcome) :
    CallAgrees mark body (depth + 1) input outcome := by
  intro callers memo hsound hcallers
  cases hkept : memo.kept[input]? with
  | some value =>
      cases hplain.unique (hsound input value hkept)
      exact hit_agrees hsound hkept
  | none =>
      cases outcome with
      | ok value => exact returned_agrees hsound hkept hplain hscript
      | error fault => exact unwound_agrees hsound hkept hplain (hcallers fault rfl) hscript

end Lawful

/-! ## Scripts -/

theorem answered_agrees {answer : ν} {resume : ν → Script κ ν σ Fault ν}
    (hplain : PlainOutcome body input (.ok answer))
    (hinput : CallAgrees mark body depth input (.ok answer))
    (hrest : ScriptAgrees mark body depth (resume answer) outcome) :
    ScriptAgrees mark body depth (.ask input resume) outcome := by
  intro callers memo hsound hcallers
  have hcall := hinput callers memo hsound nofun
  rcases hrun : (recurse (marking mark body) depth input).run.run memo with ⟨reached, middle⟩
  rw [hrun] at hcall
  have hreached : reached = .ok answer := hcall.ends
  subst hreached
  have hbehind := hrest callers middle hcall.stretch.sound hcallers
  rw [follow_ask_ok hrun]
  simp only [scriptMoments, hrun]
  refine ⟨hbehind.ends, hcall.stretch.append hbehind.stretch, ?_⟩
  intro value hvalue
  have hfirst : EntersOnce (Below body (.ask input resume)) memo middle _ :=
    (hcall.once answer rfl).widen fun other hchain => ⟨input, .now input resume, hchain⟩
  have hlater : EntersOnce (Below body (.ask input resume)) middle _ _ :=
    (hbehind.once value hvalue).widen fun other ⟨asked, hasked, hchain⟩ =>
      ⟨asked, .later hplain hasked, hchain⟩
  exact hfirst.append hlater

theorem refused_agrees {fault : Fault} {resume : ν → Script κ ν σ Fault ν}
    (hinput : CallAgrees mark body depth input (.error fault)) :
    ScriptAgrees mark body depth (.ask input resume) (.error fault) := by
  intro callers memo hsound hcallers
  have hcall := hinput callers memo hsound hcallers
  rcases hrun : (recurse (marking mark body) depth input).run.run memo with ⟨reached, middle⟩
  rw [hrun] at hcall
  have hreached : reached = .error fault := hcall.ends
  subst hreached
  rw [follow_ask_error hrun]
  simp only [scriptMoments, hrun, List.append_nil]
  exact ⟨rfl, hcall.stretch, nofun⟩

theorem done_agrees (value : ν) : ScriptAgrees mark body depth (.done value) (.ok value) := by
  intro callers memo hsound _
  exact ⟨rfl, Stretch.nil hsound, fun _ _ => EntersOnce.nil⟩

theorem fail_agrees (fault : Fault) : ScriptAgrees mark body depth (.fail fault) (.error fault) := by
  intro callers memo hsound _
  exact ⟨rfl, Stretch.nil hsound, nofun⟩

end Agreement

section Lawful

variable [LawfulBEq κ]

/-- A call needs one level more than the script of its input. -/
theorem callAgrees_of_bound {input : κ} {outcome : Except Fault ν} {bound depth : Nat}
    (hplain : PlainOutcome body input outcome)
    (hscript : ∀ depth, bound ≤ depth → ScriptAgrees mark body depth (body input) outcome)
    (hdepth : bound + 1 ≤ depth) : CallAgrees mark body depth input outcome := by
  cases depth with
  | zero => exact absurd hdepth (Nat.not_succ_le_zero bound)
  | succ depth => exact callAgrees hplain (hscript depth (Nat.le_of_succ_le_succ hdepth))

/-- A script that ends plainly is followed to the same end at every depth that is great
enough.  The induction is on the plain evaluation. -/
theorem exists_scriptAgrees (mark : κ → σ → σ) {script : Script κ ν σ Fault ν}
    {outcome : Except Fault ν} (hends : Ends body script outcome) :
    ∃ bound, ∀ depth, bound ≤ depth → ScriptAgrees mark body depth script outcome := by
  induction hends with
  | done value => exact ⟨0, fun _ _ => done_agrees value⟩
  | fail fault => exact ⟨0, fun _ _ => fail_agrees fault⟩
  | answered hinput _ ihInput ihRest =>
      obtain ⟨boundInput, hinputAgrees⟩ := ihInput
      obtain ⟨boundRest, hrestAgrees⟩ := ihRest
      refine ⟨max (boundInput + 1) boundRest, ?_⟩
      intro depth hdepth
      have hdeep := Nat.le_trans (Nat.le_max_left _ _) hdepth
      have hrest := Nat.le_trans (Nat.le_max_right _ _) hdepth
      exact answered_agrees hinput (callAgrees_of_bound hinput hinputAgrees hdeep)
        (hrestAgrees depth hrest)
  | refused hinput ihInput =>
      obtain ⟨bound, hinputAgrees⟩ := ihInput
      refine ⟨bound + 1, ?_⟩
      intro depth hdepth
      exact refused_agrees (callAgrees_of_bound hinput hinputAgrees hdepth)

theorem exists_callAgrees (mark : κ → σ → σ) {input : κ} {outcome : Except Fault ν}
    (hplain : PlainOutcome body input outcome) :
    ∃ bound, ∀ depth, bound ≤ depth → CallAgrees mark body depth input outcome := by
  obtain ⟨bound, hscript⟩ := exists_scriptAgrees mark hplain
  exact ⟨bound + 1, fun _ hdepth => callAgrees_of_bound hplain hscript hdepth⟩

end Lawful

end NumberPuzzles.Memo
