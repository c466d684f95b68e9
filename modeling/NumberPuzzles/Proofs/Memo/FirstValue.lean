import NumberPuzzles.Proofs.Memo.Kept
import NumberPuzzles.Memo.Sample

/-!
# The first value of an input is its only one

A run of a memoised function is a sequence of calls, and with a recursive body
each call makes calls of its own.  Every call that ends with a value is written
down with that value and with what the memo kept at that moment, in the order in
which the calls ended.  However the bodies fail, count their entries or ask for
the input at hand, the tables written down only grow, and each value is the one
its table keeps; so an input has the same value throughout.
-/

namespace NumberPuzzles.Memo

variable {κ ν σ ε α : Type} [BEq κ] [Hashable κ]

/-- A call that ended with a value, and what the memo kept when it ended. -/
structure Return (κ ν : Type) [BEq κ] [Hashable κ] where
  input : κ
  value : ν
  kept : Std.HashMap κ ν

def returnOf (call : κ → Run (Memo κ ν σ) ε ν) (input : κ) (memo : Memo κ ν σ) :
    List (Return κ ν) :=
  match (call input).run.run memo with
  | (.ok value, after) => [⟨input, value, after.kept⟩]
  | (.error _, _) => []

def scriptReturns (answer : κ → Run (Memo κ ν σ) ε ν)
    (inside : κ → Memo κ ν σ → List (Return κ ν)) :
    Script κ ν σ ε α → Memo κ ν σ → List (Return κ ν)
  | .done _, _ | .fail _, _ => []
  | .step change resume, memo =>
      scriptReturns answer inside (resume memo.inner) ⟨memo.kept, change memo.inner⟩
  | .ask input resume, memo =>
      inside input memo ++
        match (answer input).run.run memo with
        | (.ok value, after) => scriptReturns answer inside (resume value) after
        | (.error _, _) => []

/-- The returns during a call of a memoised recursion, at every level of it: first
those of the calls that its body makes, and then its own. -/
def recurseReturns (body : κ → Script κ ν σ Fault ν) :
    (depth : Nat) → (input : κ) → Memo κ ν σ → List (Return κ ν)
  | 0, _, _ => []
  | depth + 1, input, memo =>
      (match memo.kept[input]? with
        | some _ => []
        | none => scriptReturns (recurse body depth) (recurseReturns body depth)
            (body input) memo) ++
        returnOf (recurse body (depth + 1)) input memo

/-- The memo after a sequence of calls, of which some may have failed. -/
def memoAfter (call : κ → Run (Memo κ ν σ) ε ν) : List κ → Memo κ ν σ → Memo κ ν σ
  | [], memo => memo
  | input :: inputs, memo => memoAfter call inputs ((call input).run.run memo).2

def runReturns (call : κ → Run (Memo κ ν σ) ε ν)
    (inside : κ → Memo κ ν σ → List (Return κ ν)) :
    List κ → Memo κ ν σ → List (Return κ ν)
  | [], _ => []
  | input :: inputs, memo =>
      inside input memo ++ runReturns call inside inputs ((call input).run.run memo).2

/-- Between a table before and a table after them, the returns have tables that only
grow, and each has the value that its table keeps. -/
def Settled (before : Std.HashMap κ ν) :
    (returns : List (Return κ ν)) → (after : Std.HashMap κ ν) → Prop
  | [], after => Extends before after
  | first :: returns, after =>
      Extends before first.kept ∧ first.kept[first.input]? = some first.value ∧
        Settled first.kept returns after

/-- In a run, every input has one value: tables only grow, from the table before the
run to the table after it; each return has the value kept at its end; and two returns
for one input have one value. -/
structure OneValueEach (before : Std.HashMap κ ν) (returns : List (Return κ ν))
    (after : Std.HashMap κ ν) : Prop where
  grows : (before :: (returns.map Return.kept ++ [after])).Pairwise Extends
  kept : ∀ single ∈ returns, single.kept[single.input]? = some single.value
  agree : ∀ first ∈ returns, ∀ second ∈ returns,
    (first.input == second.input) = true → first.value = second.value

/-! ## One step -/

theorem Settled.extends {before after : Std.HashMap κ ν} {returns : List (Return κ ν)}
    (hsettled : Settled before returns after) : Extends before after := by
  induction returns generalizing before with
  | nil => exact hsettled
  | cons first returns ih => exact hsettled.1.trans (ih hsettled.2.2)

theorem Settled.weaken {earlier before after : Std.HashMap κ ν}
    {returns : List (Return κ ν)} (hearlier : Extends earlier before)
    (hsettled : Settled before returns after) : Settled earlier returns after := by
  cases returns with
  | nil => exact hearlier.trans hsettled
  | cons first returns => exact ⟨hearlier.trans hsettled.1, hsettled.2⟩

theorem Settled.append {before middle after : Std.HashMap κ ν}
    {left right : List (Return κ ν)} (hleft : Settled before left middle)
    (hright : Settled middle right after) : Settled before (left ++ right) after := by
  induction left generalizing before with
  | nil => exact hright.weaken hleft
  | cons first left ih => exact ⟨hleft.1, hleft.2.1, ih hleft.2.2⟩

/-- The own return of a faithful call settles what the memo keeps. -/
theorem returnOf_settled {call : κ → Run (Memo κ ν σ) ε ν} (hcall : Faithful call)
    (input : κ) (memo : Memo κ ν σ) :
    Settled memo.kept (returnOf call input memo) ((call input).run.run memo).2.kept := by
  have hgrows := hcall.grows input memo
  rcases hrun : (call input).run.run memo with ⟨failure | value, after⟩
  · simp only [returnOf, hrun] at hgrows ⊢
    exact hgrows
  · simp only [returnOf, hrun] at hgrows ⊢
    exact ⟨hgrows, hcall.answers hrun, Extends.refl after.kept⟩

/-- Following a script settles what the memo keeps, if each of its questions does. -/
theorem scriptReturns_settled {answer : κ → Run (Memo κ ν σ) ε ν}
    {inside : κ → Memo κ ν σ → List (Return κ ν)}
    (hinside : ∀ input memo,
      Settled memo.kept (inside input memo) ((answer input).run.run memo).2.kept)
    (script : Script κ ν σ ε α) (memo : Memo κ ν σ) :
    Settled memo.kept (scriptReturns answer inside script memo)
      ((script.follow answer).run.run memo).2.kept := by
  induction script generalizing memo with
  | done value => exact Extends.refl memo.kept
  | fail failure => exact Extends.refl memo.kept
  | step change resume ih => exact ih memo.inner ⟨memo.kept, change memo.inner⟩
  | ask input resume ih =>
      have hask := hinside input memo
      rcases hrun : (answer input).run.run memo with ⟨failure | value, after⟩
      · rw [hrun] at hask
        rw [follow_ask_error hrun]
        simpa only [scriptReturns, hrun, List.append_nil] using hask
      · rw [hrun] at hask
        rw [follow_ask_ok hrun]
        simp only [scriptReturns, hrun]
        exact hask.append (ih value after)

/-- A call of a memoised recursion settles what the memo keeps, with all the calls
inside it.  The induction is on the depth: the calls inside are one level deeper. -/
theorem recurseReturns_settled [EquivBEq κ] [LawfulHashable κ]
    (body : κ → Script κ ν σ Fault ν) (depth : Nat) (input : κ) (memo : Memo κ ν σ) :
    Settled memo.kept (recurseReturns body depth input memo)
      ((recurse body depth input).run.run memo).2.kept := by
  induction depth generalizing input memo with
  | zero => exact Extends.refl memo.kept
  | succ depth ih =>
      cases hkept : memo.kept[input]? with
      | some value =>
          simp only [recurseReturns, hkept, List.nil_append]
          exact returnOf_settled (recurse_faithful body (depth + 1)) input memo
      | none =>
          have hbody := scriptReturns_settled ih (body input) memo
          simp only [recurseReturns, hkept]
          refine hbody.append ?_
          rcases hrun : ((body input).follow (recurse body depth)).run.run memo with
            ⟨failure | value, after⟩
          · have hcall : (recurse body (depth + 1) input).run.run memo =
                (.error failure, after) := through_failed hkept hrun
            simp only [returnOf, hcall]
            exact Extends.refl after.kept
          · have hcall : (recurse body (depth + 1) input).run.run memo =
                (.ok (store after.kept input value).1,
                  ⟨(store after.kept input value).2, after.inner⟩) :=
              through_stored hkept hrun
            simp only [returnOf, hcall]
            exact ⟨extends_store _ _ _, getElem?_store _ _ _, Extends.refl _⟩

/-! ## Whole runs -/

theorem runReturns_settled {call : κ → Run (Memo κ ν σ) ε ν}
    {inside : κ → Memo κ ν σ → List (Return κ ν)}
    (hinside : ∀ input memo,
      Settled memo.kept (inside input memo) ((call input).run.run memo).2.kept)
    (inputs : List κ) (memo : Memo κ ν σ) :
    Settled memo.kept (runReturns call inside inputs memo)
      (memoAfter call inputs memo).kept := by
  induction inputs generalizing memo with
  | nil => exact Extends.refl memo.kept
  | cons input inputs ih => exact (hinside input memo).append (ih _)

theorem Settled.pairwise {before after : Std.HashMap κ ν} {returns : List (Return κ ν)}
    (hsettled : Settled before returns after) :
    (before :: (returns.map Return.kept ++ [after])).Pairwise Extends := by
  induction returns generalizing before with
  | nil =>
      have hends : Extends before after := hsettled
      simpa using hends
  | cons first returns ih =>
      obtain ⟨hfirst, hkept, hrest⟩ := hsettled
      have hlater := ih hrest
      refine List.pairwise_cons.mpr ⟨?_, hlater⟩
      intro table htable
      rcases List.mem_cons.mp htable with rfl | htable
      · exact hfirst
      · exact hfirst.trans (List.rel_of_pairwise_cons hlater htable)

theorem Settled.kept_of_mem {before after : Std.HashMap κ ν} {returns : List (Return κ ν)}
    (hsettled : Settled before returns after) {single : Return κ ν}
    (hmember : single ∈ returns) :
    single.kept[single.input]? = some single.value ∧ Extends single.kept after := by
  induction returns generalizing before with
  | nil => cases hmember
  | cons first returns ih =>
      obtain ⟨hfirst, hkept, hrest⟩ := hsettled
      rcases List.mem_cons.mp hmember with rfl | hmember
      · exact ⟨hkept, hrest.extends⟩
      · exact ih hrest hmember

theorem Settled.oneValueEach [EquivBEq κ] [LawfulHashable κ]
    {before after : Std.HashMap κ ν} {returns : List (Return κ ν)}
    (hsettled : Settled before returns after) : OneValueEach before returns after where
  grows := hsettled.pairwise
  kept single hmember := (hsettled.kept_of_mem hmember).1
  agree first hfirst second hsecond hsame := by
    -- The last table keeps the values of both.
    obtain ⟨hkeptFirst, hgrowsFirst⟩ := hsettled.kept_of_mem hfirst
    obtain ⟨hkeptSecond, hgrowsSecond⟩ := hsettled.kept_of_mem hsecond
    have hlastFirst := hgrowsFirst _ _ hkeptFirst
    have hlastSecond := hgrowsSecond _ _ hkeptSecond
    rw [Std.HashMap.getElem?_congr hsame, hlastSecond] at hlastFirst
    exact (Option.some.inj hlastFirst).symm

/-- For a memoised function of any body, and for a memoised recursion of any body and
to any depth, every sequence of calls leaves each input with one value: the first
that was kept. -/
theorem first_value_wins [EquivBEq κ] [LawfulHashable κ] :
    (∀ (body : κ → Run σ ε ν) (inputs : List κ) (memo : Memo κ ν σ),
      OneValueEach memo.kept
        (runReturns (apply body) (returnOf (apply body)) inputs memo)
        (memoAfter (apply body) inputs memo).kept) ∧
    (∀ (body : κ → Script κ ν σ Fault ν) (depth : Nat) (inputs : List κ)
        (memo : Memo κ ν σ),
      OneValueEach memo.kept
        (runReturns (recurse body depth) (recurseReturns body depth) inputs memo)
        (memoAfter (recurse body depth) inputs memo).kept) := by
  constructor
  · intro body inputs memo
    have hcall := returnOf_settled (ν := ν) (apply_faithful body)
    exact (runReturns_settled hcall inputs memo).oneValueEach
  · intro body depth inputs memo
    have hcall := recurseReturns_settled body depth
    exact (runReturns_settled hcall inputs memo).oneValueEach

/-- A body that asks for its own input: the call inside ends first, with 9, and that
value answers the outer call too, although the outer body arrives at 91. -/
theorem reenter_answers_inner_value :
    ((recurse (countedScript (Sample.reenter 2)) 2 7).run.run (Memo.empty 0)).1 = .ok 9 ∧
      OneValueEach (Memo.empty 0 : Memo Nat Nat Nat).kept
        (runReturns (recurse (countedScript (Sample.reenter 2)) 2)
          (recurseReturns (countedScript (Sample.reenter 2)) 2) [7] (Memo.empty 0))
        (memoAfter (recurse (countedScript (Sample.reenter 2)) 2) [7] (Memo.empty 0)).kept := by
  refine ⟨?_, (first_value_wins (ε := Fault)).2 _ _ _ _⟩
  have hmissing (entered : Nat) : (⟨∅, entered⟩ : Memo Nat Nat Nat).kept[7]? = none :=
    Std.HashMap.getElem?_empty
  have hsecond : ((countedScript (Sample.reenter 2) 7).follow
      (recurse (countedScript (Sample.reenter 2)) 0)).run.run ⟨∅, 1⟩ =
        (.ok 9, ⟨∅, 2⟩) := rfl
  have hinner : (recurse (countedScript (Sample.reenter 2)) 1 7).run.run ⟨∅, 1⟩ =
      (.ok 9, ⟨(store ∅ 7 9).2, 2⟩) := by
    rw [recurse, through_stored (hmissing 1) hsecond, store_eq]
    simp
  have hfirst : ((countedScript (Sample.reenter 2) 7).follow
      (recurse (countedScript (Sample.reenter 2)) 1)).run.run ⟨∅, 0⟩ =
        (.ok 91, ⟨(store ∅ 7 9).2, 2⟩) := by
    change ((Script.ask 7 _).follow _).run.run _ = _
    rw [follow_ask_ok hinner]
    rfl
  have hkept : (store (∅ : Std.HashMap Nat Nat) 7 9).2[7]? = some 9 := by
    rw [getElem?_store, store_eq, Std.HashMap.getElem?_empty]
    rfl
  rw [Memo.empty, recurse, through_stored (hmissing 0) hfirst, store_eq, hkept]
  rfl

end NumberPuzzles.Memo
