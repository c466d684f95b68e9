import NumberPuzzles.Proofs.Memo.FirstValue
import NumberPuzzles.Proofs.Memo.Moments
import NumberPuzzles.Proofs.Puzzle.Collatz.Trajectory

/-!
# The chain lengths that the memo keeps

At every time the memo keeps exactly the terms of the chains of the starts that were
answered, each with the length of its own chain.  A call answers from it as soon as its
chain meets a term that is kept, and adds the terms before that one on the way back.  A
chain that leaves the words is never answered: none of its terms up to there is kept, and
the fault passes all of them without keeping one.
-/

namespace NumberPuzzles.Collatz

/-- The table keeps the terms of the chains of some starts, each with the length of its
own chain, and nothing else.  These chains are in words. -/
structure Keeps (kept : Std.HashMap Nat Nat) (starts : Set Nat) : Prop where
  inWords : ∀ start ∈ starts, InWords start
  kept : ∀ number length, kept[number]? = some length ↔
    HasLength number length ∧ ∃ start ∈ starts, IsTerm start number

variable {kept : Std.HashMap Nat Nat} {starts later : Set Nat} {start length depth : Nat}
  {terms rest : List Nat} {memo after : LengthMemo}

theorem keeps_empty : Keeps noLengths.kept ∅ where
  inWords := nofun
  kept number length := by
    rw [noLengths, Memo.empty, Std.HashMap.getElem?_empty]
    simp

theorem Keeps.inWords_of_kept (hkeeps : Keeps kept starts) (hkept : kept[start]? = some length) :
    InWords start := by
  obtain ⟨-, earlier, hearlier, hterm⟩ := (hkeeps.kept start length).mp hkept
  exact (hkeeps.inWords earlier hearlier).of_isTerm hterm

/-- A start that is kept already adds nothing. -/
theorem Keeps.insert_of_kept (hkeeps : Keeps kept starts) (hkept : kept[start]? = some length) :
    Keeps kept (insert start starts) where
  inWords := Set.forall_mem_insert.mpr ⟨hkeeps.inWords_of_kept hkept, hkeeps.inWords⟩
  kept number value := by
    obtain ⟨-, earlier, hearlier, hterm⟩ := (hkeeps.kept start length).mp hkept
    rw [hkeeps.kept]
    refine and_congr_right fun _ => ?_
    rw [Set.exists_mem_insert]
    constructor
    · exact .inr
    · rintro (hnumber | hother)
      · exact ⟨earlier, hearlier, hterm.trans hnumber⟩
      · exact hother

/-- Keeping the length of a chain for its start, when all its later terms are kept. -/
theorem Keeps.store (hkeeps : Keeps kept later) (hlength : HasLength start length)
    (hwords : ∀ earlier ∈ insert start starts, InWords earlier)
    (hcover : ∀ number, (∃ earlier ∈ insert start starts, IsTerm earlier number) ↔
      number = start ∨ ∃ earlier ∈ later, IsTerm earlier number) :
    (Memo.store kept start length).1 = length ∧
      Keeps (Memo.store kept start length).2 (insert start starts) := by
  have hvalue : (Memo.store kept start length).1 = length := by
    rw [Memo.store_eq]
    cases hkept : kept[start]? with
    | none => rfl
    | some known => exact ((hkeeps.kept start known).mp hkept).1.unique hlength
  refine ⟨hvalue, hwords, ?_⟩
  intro number value
  rw [hcover]
  by_cases hsame : number = start
  · subst hsame
    rw [Memo.getElem?_store, hvalue, Option.some.injEq]
    constructor
    · rintro rfl
      exact ⟨hlength, .inl rfl⟩
    · rintro ⟨hvalue, -⟩
      exact hlength.unique hvalue
  · have hother : (Memo.store kept start length).2[number]? = kept[number]? := by
      rw [Memo.store_eq, Std.HashMap.getElem?_insertIfNew, if_neg (by simp [Ne.symm hsame])]
    rw [hother, hkeeps.kept, or_iff_right hsame]

/-! ## The script of a chain -/

theorem lengthScript_last (hsmall : start < 2) : lengthScript start = .done 1 := by
  rw [lengthScript, if_pos hsmall]
  rfl

theorem lengthScript_next (hlarge : 2 ≤ start) (hword : following start < word) :
    lengthScript start =
      .ask (following start) fun rest => Script.ofExcept (Checked.add word rest 1) := by
  rw [lengthScript, if_neg (by omega)]
  by_cases heven : start % 2 = 0
  · rw [following, if_pos heven, if_pos heven]
    rfl
  · rw [following, if_neg heven] at hword ⊢
    have hodd : afterOdd start = .ok (3 * start + 1) := by
      rw [afterOdd, Checked.mul, if_pos (by omega)]
      exact if_pos hword
    rw [if_neg heven, hodd]
    rfl

def IsOverflow (fault : Fault) : Prop := fault = .multiply ∨ fault = .add

theorem lengthScript_past (hlarge : 2 ≤ start) (hstart : start < word)
    (hpast : word ≤ following start) :
    ∃ fault, IsOverflow fault ∧ lengthScript start = .fail fault := by
  rw [lengthScript, if_neg (by omega)]
  by_cases heven : start % 2 = 0
  · rw [following, if_pos heven] at hpast
    omega
  · rw [following, if_neg heven] at hpast
    rw [if_neg heven]
    by_cases hproduct : 3 * start < word
    · have hodd : afterOdd start = .error .add := by
        rw [afterOdd, Checked.mul, if_pos hproduct]
        exact if_neg (by omega)
      rw [hodd]
      exact ⟨.add, .inr rfl, rfl⟩
    · have hodd : afterOdd start = .error .multiply := by
        rw [afterOdd, Checked.mul, if_neg hproduct]
        rfl
      rw [hodd]
      exact ⟨.multiply, .inl rfl, rfl⟩

/-! ## One call -/

/-- How a call ends at a memo that keeps the chains of some starts.  If the chain of the
start is in words, the answer is its length, and its terms are kept beside the others;
otherwise the call ends in an overflow and the memo is as before. -/
inductive CallEnds (starts : Set Nat) (start : Nat) (memo : LengthMemo) :
    Except Fault Nat × LengthMemo → Prop
  | answered {length : Nat} {after : LengthMemo} (hwords : InWords start)
      (hlength : HasLength start length) (hkeeps : Keeps after.kept (insert start starts)) :
      CallEnds starts start memo (.ok length, after)
  | unwound {fault : Fault} (hpast : ¬ InWords start) (hfault : IsOverflow fault) :
      CallEnds starts start memo (.error fault, memo)

/-- The term of a chain from a start below two is the start. -/
theorem exists_isTerm_insert_last (hsmall : start < 2) (number : Nat) :
    (∃ earlier ∈ insert start starts, IsTerm earlier number) ↔
      number = start ∨ ∃ earlier ∈ starts, IsTerm earlier number := by
  rw [Set.exists_mem_insert, isTerm_iff (.last hsmall), List.mem_singleton]

/-- The terms of another chain are its start and those of the chain that follows. -/
theorem exists_isTerm_insert_next (hlarge : 2 ≤ start) (hrest : IsChain (following start) rest)
    (number : Nat) :
    (∃ earlier ∈ insert start starts, IsTerm earlier number) ↔
      number = start ∨ ∃ earlier ∈ insert (following start) starts, IsTerm earlier number := by
  rw [Set.exists_mem_insert, Set.exists_mem_insert, isTerm_iff_following hlarge hrest, or_assoc]

theorem callEnds_hit (hkeeps : Keeps memo.kept starts) (hkept : memo.kept[start]? = some length) :
    CallEnds starts start memo ((Memo.recurse lengthScript (depth + 1) start).run.run memo) := by
  rw [Memo.recurse, Memo.through_hit hkept]
  exact .answered (hkeeps.inWords_of_kept hkept) ((hkeeps.kept start length).mp hkept).1
    (hkeeps.insert_of_kept hkept)

/-- A start below two is a chain by itself. -/
theorem callEnds_last (hkeeps : Keeps memo.kept starts) (hmissing : memo.kept[start]? = none)
    (hsmall : start < 2) :
    CallEnds starts start memo ((Memo.recurse lengthScript (depth + 1) start).run.run memo) := by
  have hchain : IsChain start [start] := .last hsmall
  have hword : 2 < word := by decide
  have hwords : InWords start := ⟨[start], hchain, List.forall_mem_singleton.mpr (by omega)⟩
  have hlength : HasLength start 1 := ⟨[start], hchain, rfl⟩
  have hrun : ((lengthScript start).follow (Memo.recurse lengthScript depth)).run.run memo =
      (.ok 1, memo) := by
    rw [lengthScript_last hsmall]
    rfl
  obtain ⟨hvalue, hstored⟩ :=
    hkeeps.store hlength (Set.forall_mem_insert.mpr ⟨hwords, hkeeps.inWords⟩)
      (exists_isTerm_insert_last hsmall)
  rw [Memo.recurse, Memo.through_stored hmissing hrun, hvalue]
  exact .answered hwords hlength hstored

/-- A start that is followed by no word ends the call before anything is kept. -/
theorem callEnds_past (hmissing : memo.kept[start]? = none) (hlarge : 2 ≤ start)
    (hstart : start < word) (hpast : word ≤ following start) :
    CallEnds starts start memo ((Memo.recurse lengthScript (depth + 1) start).run.run memo) := by
  obtain ⟨fault, hfault, hscript⟩ := lengthScript_past hlarge hstart hpast
  have hrun : ((lengthScript start).follow (Memo.recurse lengthScript depth)).run.run memo =
      (.error fault, memo) := by
    rw [hscript]
    rfl
  rw [Memo.recurse, Memo.through_failed hmissing hrun]
  refine .unwound ?_ hfault
  rw [inWords_iff_following hlarge hstart]
  intro hwords
  exact Nat.not_lt.mpr hpast hwords.lt_word

/-- A start with a word after it ends the call as the call for that word ends. -/
theorem callEnds_next (hmissing : memo.kept[start]? = none) (hlarge : 2 ≤ start)
    (hstart : start < word) (hword : following start < word)
    (hinner : CallEnds starts (following start) memo
      ((Memo.recurse lengthScript depth (following start)).run.run memo)) :
    CallEnds starts start memo ((Memo.recurse lengthScript (depth + 1) start).run.run memo) := by
  have hscript := lengthScript_next hlarge hword
  have hiff := inWords_iff_following hlarge hstart
  generalize hrun : (Memo.recurse lengthScript depth (following start)).run.run memo = result
    at hinner
  cases hinner with
  | @answered length middle hwords hlength hkeeps =>
      have hown : HasLength start (length + 1) := hlength.next hlarge
      have hsum : Checked.add word length 1 = .ok (length + 1) :=
        if_pos ((hiff.mpr hwords).length_lt hown)
      have hbody : ((lengthScript start).follow (Memo.recurse lengthScript depth)).run.run memo =
          (.ok (length + 1), middle) := by
        rw [hscript, Memo.follow_ask_ok hrun, hsum]
        rfl
      obtain ⟨rest, hrest, -⟩ := hwords
      obtain ⟨hfollowing, hearlier⟩ := Set.forall_mem_insert.mp hkeeps.inWords
      obtain ⟨hvalue, hstored⟩ := hkeeps.store hown
        (Set.forall_mem_insert.mpr ⟨hiff.mpr hfollowing, hearlier⟩)
        (exists_isTerm_insert_next hlarge hrest)
      rw [Memo.recurse, Memo.through_stored hmissing hbody, hvalue]
      exact .answered (hiff.mpr hfollowing) hown hstored
  | @unwound fault hpast hfault =>
      have hbody : ((lengthScript start).follow (Memo.recurse lengthScript depth)).run.run memo =
          (.error fault, memo) := by
        rw [hscript]
        exact Memo.follow_ask_error hrun _
      rw [Memo.recurse, Memo.through_failed hmissing hbody]
      exact .unwound (mt hiff.mp hpast) hfault

/-- A call ends as its chain does, at every depth that suffices for the terms up to where
the chain stops.  The induction is on these terms. -/
theorem recurse_ends (huntil : TermsUntil Stops start terms) (hstart : start < word)
    (hdepth : terms.length ≤ depth) (hkeeps : Keeps memo.kept starts) :
    CallEnds starts start memo ((Memo.recurse lengthScript depth start).run.run memo) := by
  induction huntil generalizing depth with
  | @last start hstop =>
      obtain ⟨depth, rfl⟩ := Nat.exists_eq_add_one.mpr (show 0 < depth from hdepth)
      cases hkept : memo.kept[start]? with
      | some length => exact callEnds_hit hkeeps hkept
      | none =>
          by_cases hsmall : start < 2
          · exact callEnds_last hkeeps hkept hsmall
          · exact callEnds_past hkept (by omega) hstart (hstop.resolve_left hsmall)
  | @next start rest hgo hrest ih =>
      rw [List.length_cons] at hdepth
      obtain ⟨depth, rfl⟩ := Nat.exists_eq_add_one.mpr (show 0 < depth by omega)
      rw [Stops, not_or, Nat.not_lt, Nat.not_le] at hgo
      cases hkept : memo.kept[start]? with
      | some length => exact callEnds_hit hkeeps hkept
      | none =>
          exact callEnds_next hkept hgo.1 hstart hgo.2
            (ih hgo.2 (Nat.le_of_succ_le_succ hdepth))

/-! ## Calls in sequence -/

/-- A start that is a word, and zero or else such that its trajectory comes to one or past
the words. -/
def Resolved (start : Nat) : Prop :=
  start < word ∧
    (start = 0 ∨ ∃ steps, following^[steps] start = 1 ∨ word ≤ following^[steps] start)

/-- Such a trajectory stops, as a chain in words. -/
theorem Resolved.exists_stops (hresolved : Resolved start) :
    ∃ terms, TermsUntil Stops start terms := by
  obtain ⟨hstart, rfl | ⟨steps, hone | hpast⟩⟩ := hresolved
  · exact ⟨[0], .last (.inl (by decide))⟩
  · exact exists_termsUntil steps (.inl (by omega))
  · cases steps with
    | zero => exact absurd hstart (Nat.not_lt.mpr hpast)
    | succ steps =>
        rw [Function.iterate_succ_apply'] at hpast
        exact exists_termsUntil steps (.inr hpast)

theorem chainLength_ends (huntil : TermsUntil Stops start terms) (hstart : start < word)
    (hkeeps : Keeps memo.kept starts) :
    CallEnds starts start memo ((chainLength start).run.run memo) := by
  have hdepth := huntil.length_lt (fun _ => .inl) (huntil.in_words hstart)
  exact recurse_ends huntil hstart hdepth.le hkeeps

def answeredStarts (calls : List Nat) (memo : LengthMemo) : Set Nat :=
  {start | ∃ length, (start, .ok length) ∈ calls.zip (Memo.outcomes chainLength calls memo)}

theorem answeredStarts_cons_ok {calls : List Nat}
    (hrun : (chainLength start).run.run memo = (.ok length, after)) :
    answeredStarts (start :: calls) memo = insert start (answeredStarts calls after) := by
  ext other
  simp only [answeredStarts, Memo.outcomes, hrun, List.zip_cons_cons, List.mem_cons,
    Set.mem_ofPred_eq, Set.mem_insert_iff, Prod.mk.injEq, Except.ok.injEq]
  constructor
  · rintro ⟨value, ⟨hsame, -⟩ | hlater⟩
    · exact .inl hsame
    · exact .inr ⟨value, hlater⟩
  · rintro (rfl | ⟨value, hlater⟩)
    · exact ⟨length, .inl ⟨rfl, rfl⟩⟩
    · exact ⟨value, .inr hlater⟩

theorem answeredStarts_cons_error {calls : List Nat} {fault : Fault}
    (hrun : (chainLength start).run.run memo = (.error fault, after)) :
    answeredStarts (start :: calls) memo = answeredStarts calls after := by
  ext other
  simp [answeredStarts, Memo.outcomes, hrun]

/-- A sequence of calls leaves kept the chains kept before and those of the starts that
were answered. -/
theorem memoAfter_keeps {calls : List Nat} (hcalls : ∀ call ∈ calls, Resolved call)
    (hkeeps : Keeps memo.kept starts) :
    Keeps (Memo.memoAfter chainLength calls memo).kept (answeredStarts calls memo ∪ starts) := by
  induction calls generalizing memo starts with
  | nil =>
      have hnone : answeredStarts [] memo = ∅ := by
        ext other
        simp [answeredStarts]
      rwa [hnone, Set.empty_union]
  | cons call calls ih =>
      obtain ⟨hcall, hlater⟩ := List.forall_mem_cons.mp hcalls
      obtain ⟨terms, huntil⟩ := hcall.exists_stops
      have hends := chainLength_ends huntil hcall.1 hkeeps
      generalize hrun : (chainLength call).run.run memo = result at hends
      cases hends with
      | answered hwords hlength hmiddle =>
          rw [answeredStarts_cons_ok hrun, Memo.memoAfter, hrun, Set.insert_union,
            ← Set.union_insert]
          exact ih hlater hmiddle
      | unwound hpast hfault =>
          rw [answeredStarts_cons_error hrun, Memo.memoAfter, hrun]
          exact ih hlater hkeeps

/-- After any calls, the memo keeps exactly the terms of the chains of the starts that were
answered, each with the length of its own chain.  The next call answers the length of its
chain if all its terms are words; otherwise it ends in an overflow, and the memo has as many
entries as before. -/
theorem lengths_after_any_calls {calls : List Nat} {start : Nat}
    (hcalls : ∀ call ∈ calls, Resolved call) (hstart : Resolved start) :
    (∀ number length, (Memo.memoAfter chainLength calls noLengths).kept[number]? = some length ↔
        HasLength number length ∧
          ∃ earlier ∈ answeredStarts calls noLengths, IsTerm earlier number) ∧
      (∀ terms, IsChain start terms → (∀ term ∈ terms, term < word) →
        ((chainLength start).run.run (Memo.memoAfter chainLength calls noLengths)).1 =
          .ok terms.length) ∧
      ((¬ ∃ terms, IsChain start terms ∧ ∀ term ∈ terms, term < word) →
        (∃ fault, IsOverflow fault ∧
          ((chainLength start).run.run (Memo.memoAfter chainLength calls noLengths)).1 =
            .error fault) ∧
        ((chainLength start).run.run (Memo.memoAfter chainLength calls noLengths)).2.size =
          (Memo.memoAfter chainLength calls noLengths).size) := by
  have hkeeps := memoAfter_keeps hcalls keeps_empty
  rw [Set.union_empty] at hkeeps
  refine ⟨hkeeps.kept, ?_⟩
  obtain ⟨stopped, huntil⟩ := hstart.exists_stops
  have hends := chainLength_ends huntil hstart.1 hkeeps
  generalize (chainLength start).run.run (Memo.memoAfter chainLength calls noLengths) = result
    at hends ⊢
  cases hends with
  | answered hwords hlength hafter =>
      refine ⟨?_, fun hpast => absurd hwords hpast⟩
      intro terms hchain _
      rw [hlength.unique ⟨terms, hchain, rfl⟩]
  | @unwound fault hpast hfault =>
      refine ⟨?_, fun _ => ⟨⟨fault, hfault, rfl⟩, rfl⟩⟩
      intro terms hchain hwords
      exact absurd ⟨terms, hchain, hwords⟩ hpast

/-- An odd third of the greatest word is followed by the number of words, which is none.  The
calls after it are answered all the same: the chain of 26 goes on with that of 13, which is
kept. -/
theorem lengths_after_unwound_call :
    (∀ call ∈ [13, 6148914691236517205, 0], Resolved call) ∧ Resolved 26 ∧
      ((chainLength 26).run.run
        (Memo.memoAfter chainLength [13, 6148914691236517205, 0] noLengths)).1 = .ok 11 := by
  have hcalls : ∀ call ∈ [13, 6148914691236517205, 0], Resolved call := by
    refine List.forall_mem_cons.mpr ⟨⟨by decide, .inr ⟨9, .inl (by decide)⟩⟩, ?_⟩
    refine List.forall_mem_cons.mpr ⟨⟨by decide, .inr ⟨1, .inr (by decide)⟩⟩, ?_⟩
    exact List.forall_mem_singleton.mpr ⟨by decide, .inl rfl⟩
  have hstart : Resolved 26 := ⟨by decide, .inr ⟨10, .inl (by decide)⟩⟩
  have hchain : IsChain 26 [26, 13, 40, 20, 10, 5, 16, 8, 4, 2, 1] := by
    iterate 10 refine .next (by decide) ?_
    exact .last (by decide)
  exact ⟨hcalls, hstart, (lengths_after_any_calls hcalls hstart).2.1 _ hchain (by decide)⟩

end NumberPuzzles.Collatz
