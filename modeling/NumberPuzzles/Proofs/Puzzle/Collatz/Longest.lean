import Mathlib.Tactic.IntervalCases
import NumberPuzzles.Proofs.Memo.Plain
import NumberPuzzles.Proofs.Progression
import NumberPuzzles.Proofs.Puzzle.Collatz.Lengths

/-!
# The longest chain is in the upper half

The chain from twice a start is the chain from the start with one more term in front.  So a
start below half the limit is beaten by its double, which is still below the limit, and no
start that is left out could have the longest chain.  Among the starts that are tried the
first of the longest chains is kept, since a later one has to be longer.  The search with
the memo thus finds what the search through all starts with plain lengths finds.
-/

namespace NumberPuzzles.Collatz

/-! ## Keeping the first of the best -/

def better (length : Nat → Nat) (best : Chain) (start : Nat) : Chain :=
  if best.length < length start then ⟨start, length start⟩ else best

/-- What a search through some starts comes to: it is as good as every start, and if it is
not the chain to beat it is the least start that is as good. -/
structure IsBestOf (length : Nat → Nat) (starts : List Nat) (toBeat best : Chain) : Prop where
  greatest : ∀ start ∈ starts, length start ≤ best.length
  origin : best = toBeat ∨
    best.start ∈ starts ∧ length best.start = best.length ∧
      ∀ start ∈ starts, length start = best.length → best.start ≤ start

theorem foldl_better (length : Nat → Nat) {starts : List Nat} (hsorted : starts.Pairwise (· < ·))
    (toBeat : Chain) : IsBestOf length starts toBeat (starts.foldl (better length) toBeat) := by
  induction starts using List.reverseRecOn with
  | nil => exact ⟨nofun, .inl rfl⟩
  | append_singleton starts last ih =>
      obtain ⟨hfront, -, hlast⟩ := List.pairwise_append.mp hsorted
      obtain ⟨hgreatest, horigin⟩ := ih hfront
      rw [List.foldl_append, List.foldl_cons, List.foldl_nil]
      generalize starts.foldl (better length) toBeat = best at hgreatest horigin ⊢
      rw [better]
      split
      next hlonger =>
        refine ⟨?_, .inr ⟨List.mem_append_right starts List.mem_cons_self, rfl, ?_⟩⟩
        · refine List.forall_mem_append.mpr ⟨?_, List.forall_mem_singleton.mpr le_rfl⟩
          intro start hstart
          exact (hgreatest start hstart).trans hlonger.le
        · refine List.forall_mem_append.mpr ⟨?_, List.forall_mem_singleton.mpr fun _ => le_rfl⟩
          intro start hstart (hequal : length start = length last)
          have := hgreatest start hstart
          omega
      next hshorter =>
        refine ⟨?_, horigin.imp_right ?_⟩
        · exact List.forall_mem_append.mpr
            ⟨hgreatest, List.forall_mem_singleton.mpr (Nat.not_lt.mp hshorter)⟩
        · rintro ⟨hmember, hlength, hleast⟩
          refine ⟨List.mem_append_left _ hmember, hlength, ?_⟩
          refine List.forall_mem_append.mpr ⟨hleast, List.forall_mem_singleton.mpr fun _ => ?_⟩
          exact (hlast best.start hmember last (List.mem_singleton_self last)).le

/-! ## The longest chain of all -/

/-- The chain is longest among those of all starts from one on below a limit, and its start
is the least such. -/
structure IsLongestBelow (limit : Nat) (best : Chain) : Prop where
  pos : 1 ≤ best.start
  below : best.start < limit
  hasLength : HasLength best.start best.length
  greatest : ∀ start length, 1 ≤ start → start < limit → HasLength start length →
    length ≤ best.length ∧ (length = best.length → best.start ≤ start)

theorem IsLongestBelow.unique {limit : Nat} {left right : Chain}
    (hleft : IsLongestBelow limit left) (hright : IsLongestBelow limit right) : left = right := by
  obtain ⟨hrl, hrlStart⟩ := hleft.greatest _ _ hright.pos hright.below hright.hasLength
  obtain ⟨hlr, hlrStart⟩ := hright.greatest _ _ hleft.pos hleft.below hleft.hasLength
  have hlength : left.length = right.length := Nat.le_antisymm hlr hrl
  have hstart : left.start = right.start :=
    Nat.le_antisymm (hrlStart hlength.symm) (hlrStart hlength)
  cases left
  cases right
  simp_all

/-- The double of a start has a chain longer by one. -/
theorem HasLength.double {start length : Nat} (hpos : 1 ≤ start) (hlength : HasLength start length) :
    HasLength (2 * start) (length + 1) := by
  apply HasLength.next (by omega)
  rwa [following, if_pos (by omega), Nat.mul_div_cancel_left start (by decide)]

section Search

variable {limit : Nat} {length : Nat → Nat}

/-- A bound on the lengths from some start on is one for the starts before it, and these
are below it, if their doubles are below the limit.  The induction is on the distance to
the limit, which is smaller for the double. -/
theorem length_le_of_doubles {first bound : Nat}
    (hdouble : ∀ start, start < first → 1 ≤ start → 2 * start < limit)
    (hlengths : ∀ start, 1 ≤ start → start < limit → HasLength start (length start))
    (hbound : ∀ start, first ≤ start → start < limit → length start ≤ bound) {start : Nat}
    (hpos : 1 ≤ start) (hbelow : start < limit) :
    length start ≤ bound ∧ (start < first → length start < bound) := by
  induction hdistance : limit - start using Nat.strong_induction_on generalizing start with
  | _ distance ih =>
      rcases Nat.lt_or_ge start first with hearly | hlate
      · have hbelowDouble := hdouble start hearly hpos
        have hlonger : length (2 * start) = length start + 1 :=
          (hlengths _ (by omega) hbelowDouble).unique ((hlengths start hpos hbelow).double hpos)
        have hle := (ih _ (by omega) (by omega) hbelowDouble rfl).1
        exact ⟨by omega, fun _ => by omega⟩
      · exact ⟨hbound start hlate hbelow, fun hearly => by omega⟩

/-- A search that begins late enough for the double of every start before it to be below
the limit finds the longest chain of all. -/
theorem foldl_isLongestBelow (first : Nat) (hfirst : 1 ≤ first) (hinside : first < limit)
    (hdouble : ∀ start, start < first → 1 ≤ start → 2 * start < limit)
    (hlengths : ∀ start, 1 ≤ start → start < limit → HasLength start (length start)) :
    IsLongestBelow limit ((List.range' first (limit - first)).foldl (better length) ⟨1, 1⟩) := by
  have hsorted : (List.range' first (limit - first)).Pairwise (· < ·) := List.pairwise_lt_range'
  obtain ⟨hgreatest, horigin⟩ := foldl_better length hsorted ⟨1, 1⟩
  generalize (List.range' first (limit - first)).foldl (better length) ⟨1, 1⟩ = best
    at hgreatest horigin ⊢
  have htried (start : Nat) : start ∈ List.range' first (limit - first) ↔
      first ≤ start ∧ start < limit := Progression.mem_toList_below
  have hbound := fun start hlate hbelow => hgreatest start ((htried start).mpr ⟨hlate, hbelow⟩)
  have hall {start : Nat} (hpos : 1 ≤ start) (hbelow : start < limit) :=
    length_le_of_doubles hdouble hlengths hbound hpos hbelow
  rcases horigin with rfl | ⟨hmember, hlength, hleast⟩
  · refine ⟨le_rfl, Nat.lt_of_le_of_lt hfirst hinside, ⟨[1], .last (by decide), rfl⟩, ?_⟩
    intro start own hpos hbelow hown
    rw [hown.unique (hlengths start hpos hbelow)]
    exact ⟨(hall hpos hbelow).1, fun _ => hpos⟩
  · obtain ⟨hlate, hbelow⟩ := (htried best.start).mp hmember
    have hpos := hfirst.trans hlate
    refine ⟨hpos, hbelow, hlength ▸ hlengths best.start hpos hbelow, ?_⟩
    intro start own hpos hstart hown
    rw [hown.unique (hlengths start hpos hstart)]
    obtain ⟨hle, hearly⟩ := hall hpos hstart
    refine ⟨hle, ?_⟩
    intro hequal
    have hlate : first ≤ start := Nat.not_lt.mp fun hbefore => (hearly hbefore).ne hequal
    exact hleast start ((htried start).mpr ⟨hlate, hstart⟩) hequal

end Search

/-! ## The two searches -/

def searchAll (length : Nat → Nat) (limit : Nat) : Chain :=
  (List.range' 1 (limit - 1)).foldl (better length) ⟨1, 1⟩

/-- The plain recursion gives the length of a chain in words. -/
theorem plainOutcome_length {start : Nat} {terms : List Nat} (hchain : IsChain start terms)
    (hwords : ∀ term ∈ terms, term < word) :
    Memo.PlainOutcome lengthScript start (.ok terms.length) := by
  induction hchain with
  | last hsmall =>
      rw [Memo.PlainOutcome, lengthScript_last hsmall]
      exact .done 1
  | @next start rest hgo hrest ih =>
      have hchain : IsChain start (start :: rest) := .next hgo hrest
      have hlength := TermsUntil.length_lt hchain (fun _ => id) hwords
      obtain ⟨-, hlater⟩ := List.forall_mem_cons.mp hwords
      have hsum : Checked.add word rest.length 1 = .ok (start :: rest).length :=
        if_pos hlength
      rw [Memo.PlainOutcome, lengthScript_next (Nat.not_lt.mp hgo) (hlater _ hrest.start_mem)]
      refine .answered (ih hlater) ?_
      rw [hsum]
      exact .done _

/-- A search among starts whose chains are in words keeps the first of the longest. -/
theorem longestAmong_run {numbers : Progression} {length : Nat → Nat}
    (hwords : ∀ start ∈ numbers.toList, InWords start ∧ HasLength start (length start)) :
    ∃ after, (longestAmong numbers).run.run noLengths =
      (.ok (numbers.toList.foldl (better length) ⟨1, 1⟩), after) := by
  have hvisit : ∀ best, ∀ start ∈ numbers.toList, ∀ memo : LengthMemo,
      (∃ starts, Keeps memo.kept starts) → ∃ after,
        (do
          let length ← chainLength start
          return if best.length < length then ⟨start, length⟩ else best :
            Run LengthMemo Fault Chain).run.run memo = (.ok (better length best start), after) ∧
        ∃ starts, Keeps after.kept starts := by
    intro best start hstart memo hkeeps
    obtain ⟨starts, hkeeps⟩ := hkeeps
    obtain ⟨⟨terms, hchain, hsmall⟩, hlength⟩ := hwords start hstart
    have hends := chainLength_ends (hchain.stops hsmall) (hsmall start hchain.start_mem) hkeeps
    generalize hrun : (chainLength start).run.run memo = result at hends
    cases hends with
    | @answered own after _ hown hafter =>
        refine ⟨after, ?_, _, hafter⟩
        rw [Run.run_bind_ok hrun, Run.run_pure, better, hown.unique hlength]
    | unwound hpast => exact absurd ⟨terms, hchain, hsmall⟩ hpast
  obtain ⟨after, hrun, -⟩ := Progression.foldFrom_run hvisit ⟨1, 1⟩ ⟨_, keeps_empty⟩
  exact ⟨after, hrun⟩

/-- If the chains of all starts below a limit are in words, the search through the upper half
returns the longest of them all, with the least start of those as long.  The search through
all starts, with the lengths that the plain recursion gives, returns the same. -/
theorem upper_half_has_longest {limit : Nat} (hlimit : 2 ≤ limit)
    (hwords : ∀ start, 1 ≤ start → start < limit → InWords start) :
    ∃ best, longestChainBelow limit = .ok best ∧ IsLongestBelow limit best ∧
      ∃ length : Nat → Nat,
        (∀ start, 1 ≤ start → start < limit →
          Memo.PlainOutcome lengthScript start (.ok (length start))) ∧
        best = searchAll length limit := by
  have hexists (start : Nat) : ∃ length, 1 ≤ start → start < limit →
      HasLength start length ∧ Memo.PlainOutcome lengthScript start (.ok length) := by
    by_cases hstart : 1 ≤ start ∧ start < limit
    · obtain ⟨terms, hchain, hsmall⟩ := hwords start hstart.1 hstart.2
      exact ⟨terms.length, fun _ _ => ⟨⟨terms, hchain, rfl⟩, plainOutcome_length hchain hsmall⟩⟩
    · exact ⟨0, fun hpos hbelow => absurd ⟨hpos, hbelow⟩ hstart⟩
  choose length hlength using hexists
  have hlengths (start : Nat) (hpos : 1 ≤ start) (hbelow : start < limit) :=
    (hlength start hpos hbelow).1
  have htried : ∀ start ∈ (Progression.below (max (limit / 2) 1) limit).toList,
      InWords start ∧ HasLength start (length start) := by
    intro start hstart
    obtain ⟨hlate, hbelow⟩ := Progression.mem_toList_below.mp hstart
    have hpos : 1 ≤ start := (Nat.le_max_right _ _).trans hlate
    exact ⟨hwords start hpos hbelow, hlengths start hpos hbelow⟩
  obtain ⟨after, hrun⟩ := longestAmong_run htried
  have hhalf := foldl_isLongestBelow (max (limit / 2) 1) (by omega) (by omega)
    (fun start hearly hpos => by omega) hlengths
  have hfull : IsLongestBelow limit (searchAll length limit) :=
    foldl_isLongestBelow 1 le_rfl (by omega) (fun start hearly hpos => by omega) hlengths
  refine ⟨_, ?_, hhalf, length, fun start hpos hbelow => (hlength start hpos hbelow).2,
    hhalf.unique hfull⟩
  rw [longestChainBelow, hrun]
  rfl

/-- Below ten the longest chain is that from nine.  It has all smaller starts as its terms but
three and six, which are terms of the chain from six. -/
theorem upper_half_has_longest_below_ten :
    2 ≤ 10 ∧ (∀ start, 1 ≤ start → start < 10 → InWords start) ∧
      longestChainBelow 10 = .ok ⟨9, 20⟩ := by
  have hnine : IsChain 9 [9, 28, 14, 7, 22, 11, 34, 17, 52, 26, 13, 40, 20, 10, 5, 16, 8, 4, 2, 1] := by
    iterate 19 refine .next (by decide) ?_
    exact .last (by decide)
  have hsix : IsChain 6 [6, 3, 10, 5, 16, 8, 4, 2, 1] := by
    iterate 8 refine .next (by decide) ?_
    exact .last (by decide)
  have hterms (start : Nat) (hpos : 1 ≤ start) (hbelow : start < 10) :
      IsTerm 9 start ∨ IsTerm 6 start := by
    rw [isTerm_iff hnine, isTerm_iff hsix]
    interval_cases start <;> decide
  have hwords (start : Nat) (hpos : 1 ≤ start) (hbelow : start < 10) : InWords start :=
    (hterms start hpos hbelow).elim (InWords.of_isTerm ⟨_, hnine, by decide⟩)
      (InWords.of_isTerm ⟨_, hsix, by decide⟩)
  have hlongest : IsLongestBelow 10 ⟨9, 20⟩ := by
    refine ⟨by decide, by decide, ⟨_, hnine, rfl⟩, ?_⟩
    intro start length hpos hbelow hlength
    rcases hterms start hpos hbelow with hterm | hterm
    · obtain ⟨hle, hsame⟩ := HasLength.of_isTerm ⟨_, hnine, rfl⟩ hterm hlength
      exact ⟨hle, fun hequal => (hsame hequal).ge⟩
    · have hle : length ≤ 9 := (HasLength.of_isTerm ⟨_, hsix, rfl⟩ hterm hlength).1
      exact ⟨by simp only; omega, fun hequal => by simp only at hequal; omega⟩
  obtain ⟨best, hrun, hbest, -⟩ := upper_half_has_longest (by decide) hwords
  rw [hbest.unique hlongest] at hrun
  exact ⟨by decide, hwords, hrun⟩

end NumberPuzzles.Collatz
