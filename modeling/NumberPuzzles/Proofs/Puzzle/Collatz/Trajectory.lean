import Mathlib.Data.Finset.Card
import Mathlib.Logic.Function.Iterate
import Mathlib.Order.Interval.Finset.Nat
import NumberPuzzles.Puzzle.Collatz

/-!
# Trajectories and chains

A trajectory goes on from term to term without end and without a limit on its terms.  Its
beginning up to the first term of some kind is a list that the start determines.  No term
occurs twice in it: what follows a term is determined by the term, so a second occurrence
would lead to the same end later.  A beginning in words is therefore shorter than there
are words, and neither the length of a chain nor the depth of its recursion is past them.
-/

namespace NumberPuzzles.Collatz

/-- The exact next term, of whatever size. -/
def following (term : Nat) : Nat := if term % 2 = 0 then term / 2 else 3 * term + 1

/-- The terms from a start to the first one of some kind, in order. -/
inductive TermsUntil (stop : Nat → Prop) : (start : Nat) → (terms : List Nat) → Prop
  | last {start : Nat} (hstop : stop start) : TermsUntil stop start [start]
  | next {start : Nat} {rest : List Nat} (hgo : ¬ stop start)
      (hrest : TermsUntil stop (following start) rest) : TermsUntil stop start (start :: rest)

section Until

variable {stop : Nat → Prop} {start term : Nat} {terms : List Nat}

theorem TermsUntil.head?_eq (huntil : TermsUntil stop start terms) : terms.head? = some start := by
  cases huntil with
  | last => rfl
  | next => rfl

theorem TermsUntil.start_mem (huntil : TermsUntil stop start terms) : start ∈ terms :=
  List.mem_of_head? huntil.head?_eq

/-- The start determines the terms. -/
theorem TermsUntil.unique {others : List Nat} (huntil : TermsUntil stop start terms)
    (hothers : TermsUntil stop start others) : terms = others := by
  induction huntil generalizing others with
  | last hstop =>
      cases hothers with
      | last => rfl
      | next hgo => exact absurd hstop hgo
  | next hgo _ ih =>
      cases hothers with
      | last hstop => exact absurd hstop hgo
      | next _ hrest => rw [ih hrest]

/-- A trajectory that comes to a term of some kind comes to a first one. -/
theorem exists_termsUntil (steps : Nat) (hstop : stop (following^[steps] start)) :
    ∃ terms, TermsUntil stop start terms := by
  induction steps generalizing start with
  | zero => exact ⟨_, .last hstop⟩
  | succ steps ih =>
      by_cases hstart : stop start
      · exact ⟨_, .last hstart⟩
      · obtain ⟨rest, hrest⟩ := ih hstop
        exact ⟨_, .next hstart hrest⟩

/-- From each of its terms on, the list is that of the term. -/
theorem TermsUntil.suffix (huntil : TermsUntil stop start terms) (hterm : term ∈ terms) :
    ∃ own, TermsUntil stop term own ∧ own <:+ terms := by
  induction huntil with
  | last hstop =>
      rw [List.mem_singleton] at hterm
      subst hterm
      exact ⟨_, .last hstop, List.suffix_rfl⟩
  | next hgo hrest ih =>
      rcases List.mem_cons.mp hterm with rfl | hterm
      · exact ⟨_, .next hgo hrest, List.suffix_rfl⟩
      · obtain ⟨own, hown, hsuffix⟩ := ih hterm
        exact ⟨own, hown, hsuffix.trans (List.suffix_cons _ _)⟩

theorem TermsUntil.nodup (huntil : TermsUntil stop start terms) : terms.Nodup := by
  induction huntil with
  | last => exact List.nodup_singleton _
  | @next start rest hgo hrest ih =>
      refine List.nodup_cons.mpr ⟨?_, ih⟩
      intro hagain
      -- The list of the second occurrence would be a part of itself.
      obtain ⟨own, hown, hsuffix⟩ := hrest.suffix hagain
      have hself : own = start :: rest := hown.unique (.next hgo hrest)
      have hlength := hsuffix.length_le
      rw [hself, List.length_cons] at hlength
      omega

/-- Only the last term is of the kind that ends the list. -/
theorem TermsUntil.not_stop (huntil : TermsUntil stop start terms) (hterm : term ∈ terms.dropLast) :
    ¬ stop term := by
  induction huntil with
  | last => cases hterm
  | next hgo hrest ih =>
      rw [List.dropLast_cons_of_ne_nil (List.ne_nil_of_mem hrest.start_mem)] at hterm
      rcases List.mem_cons.mp hterm with rfl | hterm
      · exact hgo
      · exact ih hterm

/-- A list in words that ends no later than with a term below two is shorter than there
are words. -/
theorem TermsUntil.length_lt (huntil : TermsUntil stop start terms) (hlow : ∀ term, term < 2 → stop term)
    (hwords : ∀ term ∈ terms, term < word) : terms.length < word := by
  have hwithin : terms.dropLast.toFinset ⊆ Finset.Ico 2 word := by
    intro term hterm
    rw [List.mem_toFinset] at hterm
    have hlarge : ¬ term < 2 := mt (hlow term) (huntil.not_stop hterm)
    exact Finset.mem_Ico.mpr ⟨by omega, hwords term (List.mem_of_mem_dropLast hterm)⟩
  have hcard := Finset.card_le_card hwithin
  rw [List.toFinset_card_of_nodup (huntil.nodup.sublist (List.dropLast_sublist terms)),
    List.length_dropLast, Nat.card_Ico] at hcard
  have hword : 2 < word := by decide
  omega

end Until

/-! ## Chains -/

/-- The terms of the chain from a start, up to the first term below two.  That is one, or
zero in the chain of zero alone. -/
abbrev IsChain (start : Nat) (terms : List Nat) : Prop := TermsUntil (· < 2) start terms

def HasLength (start length : Nat) : Prop := ∃ terms, IsChain start terms ∧ terms.length = length

def IsTerm (start term : Nat) : Prop := ∃ terms, IsChain start terms ∧ term ∈ terms

/-- The chain from a start comes to its end, in words all the way. -/
def InWords (start : Nat) : Prop := ∃ terms, IsChain start terms ∧ ∀ term ∈ terms, term < word

variable {start term length : Nat} {terms rest : List Nat}

theorem HasLength.unique {other : Nat} (hlength : HasLength start length)
    (hother : HasLength start other) : length = other := by
  obtain ⟨terms, hterms, rfl⟩ := hlength
  obtain ⟨others, hothers, rfl⟩ := hother
  rw [hterms.unique hothers]

theorem isTerm_iff (hchain : IsChain start terms) : IsTerm start term ↔ term ∈ terms := by
  constructor
  · rintro ⟨others, hothers, hterm⟩
    rwa [hchain.unique hothers]
  · intro hterm
    exact ⟨terms, hchain, hterm⟩

theorem IsTerm.trans {later : Nat} (hterm : IsTerm start term) (hlater : IsTerm term later) :
    IsTerm start later := by
  obtain ⟨terms, hchain, hmember⟩ := hterm
  obtain ⟨own, hown, hsuffix⟩ := hchain.suffix hmember
  exact ⟨terms, hchain, hsuffix.subset ((isTerm_iff hown).mp hlater)⟩

/-- Every other term has a shorter chain than the start. -/
theorem HasLength.of_isTerm {own : Nat} (hlength : HasLength start length)
    (hterm : IsTerm start term) (hown : HasLength term own) :
    own ≤ length ∧ (own = length → term = start) := by
  obtain ⟨terms, hchain, rfl⟩ := hlength
  obtain ⟨rest, hrest, hsuffix⟩ := hchain.suffix ((isTerm_iff hchain).mp hterm)
  rw [hown.unique ⟨rest, hrest, rfl⟩]
  refine ⟨hsuffix.length_le, ?_⟩
  intro hequal
  have hsame : rest = terms := hsuffix.eq_of_length hequal
  have hheads := hrest.head?_eq
  rw [hsame, hchain.head?_eq] at hheads
  exact (Option.some.inj hheads).symm

theorem InWords.of_isTerm (hwords : InWords start) (hterm : IsTerm start term) :
    InWords term := by
  obtain ⟨terms, hchain, hsmall⟩ := hwords
  obtain ⟨own, hown, hsuffix⟩ := hchain.suffix ((isTerm_iff hchain).mp hterm)
  exact ⟨own, hown, fun other hother => hsmall other (hsuffix.subset hother)⟩

theorem InWords.lt_word (hwords : InWords start) : start < word := by
  obtain ⟨terms, hchain, hsmall⟩ := hwords
  exact hsmall start hchain.start_mem

theorem InWords.length_lt (hwords : InWords start) (hlength : HasLength start length) :
    length < word := by
  obtain ⟨terms, hchain, hsmall⟩ := hwords
  rw [hlength.unique ⟨terms, hchain, rfl⟩]
  exact TermsUntil.length_lt hchain (fun _ => id) hsmall

/-! ## From a start to the next term -/

section Next

variable (hlarge : 2 ≤ start)

include hlarge

theorem HasLength.next (hlength : HasLength (following start) length) :
    HasLength start (length + 1) := by
  obtain ⟨rest, hrest, rfl⟩ := hlength
  exact ⟨start :: rest, .next (by omega) hrest, List.length_cons⟩

theorem isTerm_iff_following (hrest : IsChain (following start) rest) :
    IsTerm start term ↔ term = start ∨ IsTerm (following start) term := by
  have hchain : IsChain start (start :: rest) := .next (by omega) hrest
  rw [isTerm_iff hchain, isTerm_iff hrest, List.mem_cons]

theorem inWords_iff_following (hstart : start < word) :
    InWords start ↔ InWords (following start) := by
  constructor
  · rintro ⟨terms, hchain, hsmall⟩
    cases hchain with
    | last hlow => omega
    | next _ hrest => exact ⟨_, hrest, (List.forall_mem_cons.mp hsmall).2⟩
  · rintro ⟨rest, hrest, hsmall⟩
    exact ⟨start :: rest, .next (by omega) hrest, List.forall_mem_cons.mpr ⟨hstart, hsmall⟩⟩

end Next

/-! ## Chains that are followed in words -/

/-- A term at which a chain in words stops: it is below two, or the next term is no word. -/
def Stops (term : Nat) : Prop := term < 2 ∨ word ≤ following term

theorem TermsUntil.in_words (huntil : TermsUntil Stops start terms) (hstart : start < word) :
    ∀ term ∈ terms, term < word := by
  induction huntil with
  | last => exact List.forall_mem_singleton.mpr hstart
  | next hgo _ ih =>
      refine List.forall_mem_cons.mpr ⟨hstart, ih ?_⟩
      exact Nat.not_le.mp fun hpast => hgo (.inr hpast)

/-- A chain in words is followed to its end. -/
theorem TermsUntil.stops (hchain : IsChain start terms) (hwords : ∀ term ∈ terms, term < word) :
    TermsUntil Stops start terms := by
  induction hchain with
  | last hsmall => exact .last (.inl hsmall)
  | next hgo hrest ih =>
      obtain ⟨-, hlater⟩ := List.forall_mem_cons.mp hwords
      refine .next ?_ (ih hlater)
      rintro (hsmall | hpast)
      · exact hgo hsmall
      · have := hlater _ hrest.start_mem
        omega

end NumberPuzzles.Collatz
