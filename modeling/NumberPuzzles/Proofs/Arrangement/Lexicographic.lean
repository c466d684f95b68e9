import Mathlib.Data.List.Lex
import Mathlib.Order.Lattice
import Mathlib.Order.OrderDual

/-!
# Arrangements in the order of words

Lists are compared at the first place where they differ.  Among the arrangements
of one list, the one without a rise is the greatest and the one without a fall is
the least, and the one just above a given arrangement is found by exchanging the
last entry that has a greater one behind it.  Nothing here asks the entries to
differ.
-/

namespace NumberPuzzles.Arrangement

open scoped List

variable {α : Type} [LinearOrder α]

/-- The new arrangement is the next above the old one: an arrangement of the same
entries, greater, and with none between. -/
structure IsSuccessor (old new : List α) : Prop where
  perm : new ~ old
  lt : old < new
  none_between : ∀ other : List α, other ~ old → ¬ (old < other ∧ other < new)

/-- Lists with a common beginning are compared behind it. -/
@[simp]
theorem append_lt_append_iff (front left right : List α) :
    front ++ left < front ++ right ↔ left < right := by
  induction front with
  | nil => rfl
  | cons entry front ih => simp [ih]

/-- What lies between two lists with a common beginning shares that beginning. -/
theorem eq_append_of_between {front left right other : List α}
    (hleft : front ++ left < other) (hright : other < front ++ right) :
    ∃ rest, other = front ++ rest := by
  induction front generalizing other with
  | nil => exact ⟨other, rfl⟩
  | cons entry front ih =>
      cases other with
      | nil => exact absurd hleft (List.not_lt_nil _)
      | cons head tail =>
          rw [List.cons_append, List.cons_lt_cons_iff] at hleft hright
          have hsame : head = entry := by
            rcases hleft with hleft | hleft <;> rcases hright with hright | hright
            · exact absurd hleft hright.asymm
            · exact hright.1
            · exact hleft.1.symm
            · exact hright.1
          subst hsame
          have htail : ∃ rest, tail = front ++ rest := by
            apply ih
            · simpa using hleft
            · simpa using hright
          obtain ⟨rest, rfl⟩ := htail
          exact ⟨rest, rfl⟩

/-- An arrangement without a rise is the greatest. -/
theorem le_of_pairwise_ge {entries other : List α} (hfalling : entries.Pairwise (· ≥ ·))
    (hperm : other ~ entries) : other ≤ entries := by
  induction entries generalizing other with
  | nil => rw [hperm.eq_nil]
  | cons entry entries ih =>
      cases other with
      | nil => exact absurd hperm.symm.eq_nil (List.cons_ne_nil entry entries)
      | cons head tail =>
          have hhead : head ≤ entry := by
            rcases List.mem_cons.mp (hperm.mem_iff.mp List.mem_cons_self) with rfl | hmember
            · exact le_rfl
            · exact List.rel_of_pairwise_cons hfalling hmember
          -- A smaller first entry decides; an equal one leaves it to the others.
          rcases hhead.lt_or_eq with hless | rfl
          · exact (List.cons_lt_cons_iff.mpr (.inl hless)).le
          · exact List.cons_le_cons head (ih hfalling.of_cons hperm.cons_inv)

/-- Between lists of one length, turning round the order of the entries turns round
the order of the lists. -/
theorem lt_dual_iff {left right : List α} (hlength : left.length = right.length) :
    @LT.lt (List αᵒᵈ) _ left right ↔ right < left := by
  induction left generalizing right with
  | nil =>
      have hempty : right = [] := List.eq_nil_of_length_eq_zero hlength.symm
      subst hempty
      exact iff_of_false (List.not_lt_nil (α := αᵒᵈ) _) (List.not_lt_nil _)
  | cons head left ih =>
      cases right with
      | nil => cases hlength
      | cons other right =>
          have htail : left.length = right.length := Nat.succ.inj hlength
          rw [List.cons_lt_cons_iff]
          refine (List.cons_lt_cons_iff (α := αᵒᵈ)).trans ?_
          rw [ih htail, eq_comm]
          exact Iff.rfl

/-- An arrangement without a fall is the least: it is the greatest in the order turned
round. -/
theorem le_of_pairwise_le {entries other : List α} (hrising : entries.Pairwise (· ≤ ·))
    (hperm : other ~ entries) : entries ≤ other := by
  have hdual : @LE.le (List αᵒᵈ) _ other entries := le_of_pairwise_ge (α := αᵒᵈ) hrising hperm
  have hnot : ¬ @LT.lt (List αᵒᵈ) _ entries other := not_lt.mpr hdual
  rw [lt_dual_iff hperm.symm.length_eq] at hnot
  exact not_lt.mp hnot

/-! ## The exchange -/

/-- One arrangement turned into another: the pivot, behind which nothing rises, gives
way to the last entry greater than it, and what follows is turned round. -/
inductive Exchange : List α → List α → Prop where
  | intro (front : List α) (pivot : α) (larger : List α) (partner : α) (smaller : List α)
      (falling : (larger ++ partner :: smaller).Pairwise (· ≥ ·))
      (rise : pivot < partner) (last : ∀ entry ∈ smaller, entry ≤ pivot) :
      Exchange (front ++ pivot :: (larger ++ partner :: smaller))
        (front ++ partner :: (larger ++ pivot :: smaller).reverse)

/-- With the pivot in the place of its partner, nothing rises still. -/
theorem pairwise_exchanged {pivot partner : α} {larger smaller : List α}
    (hfalling : (larger ++ partner :: smaller).Pairwise (· ≥ ·)) (hrise : pivot < partner)
    (hlast : ∀ entry ∈ smaller, entry ≤ pivot) :
    (larger ++ pivot :: smaller).Pairwise (· ≥ ·) := by
  obtain ⟨hlarger, hrest, hacross⟩ := List.pairwise_append.mp hfalling
  refine List.pairwise_append.mpr ⟨hlarger, ?_, ?_⟩
  · exact List.pairwise_cons.mpr ⟨hlast, hrest.of_cons⟩
  · intro left hleft right hright
    have habove : partner ≤ left := hacross left hleft partner List.mem_cons_self
    rcases List.mem_cons.mp hright with rfl | hright
    · exact hrise.le.trans habove
    · exact (hlast right hright).trans (hrise.le.trans habove)

omit [LinearOrder α] in
theorem exchanged_perm (pivot partner : α) (larger smaller : List α) :
    partner :: (larger ++ pivot :: smaller).reverse ~
      pivot :: (larger ++ partner :: smaller) := by
  calc
    partner :: (larger ++ pivot :: smaller).reverse ~
        partner :: (larger ++ pivot :: smaller) := (List.reverse_perm _).cons partner
    _ ~ partner :: pivot :: (larger ++ smaller) := List.perm_middle.cons partner
    _ ~ pivot :: partner :: (larger ++ smaller) := List.Perm.swap _ _ _
    _ ~ pivot :: (larger ++ partner :: smaller) := List.perm_middle.symm.cons pivot

/-- No entry from the pivot on lies strictly between the pivot and its partner. -/
theorem entry_not_between {pivot partner entry : α} {larger smaller : List α}
    (hfalling : (larger ++ partner :: smaller).Pairwise (· ≥ ·))
    (hlast : ∀ other ∈ smaller, other ≤ pivot)
    (hentry : entry ∈ pivot :: (larger ++ partner :: smaller)) :
    ¬ (pivot < entry ∧ entry < partner) := by
  rintro ⟨habove, hbelow⟩
  rcases List.mem_cons.mp hentry with rfl | hentry
  · exact lt_irrefl entry habove
  rcases List.mem_append.mp hentry with hlarger | hrest
  · have hpartner : partner ≤ entry :=
      (List.pairwise_append.mp hfalling).2.2 entry hlarger partner List.mem_cons_self
    exact absurd hbelow hpartner.not_gt
  rcases List.mem_cons.mp hrest with rfl | hsmaller
  · exact lt_irrefl entry hbelow
  · exact absurd habove (hlast entry hsmaller).not_gt

/-- Behind the common beginning, no arrangement lies between the two sides of an
exchange: it would begin with the pivot and pass the greatest rest, begin with the
partner and stay below the least rest, or begin with an entry between the two. -/
theorem exchange_none_between {pivot partner : α} {larger smaller other : List α}
    (hfalling : (larger ++ partner :: smaller).Pairwise (· ≥ ·)) (hrise : pivot < partner)
    (hlast : ∀ entry ∈ smaller, entry ≤ pivot)
    (hperm : other ~ pivot :: (larger ++ partner :: smaller)) :
    ¬ (pivot :: (larger ++ partner :: smaller) < other ∧
      other < partner :: (larger ++ pivot :: smaller).reverse) := by
  rintro ⟨hlow, hhigh⟩
  cases other with
  | nil => exact List.not_lt_nil _ hlow
  | cons head tail =>
      have hhead := entry_not_between hfalling hlast (hperm.mem_iff.mp List.mem_cons_self)
      rw [List.cons_lt_cons_iff] at hlow hhigh
      rcases hlow with hlow | ⟨rfl, hlow⟩
      · rcases hhigh with hhigh | ⟨rfl, hhigh⟩
        · exact hhead ⟨hlow, hhigh⟩
        · have hrising : (larger ++ pivot :: smaller).reverse.Pairwise (· ≤ ·) :=
            List.pairwise_reverse.mpr (pairwise_exchanged hfalling hrise hlast)
          have hrest : tail ~ (larger ++ pivot :: smaller).reverse :=
            (hperm.trans (exchanged_perm pivot head larger smaller).symm).cons_inv
          exact absurd hhigh (le_of_pairwise_le hrising hrest).not_gt
      · exact absurd hlow (le_of_pairwise_ge hfalling hperm.cons_inv).not_gt

/-- An exchange leads to the next arrangement above. -/
theorem Exchange.isSuccessor {old new : List α} (hexchange : Exchange old new) :
    IsSuccessor old new := by
  obtain ⟨front, pivot, larger, partner, smaller, hfalling, hrise, hlast⟩ := hexchange
  constructor
  · exact (exchanged_perm pivot partner larger smaller).append_left front
  · rw [append_lt_append_iff]
    exact List.cons_lt_cons_iff.mpr (.inl hrise)
  · rintro other hperm ⟨hlow, hhigh⟩
    obtain ⟨rest, rfl⟩ := eq_append_of_between hlow hhigh
    rw [append_lt_append_iff] at hlow hhigh
    have hrest := (List.perm_append_left_iff front).mp hperm
    exact exchange_none_between hfalling hrise hlast hrest ⟨hlow, hhigh⟩

/-- In the order turned round, the arrangement next above is the one next below. -/
theorem IsSuccessor.of_dual {old new : List α} (hdual : @IsSuccessor αᵒᵈ _ old new) :
    IsSuccessor new old where
  perm := hdual.perm.symm
  lt := (lt_dual_iff (α := α) hdual.perm.symm.length_eq).mp hdual.lt
  none_between other hperm hbetween := by
    have hold : other ~ old := hperm.trans hdual.perm
    apply hdual.none_between other hold
    constructor
    · exact (lt_dual_iff (α := α) hold.symm.length_eq).mpr hbetween.2
    · exact (lt_dual_iff (α := α) hperm.length_eq).mpr hbetween.1

end NumberPuzzles.Arrangement
