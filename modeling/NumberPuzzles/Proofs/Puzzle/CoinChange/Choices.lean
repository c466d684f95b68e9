import Mathlib.Data.Set.Card
import Mathlib.Data.Set.Finite.Lattice
import Mathlib.Order.Interval.Finset.Nat

/-!
# Choices of coins

A choice says how often each entry of a list of coins is used.  The choices for an amount either
leave the first coin out, or use it once more than a choice for the amount without it; so their
number is a sum of two, and since it does not depend on the order of the entries, coins may be
added one after the other.
-/

namespace NumberPuzzles.CoinChange

variable {coin amount : Nat} {coins others : List Nat}

/-- The choices of how often each coin of a list is used, one number for each entry, that make
an amount. -/
def choices (coins : List Nat) (amount : Nat) : Set (List Nat) :=
  {counts | counts.length = coins.length ∧ (List.zipWith (· * ·) counts coins).sum = amount}

noncomputable def ways (coins : List Nat) (amount : Nat) : Nat := (choices coins amount).ncard

@[simp]
theorem choices_nil_zero : choices [] 0 = {[]} := by
  ext counts
  simp [choices]

theorem choices_nil_of_pos (hamount : 0 < amount) : choices [] amount = ∅ := by
  ext counts
  simp [choices, hamount.ne]

@[simp]
theorem ways_nil (amount : Nat) : ways [] amount = if amount = 0 then 1 else 0 := by
  rcases Nat.eq_zero_or_pos amount with rfl | hamount
  · rw [ways, choices_nil_zero, Set.ncard_singleton, if_pos rfl]
  · rw [ways, choices_nil_of_pos hamount, Set.ncard_empty, if_neg hamount.ne']

/-- A choice from a list with a first coin: how often it is used, and a choice for the rest. -/
theorem mem_choices_cons {counts : List Nat} :
    counts ∈ choices (coin :: coins) amount ↔
      ∃ count rest other, counts = count :: rest ∧ rest ∈ choices coins other ∧
        count * coin + other = amount := by
  constructor
  · rintro ⟨hlength, hsum⟩
    obtain ⟨count, rest, rfl⟩ := List.exists_cons_of_length_eq_add_one hlength
    rw [List.zipWith_cons_cons, List.sum_cons] at hsum
    exact ⟨count, rest, _, rfl, ⟨Nat.succ.inj hlength, rfl⟩, hsum⟩
  · rintro ⟨count, rest, other, rfl, ⟨hlength, rfl⟩, hsum⟩
    exact ⟨by rw [List.length_cons, hlength, List.length_cons], hsum⟩

/-- Positive coins make an amount in finitely many ways: none is used more often than the amount
says. -/
theorem choices_finite (hpositive : ∀ coin ∈ coins, 0 < coin) (amount : Nat) :
    (choices coins amount).Finite := by
  induction coins generalizing amount with
  | nil =>
      rcases Nat.eq_zero_or_pos amount with rfl | hamount
      · rw [choices_nil_zero]
        exact Set.finite_singleton []
      · rw [choices_nil_of_pos hamount]
        exact Set.finite_empty
  | cons coin coins ih =>
      obtain ⟨hcoin, hcoins⟩ := List.forall_mem_cons.mp hpositive
      have hrests : (⋃ count ∈ Set.Iic amount, ⋃ other ∈ Set.Iic amount,
          (count :: ·) '' choices coins other).Finite :=
        (Set.finite_Iic amount).biUnion fun count _ =>
          (Set.finite_Iic amount).biUnion fun other _ => (ih hcoins other).image _
      refine hrests.subset ?_
      intro counts hcounts
      obtain ⟨count, rest, other, rfl, hrest, hsum⟩ := mem_choices_cons.mp hcounts
      have hcount : count ≤ count * coin := Nat.le_mul_of_pos_right count hcoin
      simp only [Set.mem_iUnion, Set.mem_Iic]
      exact ⟨count, by omega, other, by omega, rest, hrest, rfl⟩

def useOnceMore : List Nat → List Nat
  | [] => []
  | count :: rest => (count + 1) :: rest

theorem useOnceMore_injective : Function.Injective useOnceMore := by
  intro left right hsame
  cases left <;> cases right <;> simp_all [useOnceMore]

theorem choices_cons_of_lt (hlt : amount < coin) :
    choices (coin :: coins) amount = (0 :: ·) '' choices coins amount := by
  ext counts
  rw [mem_choices_cons]
  constructor
  · rintro ⟨count, rest, other, rfl, hrest, hsum⟩
    have hcount : count = 0 := by
      by_contra hused
      have := Nat.le_mul_of_pos_left coin (Nat.pos_of_ne_zero hused)
      omega
    subst hcount
    rw [Nat.zero_mul, Nat.zero_add] at hsum
    exact ⟨rest, hsum ▸ hrest, rfl⟩
  · rintro ⟨rest, hrest, rfl⟩
    exact ⟨0, rest, amount, rfl, hrest, by rw [Nat.zero_mul, Nat.zero_add]⟩

theorem choices_cons_of_le (hle : coin ≤ amount) :
    choices (coin :: coins) amount =
      (0 :: ·) '' choices coins amount ∪
        useOnceMore '' choices (coin :: coins) (amount - coin) := by
  ext counts
  rw [mem_choices_cons]
  constructor
  · rintro ⟨count, rest, other, rfl, hrest, hsum⟩
    cases count with
    | zero =>
        rw [Nat.zero_mul, Nat.zero_add] at hsum
        exact .inl ⟨rest, hsum ▸ hrest, rfl⟩
    | succ count =>
        rw [Nat.succ_mul] at hsum
        exact .inr ⟨count :: rest,
          mem_choices_cons.mpr ⟨count, rest, other, rfl, hrest, by omega⟩, rfl⟩
  · rintro (⟨rest, hrest, rfl⟩ | ⟨fewer, hfewer, rfl⟩)
    · exact ⟨0, rest, amount, rfl, hrest, by rw [Nat.zero_mul, Nat.zero_add]⟩
    · obtain ⟨count, rest, other, rfl, hrest, hsum⟩ := mem_choices_cons.mp hfewer
      refine ⟨count + 1, rest, other, rfl, hrest, ?_⟩
      rw [Nat.succ_mul]
      omega

theorem ways_cons_of_lt (hlt : amount < coin) :
    ways (coin :: coins) amount = ways coins amount := by
  rw [ways, choices_cons_of_lt hlt, Set.ncard_image_of_injective _ (List.cons_injective)]
  rfl

/-- The ways that leave the first coin out, and those that use it once more. -/
theorem ways_cons_of_le (hpositive : ∀ member ∈ coin :: coins, 0 < member) (hle : coin ≤ amount) :
    ways (coin :: coins) amount = ways coins amount + ways (coin :: coins) (amount - coin) := by
  have hdisjoint : Disjoint ((0 :: ·) '' choices coins amount)
      (useOnceMore '' choices (coin :: coins) (amount - coin)) := by
    rw [Set.disjoint_left]
    rintro counts ⟨rest, -, rfl⟩ ⟨fewer, hfewer, hsame⟩
    obtain ⟨count, other, -, rfl, -, -⟩ := mem_choices_cons.mp hfewer
    exact absurd (List.head_eq_of_cons_eq hsame) (Nat.succ_ne_zero count)
  have hwithout := (choices_finite (List.forall_mem_cons.mp hpositive).2 amount).image (0 :: ·)
  have hwith := (choices_finite hpositive (amount - coin)).image useOnceMore
  rw [ways, choices_cons_of_le hle, Set.ncard_union_eq hdisjoint hwithout hwith,
    Set.ncard_image_of_injective _ List.cons_injective,
    Set.ncard_image_of_injective _ useOnceMore_injective]
  rfl

/-- A further coin takes no way away. -/
theorem ways_le_cons (hpositive : ∀ member ∈ coin :: coins, 0 < member) (amount : Nat) :
    ways coins amount ≤ ways (coin :: coins) amount := by
  rcases Nat.lt_or_ge amount coin with hlt | hle
  · exact (ways_cons_of_lt hlt).ge
  · rw [ways_cons_of_le hpositive hle]
    exact Nat.le_add_right _ _

/-! ## The order of the coins -/

def exchangeTwo : List Nat → List Nat
  | first :: second :: rest => second :: first :: rest
  | counts => counts

@[simp]
theorem exchangeTwo_exchangeTwo (counts : List Nat) :
    exchangeTwo (exchangeTwo counts) = counts := by
  rcases counts with - | ⟨first, - | ⟨second, rest⟩⟩ <;> rfl

theorem exchangeTwo_mem {first second : Nat} {counts : List Nat}
    (hcounts : counts ∈ choices (first :: second :: coins) amount) :
    exchangeTwo counts ∈ choices (second :: first :: coins) amount := by
  obtain ⟨count, rest, other, rfl, hrest, hsum⟩ := mem_choices_cons.mp hcounts
  obtain ⟨next, rest, last, rfl, hrest, hother⟩ := mem_choices_cons.mp hrest
  exact mem_choices_cons.mpr ⟨next, count :: rest, count * first + last, rfl,
    mem_choices_cons.mpr ⟨count, rest, last, rfl, hrest, rfl⟩, by omega⟩

theorem ways_swap (first second : Nat) (coins : List Nat) (amount : Nat) :
    ways (first :: second :: coins) amount = ways (second :: first :: coins) amount := by
  refine Set.ncard_congr (fun counts _ => exchangeTwo counts) ?_ ?_ ?_
  · intro counts hcounts
    exact exchangeTwo_mem hcounts
  · intro left right _ _ hsame
    rw [← exchangeTwo_exchangeTwo left, hsame, exchangeTwo_exchangeTwo]
  · intro counts hcounts
    exact ⟨exchangeTwo counts, exchangeTwo_mem hcounts, exchangeTwo_exchangeTwo counts⟩

/-- The number of ways does not depend on the order of the coins. -/
theorem ways_perm (hperm : coins.Perm others) (hpositive : ∀ coin ∈ coins, 0 < coin)
    (amount : Nat) : ways coins amount = ways others amount := by
  induction hperm generalizing amount with
  | nil => rfl
  | @cons coin coins others hrest ih =>
      have hothers : ∀ member ∈ coin :: others, 0 < member := by
        intro member hmember
        exact hpositive member ((hrest.cons coin).mem_iff.mpr hmember)
      have hrests := ih (List.forall_mem_cons.mp hpositive).2
      have hcoin : 0 < coin := hpositive coin List.mem_cons_self
      -- The amount without the first coin is smaller, for the same list.
      induction amount using Nat.strong_induction_on with
      | _ amount ihAmount =>
          rcases Nat.lt_or_ge amount coin with hlt | hle
          · rw [ways_cons_of_lt hlt, ways_cons_of_lt hlt, hrests]
          · rw [ways_cons_of_le hpositive hle, ways_cons_of_le hothers hle, hrests,
              ihAmount (amount - coin) (by omega)]
  | swap first second coins => exact ways_swap second first coins amount
  | trans hleft hright ihLeft ihRight =>
      rw [ihLeft hpositive, ihRight fun coin hcoin => hpositive coin (hleft.mem_iff.mpr hcoin)]

end NumberPuzzles.CoinChange
