import NumberPuzzles.Proofs.Checked
import NumberPuzzles.Proofs.Puzzle.CoinChange.Choices
import NumberPuzzles.Puzzle.CoinChange

/-!
# The table counts the choices

While a coin is added, the amounts already visited are counted with the coin and the others
without it; the entry that is read is of the first kind, so the entry that is written counts
the amount with the coin.  No count gets smaller from coin to coin.  So an addition overflows
on the way exactly if some count with all coins is past the machine words, and what comes out
does not depend on the order of the coins.
-/

namespace NumberPuzzles.CoinChange

variable {coin size position amounts target : Nat} {coins done others : List Nat}
  {table : Array Nat}

/-- The counts while a coin is added: with it below the position, without it from there on. -/
noncomputable def partway (coin : Nat) (done : List Nat) (position amount : Nat) : Nat :=
  if amount < position then ways (coin :: done) amount else ways done amount

/-- No amount below the coin is made with it. -/
@[simp]
theorem partway_self (coin : Nat) (done : List Nat) : partway coin done coin = ways done := by
  funext amount
  rw [partway]
  split
  next hbelow => exact ways_cons_of_lt hbelow
  next => rfl

/-- Writing the count with the coin moves the position on. -/
theorem write_partway (hcounts : Checked.Tabulates size (partway coin done position) table)
    (hinside : position < table.size) :
    Checked.Tabulates size (partway coin done (position + 1))
      (table.set position (ways (coin :: done) position) hinside) := by
  have hhere : partway coin done (position + 1) position = ways (coin :: done) position :=
    if_pos (Nat.lt_succ_self position)
  rw [← hhere]
  refine hcounts.set hinside ?_
  intro other hother
  have hside : other < position + 1 ↔ other < position := by omega
  simp only [partway, hside]

/-- Adding a coin over the amounts from a position on gives the counts with it, unless one of
them is past the machine words. -/
theorem addCoin_run (hpositive : ∀ member ∈ coin :: done, 0 < member)
    (hamounts : amounts = size - position) (hposition : coin ≤ position)
    (hcounts : Checked.Tabulates size (partway coin done position) table) :
    (∃ after, addCoin coin position amounts table = .ok after ∧
        Checked.Tabulates size (ways (coin :: done)) after ∧
        ∀ amount < size, position ≤ amount → ways (coin :: done) amount < word) ∨
      (addCoin coin position amounts table = .error .add ∧
        ∃ amount < size, word ≤ ways (coin :: done) amount) := by
  have hcoin : 0 < coin := hpositive coin List.mem_cons_self
  induction amounts generalizing position table with
  | zero =>
      refine .inl ⟨table, rfl, ⟨hcounts.size_eq, ?_⟩, ?_⟩
      · intro amount hamount
        rw [hcounts.getElem_eq amount hamount, partway, if_pos (by omega)]
      · intro amount hamount hlater
        omega
  | succ amounts ih =>
      have hinside : position < table.size := by
        have := hcounts.size_eq
        omega
      have hwithout : table[position] = ways done position := by
        have hentry := hcounts.getElem_eq position (by omega)
        rw [Array.getElem?_eq_getElem hinside, partway, if_neg (Nat.lt_irrefl position)] at hentry
        exact Option.some.inj hentry
      have hread : Checked.entry table (position - coin) =
          .ok (ways (coin :: done) (position - coin)) := by
        rw [hcounts.read (by omega), partway, if_pos (by omega)]
      rw [addCoin, dif_pos hinside, hread]
      simp only [hwithout, ← ways_cons_of_le hpositive hposition]
      by_cases hword : ways (coin :: done) position < word
      · rw [if_pos hword]
        rcases ih (by omega) (by omega) (write_partway hcounts hinside) with
          ⟨after, hrun, hafter, hwords⟩ | hpast
        · refine .inl ⟨after, hrun, hafter, ?_⟩
          intro amount hamount hlater
          rcases Nat.eq_or_lt_of_le hlater with rfl | hlater
          · exact hword
          · exact hwords amount hamount hlater
        · exact .inr hpast
      · rw [if_neg hword]
        exact .inr ⟨rfl, position, by omega, Nat.not_lt.mp hword⟩

/-- Further coins take no way away. -/
theorem ways_le_append (hpositive : ∀ member ∈ coins ++ done, 0 < member) (amount : Nat) :
    ways done amount ≤ ways (coins ++ done) amount := by
  induction coins with
  | nil => exact Nat.le_refl _
  | cons coin coins ih =>
      exact (ih (List.forall_mem_cons.mp hpositive).2).trans (ways_le_cons hpositive amount)

/-- Adding coins one after the other gives the counts with all of them, unless one of these is
past the machine words. -/
theorem addCoins_run (hpositive : ∀ member ∈ coins.reverse ++ done, 0 < member)
    (hcounts : Checked.Tabulates size (ways done) table)
    (hwords : ∀ amount < size, ways done amount < word) :
    (∃ after, coins.foldlM (fun ways coin => addCoin coin coin (size - coin) ways) table =
          .ok after ∧
        Checked.Tabulates size (ways (coins.reverse ++ done)) after ∧
        ∀ amount < size, ways (coins.reverse ++ done) amount < word) ∨
      (coins.foldlM (fun ways coin => addCoin coin coin (size - coin) ways) table = .error .add ∧
        ∃ amount < size, word ≤ ways (coins.reverse ++ done) amount) := by
  induction coins generalizing done table with
  | nil => exact .inl ⟨table, rfl, hcounts, hwords⟩
  | cons coin coins ih =>
      rw [List.reverse_cons, List.append_assoc, List.singleton_append] at hpositive ⊢
      rw [List.foldlM_cons]
      have hfirst : ∀ member ∈ coin :: done, 0 < member := fun member hmember =>
        hpositive member (List.mem_append_right _ hmember)
      rw [← partway_self coin done] at hcounts
      rcases addCoin_run hfirst rfl (Nat.le_refl coin) hcounts with
        ⟨after, hrun, hafter, hlater⟩ | ⟨hrun, amount, hamount, hpast⟩
      · have hnext : ∀ amount < size, ways (coin :: done) amount < word := by
          intro amount hamount
          rcases Nat.lt_or_ge amount coin with hbelow | hreached
          · rw [ways_cons_of_lt hbelow]
            exact hwords amount hamount
          · exact hlater amount hamount hreached
        rw [hrun]
        exact ih hpositive hafter hnext
      · rw [hrun]
        exact .inr ⟨rfl, amount, hamount, hpast.trans (ways_le_append hpositive amount)⟩

/-- At first only the amount zero is made, in one way. -/
theorem counts_initial (target : Nat) :
    Checked.Tabulates (target + 1) (ways [])
      ((Array.replicate (target + 1) 0).setIfInBounds 0 1) where
  size_eq := by rw [Array.size_setIfInBounds, Array.size_replicate]
  getElem_eq amount hamount := by
    rw [ways_nil, Array.getElem?_setIfInBounds, Array.getElem?_replicate]
    rcases Nat.eq_zero_or_pos amount with rfl | hlarge
    · simp
    · rw [if_neg hlarge.ne, if_pos hamount, if_neg hlarge.ne']

/-- What is returned for positive coins: the table may be too large, or a count may be. -/
theorem combinations_eq (hpositive : ∀ coin ∈ coins, 0 < coin) (target : Nat) :
    combinations target coins =
      if tableBytes ≤ (target + 1) * 8 then .error (if target + 1 < word then .capacity else .add)
      else if ∀ amount ≤ target, ways coins amount < word then .ok (ways coins target)
      else .error .add := by
  by_cases hlarge : tableBytes ≤ (target + 1) * 8
  · have htable : Checked.table 8 (target + 1) 0 = .error .capacity :=
      if_neg (Nat.not_lt.mpr hlarge)
    rw [if_pos hlarge, combinations, Checked.add]
    by_cases hword : target + 1 < word
    · rw [if_pos hword, if_pos hword]
      simp only [htable, Checked.bind_ok, Checked.bind_error]
    · rw [if_neg hword, if_neg hword]
      rfl
  · have hwider : tableBytes < word * 8 := by decide
    have hsize : Checked.add word target 1 = .ok (target + 1) := if_pos (by omega)
    have htable : Checked.table 8 (target + 1) 0 = .ok (Array.replicate (target + 1) 0) :=
      if_pos (Nat.not_le.mp hlarge)
    have hreversed : ∀ member ∈ coins.reverse ++ [], 0 < member := by
      simpa using hpositive
    have hfirst : ∀ amount < target + 1, ways [] amount < word := by
      intro amount _
      have hone : 1 < word := by decide
      rw [ways_nil]
      split
      · exact hone
      · omega
    have hsame : ways (coins.reverse ++ []) = ways coins := by
      funext amount
      rw [List.append_nil, ways_perm coins.reverse_perm (by simpa using hpositive)]
    rw [if_neg hlarge]
    simp only [combinations, hsize, htable, Checked.bind_ok]
    rcases addCoins_run hreversed (counts_initial target) hfirst with
      ⟨after, hrun, hafter, hwords⟩ | ⟨hrun, amount, hamount, hpast⟩
    · rw [hsame] at hafter hwords
      rw [hrun, if_pos fun amount hamount => hwords amount (Nat.lt_succ_of_le hamount)]
      exact hafter.read (Nat.lt_succ_self target)
    · rw [hsame] at hpast
      rw [hrun, if_neg fun hall => Nat.not_lt.mpr hpast (hall amount (Nat.le_of_lt_succ hamount))]
      rfl

/-- Positive coins make each amount in finitely many ways.  If the table for the target is small
enough, the number of ways to make the target is returned, provided that the number for every
amount up to the target is a machine word; if some such number is not, an addition overflows.  A
larger table is refused before any coin is looked at.  In every case the order of the coins makes
no difference. -/
theorem counts_choices {coins : List Nat} (hpositive : ∀ coin ∈ coins, 0 < coin) (target : Nat) :
    (∀ amount, (choices coins amount).Finite) ∧
      ((target + 1) * 8 < tableBytes → (∀ amount ≤ target, ways coins amount < word) →
        combinations target coins = .ok (ways coins target)) ∧
      ((target + 1) * 8 < tableBytes → (∃ amount ≤ target, word ≤ ways coins amount) →
        combinations target coins = .error .add) ∧
      (tableBytes ≤ (target + 1) * 8 →
        combinations target coins = .error (if target + 1 < word then .capacity else .add)) ∧
      ∀ others : List Nat, others.Perm coins →
        combinations target others = combinations target coins := by
  rw [combinations_eq hpositive]
  refine ⟨choices_finite hpositive, ?_, ?_, ?_, ?_⟩
  · intro htable hwords
    rw [if_neg (Nat.not_le.mpr htable), if_pos hwords]
  · rintro htable ⟨amount, hamount, hpast⟩
    rw [if_neg (Nat.not_le.mpr htable),
      if_neg fun hall => Nat.not_lt.mpr hpast (hall amount hamount)]
  · intro hlarge
    rw [if_pos hlarge]
  · intro others hperm
    have hothers : ∀ coin ∈ others, 0 < coin := fun coin hcoin =>
      hpositive coin (hperm.mem_iff.mp hcoin)
    have hsame : ways others = ways coins := funext (ways_perm hperm hothers)
    rw [combinations_eq hothers, hsame]

/-- Ten pence in coins of five, two and one can be made in ten ways, in whatever order the coins
are listed. -/
theorem counts_choices_of_ten_pence :
    (∀ coin ∈ [5, 2, 1], 0 < coin) ∧ (10 + 1) * 8 < tableBytes ∧
      (∀ amount ≤ 10, ways [5, 2, 1] amount < word) ∧ ways [5, 2, 1] 10 = 10 ∧
      combinations 10 [5, 2, 1] = .ok 10 ∧ combinations 10 [1, 2, 5] = .ok 10 := by
  have hpositive : ∀ coin ∈ [5, 2, 1], 0 < coin := by decide
  have htable : (10 + 1) * 8 < tableBytes := by decide
  have hrun : combinations 10 [5, 2, 1] = .ok 10 := by decide
  obtain ⟨-, hcount, hpast, -, hperm⟩ := counts_choices hpositive 10
  have hwords : ∀ amount ≤ 10, ways [5, 2, 1] amount < word := by
    by_contra hsome
    push Not at hsome
    have hfault := hpast htable hsome
    rw [hrun] at hfault
    cases hfault
  refine ⟨hpositive, htable, hwords, ?_, hrun, ?_⟩
  · exact Except.ok.inj ((hcount htable hwords).symm.trans hrun)
  · rw [hperm [1, 2, 5] (by decide), hrun]

/-- One coin of one makes every amount in one way. -/
theorem ways_one (amount : Nat) : ways [1] amount = 1 := by
  induction amount with
  | zero => rw [ways_cons_of_lt Nat.one_pos, ways_nil, if_pos rfl]
  | succ amount ih =>
      rw [ways_cons_of_le (by decide) (Nat.le_add_left 1 amount), Nat.add_sub_cancel, ih, ways_nil,
        if_neg (Nat.succ_ne_zero amount)]

/-- Although no amount up to the target is made in more than one way, the target two below the
number of words has no answer: its table is too large. -/
theorem large_target_refused :
    (∀ amount ≤ word - 2, ways [1] amount = 1) ∧
      combinations (word - 2) [1] = .error .capacity := by
  refine ⟨fun amount _ => ways_one amount, ?_⟩
  rw [combinations_eq (by decide), if_pos (by decide), if_pos (by decide)]

end NumberPuzzles.CoinChange
