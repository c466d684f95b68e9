import NumberPuzzles.Arrangement.Ranked
import NumberPuzzles.Proofs.Arrangement.Walk

/-!
# The rank of an arrangement

The rank of an arrangement of distinct entries is the number of arrangements before
it.  Reading a rank takes out the entry that has as many smaller ones in the pool as
the leading digit says; each smaller one begins as many arrangements as the place
value counts, and the remaining digits count those that begin with the entry itself.
A place value past the machine words is held at the greatest word.  No rank below it
has a digit there, so the digits are those of the exact factorials; only the greatest
word itself is then refused, although some arrangement has that rank.
-/

namespace NumberPuzzles.Arrangement

open scoped List

/-! ## Place values -/

def heldFactorial (count : Nat) : Nat := min count.factorial saturation

/-- The place values of so many places, the most significant first. -/
def placeValues : (count : Nat) → List Nat
  | 0 => []
  | count + 1 => heldFactorial count :: placeValues count

theorem nextPlace_heldFactorial (count : Nat) :
    nextPlace (heldFactorial count) (count + 1) = heldFactorial (count + 1) := by
  have hword : word = saturation + 1 := rfl
  have hfactorial : (count + 1).factorial = count.factorial * (count + 1) := by
    rw [Nat.factorial_succ, Nat.mul_comm]
  rcases le_or_gt count.factorial saturation with hsmall | hlarge
  · rw [heldFactorial, min_eq_left hsmall, heldFactorial, hfactorial, nextPlace]
    split <;> omega
  · -- The place value is held already, and so are all that follow.
    have hcount : 1 < count + 1 := by
      cases count with
      | zero => exact absurd hlarge (by decide)
      | succ count => omega
    have hproduct : saturation * 2 ≤ saturation * (count + 1) := Nat.mul_le_mul_left _ hcount
    have hnext : count.factorial ≤ (count + 1).factorial := Nat.factorial_le (Nat.le_succ count)
    have hnot : ¬ saturation * (count + 1) < word := by
      have hpositive : 0 < saturation := by decide
      omega
    rw [heldFactorial, min_eq_right hlarge.le, heldFactorial,
      min_eq_right (hlarge.le.trans hnext), nextPlace, if_neg hnot]

/-- Place values are built from the least significant one up. -/
theorem placesFrom_heldFactorial (start count : Nat) :
    placesFrom (heldFactorial start) (start + 1) count (placeValues start) =
      (placeValues (start + count), heldFactorial (start + count)) := by
  induction count generalizing start with
  | zero => rfl
  | succ count ih =>
      rw [placesFrom, nextPlace_heldFactorial, ← placeValues, ih, Nat.succ_add_eq_add_succ]

theorem ranked?_eq {α : Type} [LT α] [DecidableLT α] (entries : List α) (rank : Nat) :
    ranked? entries rank =
      if heldFactorial entries.length ≤ rank then .ok none
      else (readRank (placeValues entries.length) rank (Walk.sorted entries)).map some := by
  have hlength : (Walk.sorted entries).length = entries.length :=
    List.length_mergeSort entries
  have hplaces : placesFrom 1 1 entries.length [] =
      (placeValues entries.length, heldFactorial entries.length) := by
    have hbuilt := placesFrom_heldFactorial 0 entries.length
    have hone : heldFactorial 0 = 1 := by decide
    simp only [Nat.zero_add, hone] at hbuilt
    exact hbuilt
  simp only [ranked?, hlength, hplaces]
  split
  · rfl
  · cases readRank (placeValues entries.length) rank (Walk.sorted entries) <;> rfl

/-- The leading digit of a rank below the number of arrangements is a position of the
pool, and the rank is made of it and what is left as with the exact factorials. -/
theorem leading_digit {count rank : Nat} (hrank : rank < heldFactorial (count + 1)) :
    rank / heldFactorial count < count + 1 ∧
      rank % heldFactorial count < heldFactorial count ∧
      rank / heldFactorial count * count.factorial + rank % heldFactorial count = rank := by
  have hbelow : rank < (count + 1).factorial := hrank.trans_le (min_le_left _ _)
  rcases le_or_gt count.factorial saturation with hsmall | hlarge
  · have hexact : heldFactorial count = count.factorial := min_eq_left hsmall
    rw [hexact]
    refine ⟨?_, Nat.mod_lt _ count.factorial_pos, Nat.div_add_mod' rank _⟩
    rwa [Nat.div_lt_iff_lt_mul count.factorial_pos, ← Nat.factorial_succ]
  · -- Below a held place value there is no digit, and nothing is taken off the rank.
    have hheld : rank < heldFactorial count := by
      rw [heldFactorial, min_eq_right hlarge.le]
      exact hrank.trans_le (min_le_right _ _)
    rw [Nat.div_eq_of_lt hheld, Nat.mod_eq_of_lt hheld]
    exact ⟨Nat.succ_pos count, hheld, by rw [Nat.zero_mul, Nat.zero_add]⟩

/-! ## Reading a rank -/

@[simp]
theorem takeOut?_eq {α : Type} (front back : List α) (chosen : α) :
    takeOut? front.length (front ++ chosen :: back) = some (chosen, front ++ back) := by
  induction front with
  | nil => rfl
  | cons entry front ih => simp [takeOut?, ih]

variable {α : Type} [LinearOrder α]

theorem card_arrangements_of_nodup {entries : List α} (hdistinct : entries.Nodup) :
    (arrangements entries).card = entries.length.factorial := by
  rw [arrangements, List.toFinset_card_of_nodup (List.nodup_permutations entries hdistinct),
    List.length_permutations]

def arrangementsBelow (entries bound : List α) : Finset (List α) :=
  (arrangements entries).filter (· < bound)

@[simp]
theorem mem_arrangementsBelow {entries bound other : List α} :
    other ∈ arrangementsBelow entries bound ↔ other ~ entries ∧ other < bound := by
  simp [arrangementsBelow]

theorem arrangementsBelow_congr {entries others : List α} (hperm : entries ~ others)
    (bound : List α) : arrangementsBelow entries bound = arrangementsBelow others bound := by
  ext other
  simp only [mem_arrangementsBelow, hperm.congr_right other]

/-- What comes before an arrangement begins with a smaller entry, or with the same
entry and goes on with something smaller. -/
theorem arrangementsBelow_cons {front back rest : List α} {chosen : α}
    (hrising : (front ++ chosen :: back).Pairwise (· < ·)) :
    arrangementsBelow (front ++ chosen :: back) (chosen :: rest) =
      front.toFinset.biUnion (arrangementsFrom (front ++ chosen :: back)) ∪
        (arrangementsBelow (front ++ back) rest).map
          ⟨List.cons chosen, List.cons_injective⟩ := by
  obtain ⟨-, hbehind, hacross⟩ := List.pairwise_append.mp hrising
  have hfront : ∀ first ∈ front, first ∈ front ++ chosen :: back := by
    intro first hfirst
    exact List.mem_append_left _ hfirst
  ext other
  simp only [Finset.mem_union, Finset.mem_biUnion, List.mem_toFinset, Finset.mem_map,
    mem_arrangementsBelow, Function.Embedding.coeFn_mk]
  constructor
  · rintro ⟨hperm, hbelow⟩
    cases other with
    | nil => exact absurd hperm.symm.eq_nil (by simp)
    | cons head tail =>
        rcases List.cons_lt_cons_iff.mp hbelow with hless | ⟨rfl, hless⟩
        · have hhead : head ∈ front := by
            rcases List.mem_append.mp (hperm.mem_iff.mp List.mem_cons_self) with hhead | hhead
            · exact hhead
            rcases List.mem_cons.mp hhead with rfl | hhead
            · exact absurd hless (lt_irrefl head)
            · exact absurd hless ((List.pairwise_cons.mp hbehind).1 head hhead).asymm
          exact .inl ⟨head, hhead, (mem_arrangementsFrom (hfront head hhead)).mpr ⟨hperm, rfl⟩⟩
        · exact .inr ⟨tail, ⟨(hperm.trans List.perm_middle).cons_inv, hless⟩, rfl⟩
  · rintro (⟨first, hfirst, hother⟩ | ⟨tail, ⟨hperm, hless⟩, rfl⟩)
    · obtain ⟨hperm, hhead⟩ := (mem_arrangementsFrom (hfront first hfirst)).mp hother
      obtain ⟨tail, rfl⟩ := List.head?_eq_some_iff.mp hhead
      have hbefore : first < chosen := hacross first hfirst chosen List.mem_cons_self
      exact ⟨hperm, List.cons_lt_cons_iff.mpr (.inl hbefore)⟩
    · exact ⟨(hperm.cons chosen).trans List.perm_middle.symm,
        List.cons_lt_cons_iff.mpr (.inr ⟨rfl, hless⟩)⟩

/-- Each smaller entry in front begins as many arrangements as the others have. -/
theorem card_arrangementsBelow_cons {front back rest : List α} {chosen : α}
    (hrising : (front ++ chosen :: back).Pairwise (· < ·)) :
    (arrangementsBelow (front ++ chosen :: back) (chosen :: rest)).card =
      front.length * (front ++ back).length.factorial +
        (arrangementsBelow (front ++ back) rest).card := by
  have hdistinct : (front ++ chosen :: back).Nodup := hrising.imp ne_of_lt
  have hfront : front.Nodup := hdistinct.of_append_left
  have hchosen : chosen ∉ front := by
    intro hmember
    exact List.disjoint_of_nodup_append hdistinct hmember List.mem_cons_self
  have heach : ∀ first ∈ front.toFinset,
      (arrangementsFrom (front ++ chosen :: back) first).card =
        (front ++ back).length.factorial := by
    intro first hfirst
    have hmember : first ∈ front ++ chosen :: back :=
      List.mem_append_left _ (List.mem_toFinset.mp hfirst)
    rw [arrangementsFrom, Finset.card_map,
      card_arrangements_of_nodup (hdistinct.erase first), List.length_erase_of_mem hmember]
    simp
  have hapart : Disjoint (front.toFinset.biUnion (arrangementsFrom (front ++ chosen :: back)))
      ((arrangementsBelow (front ++ back) rest).map ⟨List.cons chosen, List.cons_injective⟩) := by
    refine Finset.disjoint_left.mpr ?_
    intro other hother hagain
    obtain ⟨first, hfirst, hother⟩ := Finset.mem_biUnion.mp hother
    obtain ⟨tail, -, rfl⟩ := Finset.mem_map.mp hagain
    have hmember : first ∈ front := List.mem_toFinset.mp hfirst
    have hhead := ((mem_arrangementsFrom (List.mem_append_left _ hmember)).mp hother).2
    have hsame : chosen = first := Option.some.inj hhead
    exact hchosen (hsame ▸ hmember)
  rw [arrangementsBelow_cons hrising, Finset.card_union_of_disjoint hapart, Finset.card_map,
    Finset.card_biUnion (arrangementsFrom_pairwiseDisjoint _ _), Finset.sum_const_nat heach,
    List.toFinset_card_of_nodup hfront]

/-- A rank below the number of arrangements, and below the greatest word, never runs
out of the pool, and what is read is an arrangement with so many before it.  The
induction is on the pool, which loses one entry with each digit. -/
theorem readRank_run {pool : List α} {count rank : Nat} (hrising : pool.Pairwise (· < ·))
    (hlength : pool.length = count) (hrank : rank < heldFactorial count) :
    ∃ arrangement, readRank (placeValues count) rank pool = .ok arrangement ∧
      arrangement ~ pool ∧ (arrangementsBelow pool arrangement).card = rank := by
  induction count generalizing pool rank with
  | zero =>
      have hempty : pool = [] := List.eq_nil_of_length_eq_zero hlength
      subst hempty
      have hzero : rank = 0 := Nat.lt_one_iff.mp hrank
      subst hzero
      refine ⟨[], rfl, List.Perm.refl [], ?_⟩
      simp [arrangementsBelow]
  | succ count ih =>
      obtain ⟨hdigit, hrest, hsum⟩ := leading_digit hrank
      obtain ⟨front, chosen, back, rfl, hfront⟩ : ∃ front chosen back,
          pool = front ++ chosen :: back ∧ front.length = rank / heldFactorial count := by
        rw [← hlength] at hdigit
        refine ⟨pool.take _, pool[rank / heldFactorial count],
          pool.drop (rank / heldFactorial count + 1), ?_, List.length_take_of_le hdigit.le⟩
        rw [List.getElem_cons_drop, List.take_append_drop]
      have hothers : (front ++ back).length = count := by
        simp only [List.length_append, List.length_cons] at hlength ⊢
        omega
      have hkept : (front ++ back).Pairwise (· < ·) :=
        hrising.sublist (List.Sublist.append_left (List.sublist_cons_self chosen back) front)
      obtain ⟨rest, hread, hperm, hbelow⟩ := ih hkept hothers hrest
      refine ⟨chosen :: rest, ?_, (hperm.cons chosen).trans List.perm_middle.symm, ?_⟩
      · rw [placeValues, readRank, ← hfront, takeOut?_eq]
        simp only [hread]
        rfl
      · rw [card_arrangementsBelow_cons hrising, hbelow, hfront, hothers, hsum]

/-! ## The rank in the walk -/

/-- In an ordered listing, as many arrangements stand in front of one as come before it. -/
theorem getElem?_of_ordered {listing : List (List α)} {entry : List α}
    (hordered : listing.Pairwise (· < ·)) (hmember : entry ∈ listing) :
    listing[(listing.filter (· < entry)).length]? = some entry := by
  obtain ⟨front, back, rfl⟩ := List.append_of_mem hmember
  obtain ⟨-, hbehind, hacross⟩ := List.pairwise_append.mp hordered
  have hfront : front.filter (· < entry) = front := by
    refine List.filter_eq_self.mpr ?_
    intro other hother
    exact decide_eq_true (hacross other hother entry List.mem_cons_self)
  have hback : back.filter (· < entry) = [] := by
    refine List.filter_eq_nil_iff.mpr ?_
    intro other hother
    have hafter : entry < other := (List.pairwise_cons.mp hbehind).1 other hother
    simpa using hafter.le
  rw [List.filter_append, List.filter_cons_of_neg (by simp), hfront, hback, List.append_nil]
  simp

theorem length_filter_ascendingListing (entries bound : List α) :
    ((Walk.ascendingListing entries).filter (· < bound)).length =
      (arrangementsBelow entries bound).card := by
  have hordered := (Walk.ascendingListing_lists entries).ordered
  have hdistinct : ((Walk.ascendingListing entries).filter (· < bound)).Nodup :=
    (hordered.imp ne_of_lt).filter _
  rw [← List.toFinset_card_of_nodup hdistinct]
  congr 1
  ext other
  simp [(Walk.ascendingListing_lists entries).complete]

/-- An arrangement is handed out by the upward walk at the position that its rank tells. -/
theorem answerAt_card_arrangementsBelow {entries arrangement : List α}
    (hperm : arrangement ~ entries) :
    Source.answerAt Walk.next (arrangementsBelow entries arrangement).card
      (Walk.start .ascending entries) = .ok (some arrangement) := by
  have hlists := Walk.ascendingListing_lists entries
  rw [Walk.answerAt_start hlists, ← length_filter_ascendingListing,
    getElem?_of_ordered hlists.ordered ((hlists.complete arrangement).mpr hperm)]

/-- Reading a rank over distinct entries never asks for a position that the pool does not
have, and an arrangement that it answers is the one that the upward walk hands out at the
position of that rank: exactly so many arrangements come before it. -/
theorem ranked_is_walk_item {entries : List α} (hdistinct : entries.Nodup) (rank : Nat) :
    ∃ answer, ranked? entries rank = .ok answer ∧
      ∀ arrangement, answer = some arrangement →
        Source.answerAt Walk.next rank (Walk.start .ascending entries) =
            .ok (some arrangement) ∧
          arrangement ~ entries ∧
          ((arrangements entries).filter (· < arrangement)).card = rank := by
  rw [ranked?_eq]
  split
  · exact ⟨none, rfl, by simp⟩
  · next hrank =>
      have hperm : Walk.sorted entries ~ entries := List.mergeSort_perm entries _
      have hrising : (Walk.sorted entries).Pairwise (· < ·) :=
        (Walk.sorted_pairwise entries).imp₂ (fun _ _ => lt_of_le_of_ne)
          (hperm.nodup_iff.mpr hdistinct)
      obtain ⟨arrangement, hread, hpool, hbelow⟩ :=
        readRank_run hrising hperm.length_eq (not_le.mp hrank)
      have hentries : arrangement ~ entries := hpool.trans hperm
      have hcount : (arrangementsBelow entries arrangement).card = rank := by
        rw [← arrangementsBelow_congr hperm, hbelow]
      refine ⟨some arrangement, by rw [hread]; rfl, ?_⟩
      rintro _ ⟨⟩
      refine ⟨?_, hentries, hcount⟩
      rw [← hcount]
      exact answerAt_card_arrangementsBelow hentries

/-- Past twenty entries there are more arrangements than words, and the rank just below
the greatest word is still read exactly. -/
theorem ranked_of_many_entries :
    (List.range 21).Nodup ∧
      ∃ arrangement,
        arrangement =
          [7, 12, 14, 4, 3, 20, 5, 9, 6, 11, 0, 18, 10, 16, 1, 2, 8, 17, 15, 13, 19] ∧
        ranked? (List.range 21) (word - 2) = .ok (some arrangement) ∧
        Source.answerAt Walk.next (word - 2) (Walk.start .ascending (List.range 21)) =
          .ok (some arrangement) ∧
        arrangement ~ List.range 21 ∧
        ((arrangements (List.range 21)).filter (· < arrangement)).card = word - 2 := by
  have hsorted : Walk.sorted (List.range 21) = List.range 21 :=
    List.mergeSort_of_pairwise (by decide)
  have hread : readRank (placeValues 21) (word - 2) (List.range 21) =
      .ok [7, 12, 14, 4, 3, 20, 5, 9, 6, 11, 0, 18, 10, 16, 1, 2, 8, 17, 15, 13, 19] := rfl
  have hranked := ranked?_eq (List.range 21) (word - 2)
  rw [List.length_range, if_neg (by decide), hsorted, hread] at hranked
  obtain ⟨answer, hanswer, hitem⟩ := ranked_is_walk_item List.nodup_range (word - 2)
  cases hanswer.symm.trans hranked
  exact ⟨List.nodup_range, _, rfl, hranked, hitem _ rfl⟩

/-- No arrangement is answered exactly when the rank is not below the number of
arrangements, or is the greatest word. -/
theorem ranked_none_iff (entries : List α) (rank : Nat) :
    ranked? entries rank = .ok none ↔
      entries.length.factorial ≤ rank ∨ word - 1 ≤ rank := by
  rw [ranked?_eq, ← min_le_iff]
  split
  · next hheld => exact iff_of_true rfl hheld
  · next hbelow =>
      refine iff_of_false ?_ hbelow
      cases readRank (placeValues entries.length) rank (Walk.sorted entries) <;>
        simp [Except.map]

/-- Twenty-one entries have an arrangement of the rank of the greatest word, but it is
not answered. -/
theorem greatest_rank_unanswered :
    ranked? (List.range 21) (word - 1) = .ok none ∧
      word - 1 < (List.range 21).length.factorial := by
  refine ⟨?_, by decide⟩
  rw [ranked?_eq]
  exact if_pos (min_le_right _ _)

end NumberPuzzles.Arrangement
