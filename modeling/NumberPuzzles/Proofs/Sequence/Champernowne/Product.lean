import Mathlib.Algebra.BigOperators.GroupWithZero.Finset
import Mathlib.Data.Nat.Log
import NumberPuzzles.Proofs.Checked
import NumberPuzzles.Proofs.Sequence.Champernowne.Positions

/-!
# The product of the digits at powers of ten

The test for powers of ten selects the positions 1, 10, 100 and so on, so the walk over all
positions multiplies the digits there, each time with the product of the earlier ones.  The first
of these digits is a one and the twelfth a zero; so no more than ten digits ever matter, and
their product is a half word.
-/

namespace NumberPuzzles.Champernowne

open Source (answerAt after)

variable {last position product count : Nat} {digit : Nat → Nat}

/-! ## Powers of ten -/

theorem isPowerOfTen_iff {number : Nat} :
    isPowerOfTen number = true ↔ ∃ exponent, 10 ^ exponent = number := by
  fun_induction isPowerOfTen number with
  | case1 number hdivides ih =>
      rw [ih]
      constructor
      · rintro ⟨exponent, hquotient⟩
        exact ⟨exponent + 1, by rw [Nat.pow_succ, hquotient]; omega⟩
      · rintro ⟨exponent, rfl⟩
        cases exponent with
        | zero => omega
        | succ exponent => exact ⟨exponent, by rw [Nat.pow_succ, Nat.mul_div_cancel _ (by decide)]⟩
  | case2 number hstop =>
      rw [decide_eq_true_eq]
      constructor
      · rintro rfl
        exact ⟨0, rfl⟩
      · rintro ⟨exponent, rfl⟩
        cases exponent with
        | zero => rfl
        | succ exponent =>
            have hpositive : 0 < 10 ^ exponent := Nat.pow_pos (by decide)
            rw [Nat.pow_succ] at hstop
            omega

theorem lt_clog_succ_iff {exponent : Nat} :
    exponent < Nat.clog 10 (last + 1) ↔ 10 ^ exponent ≤ last := by
  rw [Nat.lt_clog_iff_pow_lt (by decide), Nat.lt_succ_iff]

theorem clog_of_power (hpower : isPowerOfTen (last + 1) = true) :
    10 ^ Nat.clog 10 (last + 1) = last + 1 ∧
      Nat.clog 10 (last + 1 + 1) = Nat.clog 10 (last + 1) + 1 := by
  obtain ⟨exponent, hexponent⟩ := isPowerOfTen_iff.mp hpower
  have hhere : Nat.clog 10 (last + 1) = exponent := by
    rw [← hexponent, Nat.clog_pow 10 exponent (by decide)]
  have hinside : last + 1 + 1 ≤ 10 ^ (exponent + 1) := by
    rw [Nat.pow_succ]
    omega
  have hpast : exponent < Nat.clog 10 (last + 1 + 1) := lt_clog_succ_iff.mpr hexponent.le
  have hle := Nat.clog_le_of_le_pow hinside
  rw [hhere]
  exact ⟨hexponent, by omega⟩

theorem clog_of_not_power (hother : ¬ isPowerOfTen (last + 1) = true) :
    Nat.clog 10 (last + 1 + 1) = Nat.clog 10 (last + 1) := by
  symm
  rw [Nat.clog_eq_clog_succ_iff (by decide)]
  intro hpower
  exact hother (isPowerOfTen_iff.mpr ⟨_, hpower⟩)

/-! ## The walk over the positions -/

/-- The digits handed out at the positions in front of the last one. -/
def HandsOut (digit : Nat → Nat) (last : Nat) : Prop :=
  ∀ position < last, answerAt next position initial = .ok (some (digit position))

/-- One step of the product: a digit at a power of ten, counted from one, is multiplied in. -/
def multiplyAt (digit : Nat → Nat) (product position : Nat) : Checked Nat :=
  if isPowerOfTen (position + 1) then Checked.mul halfWord product (digit position)
  else .ok product

theorem digitProductFrom_run (hdigits : HandsOut digit (position + count)) :
    ((digitProductFrom product position count).run.run (after next position initial)).1 =
      (List.range' position count).foldlM (multiplyAt digit) product := by
  induction count generalizing position product with
  | zero => rfl
  | succ count ih =>
      have hnext := Source.run_of_answerAt (hdigits position (by omega))
      have hrest : ∀ product, ((digitProductFrom product (position + 1) count).run.run
          (after next (position + 1) initial)).1 =
            (List.range' (position + 1) count).foldlM (multiplyAt digit) product :=
        fun product => ih fun earlier hearlier => hdigits earlier (by omega)
      rw [digitProductFrom, Run.run_bind_ok hnext, List.range'_succ, List.foldlM_cons, multiplyAt]
      by_cases hpower : isPowerOfTen (position + 1) = true
      · simp only [if_pos hpower]
        cases hproduct : Checked.mul halfWord product (digit position) with
        | error fault => rfl
        | ok next =>
            rw [Run.run_bind_ok (Run.run_lift _ _)]
            exact hrest next
      · simp only [if_neg hpower]
        exact hrest product

theorem digitProduct_eq_foldlM (hdigits : HandsOut digit last) :
    digitProduct last = (List.range last).foldlM (multiplyAt digit) 1 := by
  rw [List.range_eq_range']
  apply digitProductFrom_run
  rwa [Nat.zero_add]

/-- The product of the digits at so many powers of ten, from the first one on. -/
def partialProduct (digit : Nat → Nat) (count : Nat) : Nat :=
  ∏ exponent ∈ Finset.range count, digit (10 ^ exponent - 1)

theorem partialProduct_succ (digit : Nat → Nat) (count : Nat) :
    partialProduct digit (count + 1) = partialProduct digit count * digit (10 ^ count - 1) :=
  Finset.prod_range_succ _ count

/-- The logarithm counts the powers of ten that have been passed; it changes where the test says
so. -/
theorem foldlM_multiplyAt
    (hfits : ∀ count ≤ Nat.clog 10 (last + 1), partialProduct digit count < halfWord) :
    (List.range last).foldlM (multiplyAt digit) 1 =
      .ok (partialProduct digit (Nat.clog 10 (last + 1))) := by
  induction last with
  | zero => rw [Nat.clog_one_right]; rfl
  | succ last ih =>
      have hmono : Nat.clog 10 (last + 1) ≤ Nat.clog 10 (last + 1 + 1) :=
        Nat.clog_mono_right 10 (Nat.le_succ _)
      have hbefore := ih fun count hcount => hfits count (hcount.trans hmono)
      have hstep : multiplyAt digit (partialProduct digit (Nat.clog 10 (last + 1))) last =
          .ok (partialProduct digit (Nat.clog 10 (last + 1 + 1))) := by
        rw [multiplyAt]
        by_cases hpower : isPowerOfTen (last + 1) = true
        · obtain ⟨hhere, hnext⟩ := clog_of_power hpower
          have hproduct := hfits _ hnext.ge
          rw [partialProduct_succ, hhere, Nat.add_sub_cancel] at hproduct
          rw [if_pos hpower, hnext, partialProduct_succ, hhere, Nat.add_sub_cancel]
          exact if_pos hproduct
        · rw [if_neg hpower, clog_of_not_power hpower]
      rw [List.range_succ, List.foldlM_append, hbefore, ← hstep]
      change [last].foldlM (multiplyAt digit) _ = _
      rw [List.foldlM_cons]
      exact bind_pure _

/-! ## The product stays small -/

theorem exists_digit (hword : position < word) :
    ∃ found ≤ 9, answerAt next position initial = .ok (some found) := by
  obtain ⟨width, hblock, -⟩ := existsUnique_inBlock position
  exact ⟨_, Nat.le_of_lt_succ (Nat.mod_lt _ (by decide)),
    hblock.answerAt_eq (hblock.numberAt_lt hword)⟩

theorem exists_handsOut (hword : last ≤ word) : ∃ digit, HandsOut digit last := by
  have hexists : ∀ position, ∃ found, position < last →
      answerAt next position initial = .ok (some found) := by
    intro position
    by_cases hposition : position < last
    · obtain ⟨found, -, hanswer⟩ := exists_digit (hposition.trans_le hword)
      exact ⟨found, fun _ => hanswer⟩
    · exact ⟨0, fun hinside => absurd hinside hposition⟩
  choose digit hdigit using hexists
  exact ⟨digit, hdigit⟩

theorem HandsOut.eq_of_answerAt {found : Nat} (hdigits : HandsOut digit last)
    (hposition : position < last) (hanswer : answerAt next position initial = .ok (some found)) :
    digit position = found := by
  rw [hdigits position hposition] at hanswer
  cases hanswer
  rfl

theorem HandsOut.le_nine (hdigits : HandsOut digit last) (hword : last ≤ word)
    (hposition : position < last) : digit position ≤ 9 := by
  obtain ⟨found, hfound, hanswer⟩ := exists_digit (hposition.trans_le hword)
  rwa [hdigits.eq_of_answerAt hposition hanswer]

theorem answerAt_first : answerAt next 0 initial = .ok (some 1) := by
  have hblock : InBlock 1 0 := ⟨by decide, by decide, by decide⟩
  exact hblock.answerAt_eq (by decide)

/-- Counted from one, the position 10 ^ 11 is that of the last digit of 10101010100. -/
theorem answerAt_twelfth : answerAt next (10 ^ 11 - 1) initial = .ok (some 0) := by
  have hblock : InBlock 11 (10 ^ 11 - 1) := ⟨by decide, by decide +kernel, by decide +kernel⟩
  have hnumber : numberAt 11 (10 ^ 11 - 1) = 10101010100 := by decide +kernel
  have hplace : placeAt 11 (10 ^ 11 - 1) = 10 := by decide +kernel
  have hanswer := hblock.answerAt_eq (by rw [hnumber]; decide)
  rwa [hnumber, hplace] at hanswer

/-- Up to eleven digits there are ten beside the one in front, and a product of ten digits is a
half word; with the twelfth digit every product is zero. -/
theorem HandsOut.partialProduct_lt (hdigits : HandsOut digit last) (hword : last ≤ word)
    (hcount : count ≤ Nat.clog 10 (last + 1)) : partialProduct digit count < halfWord := by
  have hinside : ∀ exponent < count, 10 ^ exponent - 1 < last := by
    intro exponent hexponent
    have hpositive : 0 < 10 ^ exponent := Nat.pow_pos (by decide)
    have hle := lt_clog_succ_iff.mp (hexponent.trans_le hcount)
    omega
  rcases Nat.lt_or_ge 11 count with hmany | hfew
  · have hzero := hdigits.eq_of_answerAt (hinside 11 hmany) answerAt_twelfth
    have hproduct : partialProduct digit count = 0 :=
      Finset.prod_eq_zero (Finset.mem_range.mpr hmany) hzero
    rw [hproduct]
    decide
  · cases count with
    | zero => exact (by decide : 1 < halfWord)
    | succ count =>
        have hone : digit (10 ^ 0 - 1) = 1 :=
          hdigits.eq_of_answerAt (hinside 0 (Nat.succ_pos count)) answerAt_first
        have hnine : ∀ exponent ∈ Finset.range count, digit (10 ^ (exponent + 1) - 1) ≤ 9 := by
          intro exponent hexponent
          have hbefore := Finset.mem_range.mp hexponent
          exact hdigits.le_nine hword (hinside (exponent + 1) (by omega))
        have hbound := Finset.prod_le_pow_card _ _ _ hnine
        rw [Finset.card_range] at hbound
        calc partialProduct digit (count + 1)
            = ∏ exponent ∈ Finset.range count, digit (10 ^ (exponent + 1) - 1) := by
              rw [partialProduct, Finset.prod_range_succ', hone, Nat.mul_one]
          _ ≤ 9 ^ count := hbound
          _ ≤ 9 ^ 10 := Nat.pow_le_pow_right (by decide) (by omega)
          _ < halfWord := by decide

/-- Every position lies in the block of exactly one width, and as long as the number there is one
that the stream reaches, the digit handed out is that at the place in this number.  For every
word as the last position, the digits at all powers of ten up to it are handed out, the product
is that of these digits, and no product of the first so many of them overflows on the way. -/
theorem digits_located_and_multiplied :
    (∀ position, ∃! width, InBlock width position) ∧
    (∀ width position, InBlock width position → numberAt width position < word - 1 →
      answerAt next position initial = .ok
        (some (numberAt width position / 10 ^ (width - 1 - placeAt width position) % 10))) ∧
    ∀ last < word, ∃ item : Nat → Nat,
      (∀ exponent, 10 ^ exponent ≤ last →
        answerAt next (10 ^ exponent - 1) initial = .ok (some (item exponent))) ∧
      (∀ count, (∀ exponent < count, 10 ^ exponent ≤ last) →
        ∏ exponent ∈ Finset.range count, item exponent < halfWord) ∧
      digitProduct last = .ok
        (∏ exponent ∈ (Finset.range last).filter fun exponent => 10 ^ exponent ≤ last,
          item exponent) := by
  refine ⟨existsUnique_inBlock, fun width position hblock => hblock.answerAt_eq, ?_⟩
  intro last hword
  obtain ⟨digit, hdigits⟩ := exists_handsOut hword.le
  have hexponents : (Finset.range last).filter (fun exponent => 10 ^ exponent ≤ last) =
      Finset.range (Nat.clog 10 (last + 1)) := by
    ext exponent
    rw [Finset.mem_filter, Finset.mem_range, Finset.mem_range, lt_clog_succ_iff]
    apply and_iff_right_of_imp
    intro hle
    exact (Nat.lt_pow_self (by decide)).trans_le hle
  refine ⟨fun exponent => digit (10 ^ exponent - 1), ?_, ?_, ?_⟩
  · intro exponent hle
    have hpositive : 0 < 10 ^ exponent := Nat.pow_pos (by decide)
    exact hdigits (10 ^ exponent - 1) (by omega)
  · intro count hcount
    apply hdigits.partialProduct_lt hword.le
    refine Nat.not_lt.mp fun hpast => ?_
    exact lt_irrefl _ (lt_clog_succ_iff.mpr (hcount _ hpast))
  · rw [hexponents, digitProduct_eq_foldlM hdigits, foldlM_multiplyAt]
    · rfl
    · intro count hcount
      exact hdigits.partialProduct_lt hword.le hcount

/-- The last digit that is ever handed out is the last one of the number before the greatest word,
and the product up to the greatest word is zero. -/
theorem digits_located_and_multiplied_up_to_last :
    (InBlock 20 (blockStart 20 + 20 * (word - 2 - 10 ^ 19) + 19) ∧
      numberAt 20 (blockStart 20 + 20 * (word - 2 - 10 ^ 19) + 19) < word - 1 ∧
      answerAt next (blockStart 20 + 20 * (word - 2 - 10 ^ 19) + 19) initial = .ok (some 4)) ∧
    word - 1 < word ∧ digitProduct (word - 1) = .ok 0 := by
  obtain ⟨-, hlocated, hmultiplied⟩ := digits_located_and_multiplied
  have hblock : InBlock 20 (blockStart 20 + 20 * (word - 2 - 10 ^ 19) + 19) :=
    ⟨by decide, by decide +kernel, by decide +kernel⟩
  have hnumber : numberAt 20 (blockStart 20 + 20 * (word - 2 - 10 ^ 19) + 19) < word - 1 := by
    decide +kernel
  have hdigit : numberAt 20 (blockStart 20 + 20 * (word - 2 - 10 ^ 19) + 19) /
      10 ^ (20 - 1 - placeAt 20 (blockStart 20 + 20 * (word - 2 - 10 ^ 19) + 19)) % 10 = 4 := by
    decide +kernel
  have hlast := hlocated 20 _ hblock hnumber
  rw [hdigit] at hlast
  have hword : word - 1 < word := by decide
  obtain ⟨item, hitems, -, hproduct⟩ := hmultiplied (word - 1) hword
  have htwelfth := hitems 11 (by decide)
  have hzero : item 11 = 0 := by
    rw [answerAt_twelfth] at htwelfth
    exact (Option.some.inj (Except.ok.inj htwelfth)).symm
  have hmember : 11 ∈ (Finset.range (word - 1)).filter fun exponent => 10 ^ exponent ≤ word - 1 :=
    Finset.mem_filter.mpr ⟨Finset.mem_range.mpr (by decide), by decide⟩
  rw [Finset.prod_eq_zero hmember hzero] at hproduct
  exact ⟨⟨hblock, hnumber, hlast⟩, hword, hproduct⟩

end NumberPuzzles.Champernowne
