import NumberPuzzles.Proofs.Puzzle.ConcatenatedProduct.Row

/-!
# What is a concatenated product

A text that is a row of products begins with its base, and each beginning of the text is tried;
so no base is missed, and what is found is one.  The search ends at the first beginning that
succeeds, or with a fault at the first one that forms a product past the machine words.  For a
text of at most nineteen digits there is no such product.
-/

namespace NumberPuzzles.ConcatenatedProduct

variable {base : Nat} {text : List Char}

/-! ## One beginning -/

/-- What stands in front of the cut is a base of which the text is a row. -/
def SucceedsAt (text : List Char) (cut : Nat) : Prop :=
  ∃ base, Text.readWord (text.take cut) = .ok base ∧ IsRowOf text base

/-- No product that is formed for the beginning up to the cut is past the words. -/
def FitsAt (text : List Char) (cut : Nat) : Prop :=
  ∀ base, Text.readWord (text.take cut) = .ok base → ¬ Overflows text.length base

theorem isBaseOf_eq {front : List Char} (hread : Text.readWord front = .ok base) :
    isBaseOf text front = isProductOf text base := by
  rw [isBaseOf, hread]

theorem isBaseOf_run (hdigits : ∀ letter ∈ text, letter.isDigit = true) {cut : Nat}
    (hfits : FitsAt text cut) :
    ∃ found, isBaseOf text (text.take cut) = .ok found ∧
      (found = true ↔ SucceedsAt text cut) := by
  cases hread : Text.readWord (text.take cut) with
  | error reason =>
      refine ⟨false, by rw [isBaseOf, hread], iff_of_false Bool.false_ne_true ?_⟩
      rintro ⟨base, hbase, -⟩
      rw [hread] at hbase
      cases hbase
  | ok base =>
      obtain ⟨found, hrun, hfound⟩ := isProductOf_run hdigits (hfits base hread)
      refine ⟨found, (isBaseOf_eq hread).trans hrun, ?_⟩
      rw [hfound]
      constructor
      · exact fun hrow => ⟨base, hread, hrow⟩
      · rintro ⟨other, hother, hrow⟩
        rw [hread] at hother
        cases hother
        exact hrow

theorem isBaseOf_overflows (hdigits : ∀ letter ∈ text, letter.isDigit = true) {cut : Nat}
    (hpast : ¬ FitsAt text cut) : isBaseOf text (text.take cut) = .error .multiply := by
  rw [FitsAt] at hpast
  push Not at hpast
  obtain ⟨base, hread, hpast⟩ := hpast
  exact (isBaseOf_eq hread).trans (isProductOf_overflows hdigits hpast)

/-! ## All beginnings -/

/-- The cut is tried, because no earlier one behind the start succeeds, and it forms a product
that is past the words. -/
structure StopsAt (text : List Char) (start cut : Nat) : Prop where
  behind : start < cut
  inside : cut < text.length
  tried : ∀ earlier, start < earlier → earlier < cut → ¬ SucceedsAt text earlier
  past : ¬ FitsAt text cut

def ProductsFit (text : List Char) : Prop := ∀ cut, ¬ StopsAt text 0 cut

theorem StopsAt.next {start cut : Nat} (hstops : StopsAt text start cut)
    (hlater : start + 1 < cut) : StopsAt text (start + 1) cut where
  behind := hlater
  inside := hstops.inside
  tried earlier hstart := hstops.tried earlier (Nat.lt_of_succ_lt hstart)
  past := hstops.past

theorem StopsAt.of_next {start cut : Nat} (hstops : StopsAt text (start + 1) cut)
    (hfails : ¬ SucceedsAt text (start + 1)) : StopsAt text start cut where
  behind := Nat.lt_of_succ_lt hstops.behind
  inside := hstops.inside
  tried earlier hstart hbefore := by
    rcases Nat.eq_or_lt_of_le hstart with rfl | hstart
    · exact hfails
    · exact hstops.tried earlier hstart hbefore
  past := hstops.past

inductive SearchEnds (text : List Char) (start : Nat) : Checked Bool → Prop
  | found {cut : Nat} (hstart : start < cut) (hinside : cut < text.length)
      (hsucceeds : SucceedsAt text cut) (hnone : ∀ other, ¬ StopsAt text start other) :
      SearchEnds text start (.ok true)
  | exhausted (hfail : ∀ cut, start < cut → cut < text.length → ¬ SucceedsAt text cut)
      (hnone : ∀ other, ¬ StopsAt text start other) : SearchEnds text start (.ok false)
  | stopped {cut : Nat} (hstops : StopsAt text start cut) :
      SearchEnds text start (.error .multiply)

namespace SearchEnds

variable {start : Nat}

theorem of_end (hend : text.length ≤ start + 1) : SearchEnds text start (.ok false) := by
  apply SearchEnds.exhausted
  · intro cut hstart hinside
    omega
  · intro cut hstops
    have hbehind := hstops.behind
    have hinside := hstops.inside
    omega

/-- The cut after the start is the first that is tried. -/
theorem of_success (hinside : start + 1 < text.length) (hfits : FitsAt text (start + 1))
    (hsucceeds : SucceedsAt text (start + 1)) : SearchEnds text start (.ok true) := by
  refine .found (Nat.lt_succ_self start) hinside hsucceeds ?_
  intro other hstops
  rcases Nat.eq_or_lt_of_le hstops.behind with rfl | hlater
  · exact hstops.past hfits
  · exact hstops.tried (start + 1) (Nat.lt_succ_self start) hlater hsucceeds

theorem of_overflow (hinside : start + 1 < text.length) (hpast : ¬ FitsAt text (start + 1)) :
    SearchEnds text start (.error .multiply) := by
  refine .stopped ⟨Nat.lt_succ_self start, hinside, ?_, hpast⟩
  intro earlier hstart hbefore
  omega

/-- If the cut after the start does not succeed, the search ends as it does behind that cut. -/
theorem of_next {outcome : Checked Bool} (hends : SearchEnds text (start + 1) outcome)
    (hfits : FitsAt text (start + 1)) (hfails : ¬ SucceedsAt text (start + 1)) :
    SearchEnds text start outcome := by
  have hlater : ∀ other, StopsAt text start other → StopsAt text (start + 1) other := by
    intro other hstops
    refine hstops.next (Nat.lt_of_le_of_ne hstops.behind ?_)
    rintro rfl
    exact hstops.past hfits
  cases hends with
  | found hstart hinside hsucceeds hnone =>
      exact .found (Nat.lt_of_succ_lt hstart) hinside hsucceeds
        fun other hstops => hnone other (hlater other hstops)
  | exhausted hfail hnone =>
      refine .exhausted ?_ fun other hstops => hnone other (hlater other hstops)
      intro cut hstart hinside
      rcases Nat.eq_or_lt_of_le hstart with rfl | hstart
      · exact hfails
      · exact hfail cut hstart hinside
  | stopped hstops => exact .stopped (hstops.of_next hfails)

theorem answers {outcome : Checked Bool} (hends : SearchEnds text start outcome)
    (hnone : ∀ cut, ¬ StopsAt text start cut) :
    ∃ answer, outcome = .ok answer ∧
      (answer = true ↔ ∃ cut, start < cut ∧ cut < text.length ∧ SucceedsAt text cut) := by
  cases hends with
  | found hstart hinside hsucceeds _ =>
      exact ⟨true, rfl, iff_of_true rfl ⟨_, hstart, hinside, hsucceeds⟩⟩
  | exhausted hfail _ =>
      refine ⟨false, rfl, iff_of_false Bool.false_ne_true ?_⟩
      rintro ⟨cut, hstart, hinside, hsucceeds⟩
      exact hfail cut hstart hinside hsucceeds
  | stopped hstops => exact absurd hstops (hnone _)

theorem fails {outcome : Checked Bool} (hends : SearchEnds text start outcome)
    (hsome : ¬ ∀ cut, ¬ StopsAt text start cut) : outcome = .error .multiply := by
  cases hends with
  | found _ _ _ hnone => exact absurd hnone hsome
  | exhausted _ hnone => exact absurd hnone hsome
  | stopped _ => rfl

end SearchEnds

/-- The search goes through the cuts behind a beginning in order. -/
theorem someBeginning_ends (hdigits : ∀ letter ∈ text, letter.isDigit = true)
    {front rest : List Char} (htext : text = front ++ rest) :
    SearchEnds text front.length (someBeginning text front rest) := by
  induction rest generalizing front with
  | nil =>
      apply SearchEnds.of_end
      rw [htext, List.append_nil]
      exact Nat.le_succ _
  | cons letter rest ih =>
      have hlength : text.length = front.length + 1 + rest.length := by
        rw [htext, List.length_append, List.length_cons, Nat.add_comm rest.length, Nat.add_assoc]
      have hsize : letter.utf8Size = 1 :=
        Text.utf8Size_of_isDigit (hdigits letter (by simp [htext]))
      rw [someBeginning, if_neg (by omega)]
      cases rest with
      | nil => exact SearchEnds.of_end hlength.le
      | cons next rest =>
          have hinside : front.length + 1 < text.length := by
            rw [hlength, List.length_cons]
            omega
          have hfront : text.take (front.length + 1) = front ++ [letter] := by
            rw [htext, List.take_length_add_append]
            rfl
          have hjoined : text = (front ++ [letter]) ++ next :: rest := by
            rw [htext, List.append_assoc, List.singleton_append]
          have hnext := ih hjoined
          rw [List.length_append, List.length_singleton, ← hfront] at hnext
          rw [List.isEmpty_cons, if_neg Bool.false_ne_true, ← hfront]
          by_cases hfits : FitsAt text (front.length + 1)
          · obtain ⟨found, hrun, hfound⟩ := isBaseOf_run hdigits hfits
            rw [Checked.bind_of_ok hrun]
            cases found with
            | true => exact SearchEnds.of_success hinside hfits (hfound.mp rfl)
            | false =>
                rw [if_neg Bool.false_ne_true]
                exact hnext.of_next hfits fun hsucceeds =>
                  Bool.false_ne_true (hfound.mpr hsucceeds)
          · rw [isBaseOf_overflows hdigits hfits]
            exact SearchEnds.of_overflow hinside hfits

/-! ## Texts of nineteen digits -/

theorem readWord_lt_pow {figures : List Char} (hdigits : ∀ letter ∈ figures, letter.isDigit = true)
    (hread : Text.readWord figures = .ok base) : base < 10 ^ figures.length := by
  obtain ⟨others, hfigures | hplus, -, -, hvalue, -⟩ := Text.readWord_eq_ok_iff.mp hread
  · rw [← hvalue, ← hfigures, ← List.length_map (f := Text.figureValue)]
    exact positionalValue_lt (Text.forall_figureValue_le hdigits)
  · exact absurd (hdigits '+' (hplus ▸ List.mem_cons_self)) (by decide)

theorem productsFit_of_length_le (hdigits : ∀ letter ∈ text, letter.isDigit = true)
    (hlength : text.length ≤ 19) : ProductsFit text := by
  intro cut hstops
  refine hstops.past fun base hread => not_overflows_of_le hlength ?_
  have hinside := hstops.inside
  have hfront : ∀ letter ∈ text.take cut, letter.isDigit = true :=
    fun letter hletter => hdigits letter (List.mem_of_mem_take hletter)
  have hwidth : (text.take cut).length ≤ 18 := by
    rw [List.length_take]
    omega
  exact (readWord_lt_pow hfront hread).trans_le (Nat.pow_le_pow_right (by norm_num) hwidth)

/-! ## The whole text -/

/-- A row succeeds at the cut behind its base. -/
theorem succeedsAt_of_isRowOf (hword : base < word) (hrow : IsRowOf text base) :
    0 < (Text.decimal base).length ∧ (Text.decimal base).length < text.length ∧
      SucceedsAt text (Text.decimal base).length := by
  obtain ⟨count, hcount, htext⟩ := hrow
  obtain ⟨more, rfl⟩ := Nat.exists_eq_add_of_le' hcount
  have hfront : text.take (Text.decimal base).length = Text.decimal base := by
    rw [htext, productRow_eq_append, List.take_left]
  have hone : productRow base 1 = Text.decimal base := by
    rw [productRow_eq_append, List.range'_zero, List.flatMap_nil, List.append_nil]
  refine ⟨List.length_pos_iff.mpr (Text.decimal_ne_nil base), ?_, base, ?_, _, hcount, htext⟩
  · rw [htext, ← hone]
    exact length_productRow_strictMono base (by omega)
  · rw [hfront, Text.readWord_eq_ok_iff]
    exact Text.isNumeral_decimal hword

theorem exists_succeedsAt_iff :
    (∃ cut, 0 < cut ∧ cut < text.length ∧ SucceedsAt text cut) ↔
      ∃ base < word, IsRowOf text base := by
  constructor
  · rintro ⟨cut, -, -, base, hread, hrow⟩
    obtain ⟨-, -, -, -, -, hword⟩ := Text.readWord_eq_ok_iff.mp hread
    exact ⟨base, hword, hrow⟩
  · rintro ⟨base, hword, hrow⟩
    exact ⟨_, succeedsAt_of_isRowOf hword hrow⟩

/-- A text of at most nineteen digits is tested without a fault. -/
theorem isConcatenatedProduct_run (hdigits : ∀ letter ∈ text, letter.isDigit = true)
    (hlength : text.length ≤ 19) :
    ∃ answer, isConcatenatedProduct text = .ok answer ∧
      (answer = true ↔ ∃ base < word, IsRowOf text base) := by
  have hends : SearchEnds text 0 (isConcatenatedProduct text) :=
    someBeginning_ends hdigits (List.nil_append text).symm
  obtain ⟨answer, hrun, hanswer⟩ := hends.answers (productsFit_of_length_le hdigits hlength)
  exact ⟨answer, hrun, hanswer.trans exists_succeedsAt_iff⟩

theorem isConcatenatedProduct_productRow {count : Nat} (hword : base < word) (hcount : 2 ≤ count)
    (hlength : (productRow base count).length ≤ 19) :
    isConcatenatedProduct (productRow base count) = .ok true := by
  obtain ⟨answer, hrun, hanswer⟩ :=
    isConcatenatedProduct_run (fun _ => isDigit_of_mem_productRow) hlength
  rw [hrun, hanswer.mpr ⟨base, hword, count, hcount, rfl⟩]

/-- If no product that is formed is past the words, a text of digits is found to be a concatenated
product exactly when it is a row of at least two products of a word, which is zero if the text
begins with a zero; otherwise the search ends with the fault of the multiplication.  No product is
past the words for a text of at most nineteen digits. -/
theorem decides_concatenated_products (hdigits : ∀ letter ∈ text, letter.isDigit = true) :
    (ProductsFit text → ∃ answer, isConcatenatedProduct text = .ok answer ∧
      (answer = true ↔ ∃ base < word, ∃ count, 2 ≤ count ∧ text = productRow base count)) ∧
    (¬ ProductsFit text → isConcatenatedProduct text = .error .multiply) ∧
    (text.length ≤ 19 → ProductsFit text) ∧
    ∀ base count, 0 < base → text = productRow base count → text.head? ≠ some '0' := by
  have hends : SearchEnds text 0 (isConcatenatedProduct text) :=
    someBeginning_ends hdigits (List.nil_append text).symm
  refine ⟨?_, hends.fails, productsFit_of_length_le hdigits, ?_⟩
  · intro hfits
    obtain ⟨answer, hrun, hanswer⟩ := hends.answers hfits
    exact ⟨answer, hrun, hanswer.trans exists_succeedsAt_iff⟩
  · rintro base count hpositive rfl
    exact head?_productRow_ne hpositive count

/-- The numbers up to twenty in a row have thirty-one digits.  The row is found at its first
digit, so the products of longer beginnings are not formed. -/
theorem decides_concatenated_products_of_one :
    (∀ letter ∈ productRow 1 20, letter.isDigit = true) ∧ ProductsFit (productRow 1 20) ∧
      isConcatenatedProduct (productRow 1 20) = .ok true := by
  have hdigits : ∀ letter ∈ productRow 1 20, letter.isDigit = true := by
    intro letter hletter
    obtain ⟨factor, -, hletter⟩ := List.mem_flatMap.mp hletter
    exact Text.isDigit_of_mem_decimal hletter
  have hrow : IsRowOf (productRow 1 20) 1 := ⟨20, by decide, rfl⟩
  have hone : Text.decimal 1 = ['1'] := by
    rw [Text.decimal, digits, digitsOnto, if_pos (by decide)]
    rfl
  have hfirst : (productRow 1 20).take 1 = Text.decimal 1 := by
    rw [productRow_eq_append, hone]
    rfl
  have hread : Text.readWord ((productRow 1 20).take 1) = .ok 1 := by
    rw [hfirst, Text.readWord_eq_ok_iff]
    exact Text.isNumeral_decimal (by decide)
  have hfits : ProductsFit (productRow 1 20) := by
    intro cut hstops
    rcases Nat.eq_or_lt_of_le hstops.behind with rfl | hlater
    · refine hstops.past ?_
      rintro base hbase ⟨count, hshort, hpast⟩
      rw [hread] at hbase
      cases hbase
      have hcount : count < 20 := (length_productRow_strictMono 1).lt_iff_lt.mp hshort
      exact absurd (hpast.trans (show 1 * (count + 1) ≤ 20 by omega)) (by decide)
    · exact hstops.tried 1 Nat.one_pos hlater ⟨1, hread, hrow⟩
  obtain ⟨answer, hrun, hanswer⟩ := (decides_concatenated_products hdigits).1 hfits
  rw [hanswer.mpr ⟨1, by decide, hrow⟩] at hrun
  exact ⟨hdigits, hfits, hrun⟩

end NumberPuzzles.ConcatenatedProduct
