import NumberPuzzles.Proofs.Checked
import NumberPuzzles.Proofs.Text.Numeral
import NumberPuzzles.Puzzle.ConcatenatedProduct

/-!
# Rows of products

The products of a base are written one after the other, and the row gets longer with each of
them.  So the building of a row ends, with the first row that is as long as told, and one row at
most is equal to a text.  A product past the machine words stops the building; after eighteen
digits of products none is.
-/

namespace NumberPuzzles.ConcatenatedProduct

variable {base count length : Nat} {text : List Char}

/-- The products of a base by one, two, and so on, written one after the other. -/
def productRow (base count : Nat) : List Char :=
  (List.range' 1 count).flatMap fun factor => Text.decimal (base * factor)

def IsRowOf (text : List Char) (base : Nat) : Prop :=
  ∃ count, 2 ≤ count ∧ text = productRow base count

/-- Some product that is formed while the row is shorter than the text is past the words. -/
def Overflows (length base : Nat) : Prop :=
  ∃ count, (productRow base count).length < length ∧ word ≤ base * (count + 1)

/-! ## Rows of products -/

theorem productRow_succ (base count : Nat) :
    productRow base (count + 1) = productRow base count ++ Text.decimal (base * (count + 1)) := by
  rw [productRow, List.range'_1_concat, List.flatMap_append, List.flatMap_singleton, Nat.add_comm 1,
    productRow]

/-- A row begins with its base. -/
theorem productRow_eq_append (base count : Nat) :
    productRow base (count + 1) =
      Text.decimal base ++
        (List.range' 2 count).flatMap fun factor => Text.decimal (base * factor) := by
  rw [productRow, List.range'_succ, List.flatMap_cons, Nat.mul_one]

theorem length_productRow_lt (base count : Nat) :
    (productRow base count).length < (productRow base (count + 1)).length := by
  rw [productRow_succ]
  exact length_lt_append_decimal _ _

theorem length_productRow_strictMono (base : Nat) :
    StrictMono fun count => (productRow base count).length :=
  strictMono_nat_of_lt_succ (length_productRow_lt base)

theorem isDigit_of_mem_productRow {letter : Char} (hletter : letter ∈ productRow base count) :
    letter.isDigit = true := by
  obtain ⟨factor, -, hfactor⟩ := List.mem_flatMap.mp hletter
  exact Text.isDigit_of_mem_decimal hfactor

/-- A row of positive products does not begin with a zero. -/
theorem head?_productRow_ne (hpositive : 0 < base) (count : Nat) :
    (productRow base count).head? ≠ some '0' := by
  cases count with
  | zero => simp [productRow]
  | succ count =>
      intro hhead
      have hne : Text.decimal base ≠ [] := Text.decimal_ne_nil base
      rw [productRow_eq_append, List.head?_append_of_ne_nil _ hne] at hhead
      have hzero : (digits base).head? = some 0 := by
        rw [← Text.map_figureValue_decimal, List.head?_map, hhead]
        rfl
      have hvalue := positionalValue_digits base
      rw [(digits_isDecimalForm base).leading hzero] at hvalue
      exact hpositive.ne hvalue

/-! ## The building of a row -/

/-- One step of the building, at a row that is too short. -/
theorem buildFrom_step (hshort : (productRow base count).length < length) :
    buildFrom base length (count + 1) (productRow base count) =
      if base * (count + 1) < word then
        buildFrom base length (count + 2) (productRow base (count + 1))
      else .error .multiply := by
  rw [buildFrom, if_neg (Nat.not_le.mpr hshort)]
  split
  next hword =>
    have hproduct : Checked.mul word base (count + 1) = .ok (base * (count + 1)) := if_pos hword
    rw [Checked.bind_of_ok hproduct, productRow_succ]
  next hpast =>
    rw [Checked.mul, if_neg hpast]
    rfl

/-- If every product is a word, the building ends with the first row that is long enough. -/
theorem buildFrom_run
    (hfits : ∀ later, count ≤ later → (productRow base later).length < length →
      base * (later + 1) < word) :
    ∃ last, buildFrom base length (count + 1) (productRow base count) =
        .ok (productRow base last, last + 1) ∧
      length ≤ (productRow base last).length ∧
      ∀ fewer, count ≤ fewer → fewer < last → (productRow base fewer).length < length := by
  induction hmissing : length - (productRow base count).length using Nat.strong_induction_on
    generalizing count with
  | _ missing ih =>
      rcases Nat.lt_or_ge (productRow base count).length length with hshort | hlong
      · have hnext := length_productRow_lt base count
        obtain ⟨last, hrun, hlast, hfewer⟩ :=
          ih (length - (productRow base (count + 1)).length) (by omega)
            (fun later hlater => hfits later (by omega)) rfl
        refine ⟨last, ?_, hlast, ?_⟩
        · rw [buildFrom_step hshort, if_pos (hfits count le_rfl hshort), hrun]
        · intro fewer hcount hbefore
          rcases hcount.eq_or_lt with rfl | hcount
          · exact hshort
          · exact hfewer fewer hcount hbefore
      · refine ⟨count, ?_, hlong, by omega⟩
        rw [buildFrom, if_pos hlong]
        rfl

theorem buildFrom_overflows {later : Nat} (hcount : count ≤ later)
    (hshort : (productRow base later).length < length) (hpast : word ≤ base * (later + 1)) :
    buildFrom base length (count + 1) (productRow base count) = .error .multiply := by
  induction hcount using Nat.decreasingInduction with
  | self => rw [buildFrom_step hshort, if_neg (Nat.not_lt.mpr hpast)]
  | of_succ earlier hearlier ih =>
      have hrow := (length_productRow_strictMono base).monotone (Nat.le_of_lt hearlier)
      rw [buildFrom_step (Nat.lt_of_le_of_lt hrow hshort), ih, ite_self]

/-! ## One base -/

theorem byteLength_eq (hdigits : ∀ letter ∈ text, letter.isDigit = true) :
    byteLength text = text.length := by
  have hsizes : text.map Char.utf8Size = List.replicate text.length 1 := by
    rw [← List.length_map (f := Char.utf8Size), List.eq_replicate_length]
    intro size hsize
    obtain ⟨letter, hletter, rfl⟩ := List.mem_map.mp hsize
    exact Text.utf8Size_of_isDigit (hdigits letter hletter)
  rw [byteLength, ← List.sum_eq_foldl, hsizes, List.sum_replicate_nat, Nat.mul_one]

theorem isProductOf_run (hdigits : ∀ letter ∈ text, letter.isDigit = true)
    (hfits : ¬ Overflows text.length base) :
    ∃ answer, isProductOf text base = .ok answer ∧ (answer = true ↔ IsRowOf text base) := by
  have hwords : ∀ later, 0 ≤ later → (productRow base later).length < text.length →
      base * (later + 1) < word := by
    intro later _ hshort
    exact Nat.not_le.mp fun hpast => hfits ⟨later, hshort, hpast⟩
  obtain ⟨last, hrun, hlong, hshort⟩ := buildFrom_run hwords
  rw [isProductOf, byteLength_eq hdigits, show ([] : List Char) = productRow base 0 from rfl,
    Checked.bind_of_ok hrun]
  refine ⟨_, rfl, ?_⟩
  rw [Bool.and_eq_true, decide_eq_true_eq, beq_iff_eq]
  constructor
  · rintro ⟨hmany, hbuilt⟩
    exact ⟨last, by omega, hbuilt.symm⟩
  · rintro ⟨count, hcount, htext⟩
    -- Rows of different lengths differ, so the first one that is long enough is the text.
    have hlast : last = count := by
      rw [htext] at hlong hshort
      refine le_antisymm (not_lt.mp fun hmore => ?_) ?_
      · exact lt_irrefl _ (hshort count (Nat.zero_le count) hmore)
      · exact (length_productRow_strictMono base).le_iff_le.mp hlong
    rw [hlast]
    exact ⟨by omega, htext.symm⟩

theorem isProductOf_overflows (hdigits : ∀ letter ∈ text, letter.isDigit = true)
    (hpast : Overflows text.length base) : isProductOf text base = .error .multiply := by
  obtain ⟨later, hshort, hword⟩ := hpast
  rw [isProductOf, byteLength_eq hdigits, show ([] : List Char) = productRow base 0 from rfl,
    buildFrom_overflows (Nat.zero_le later) hshort hword]
  rfl

/-! ## Short rows -/

/-- Each product has at least as many digits as its base. -/
theorem mul_digitCount_le_length (base count : Nat) :
    count * digitCount base ≤ (productRow base count).length := by
  induction count with
  | zero =>
      rw [Nat.zero_mul]
      exact Nat.zero_le _
  | succ count ih =>
      have hproduct : digitCount base ≤ digitCount (base * (count + 1)) :=
        digitCount_mono (Nat.le_mul_of_pos_right base (Nat.succ_pos count))
      rw [productRow_succ, List.length_append, Text.length_decimal, Nat.succ_mul]
      exact Nat.add_le_add ih hproduct

/-- After products of at most eighteen digits together, the next product of a number of at most
eighteen digits is a word. -/
theorem not_overflows_of_le (hlength : length ≤ 19) (hbase : base < 10 ^ 18) :
    ¬ Overflows length base := by
  rintro ⟨count, hshort, hpast⟩
  have hdigits : count * digitCount base ≤ 18 := by
    have hrow := mul_digitCount_le_length base count
    omega
  rcases Nat.eq_zero_or_pos base with rfl | hpositive
  · rw [Nat.zero_mul] at hpast
    exact absurd hpast (by decide)
  rcases Nat.lt_or_ge (digitCount base) 18 with hfew | hmany
  · have hcount : count ≤ count * digitCount base :=
      Nat.le_mul_of_pos_right count (digitCount_pos base)
    have hsmall : base < 10 ^ 17 :=
      (lt_pow_digitCount hpositive).trans_le (Nat.pow_le_pow_right (by norm_num) (by omega))
    have hproduct : base * (count + 1) < 10 ^ 17 * 19 :=
      Nat.mul_lt_mul_of_lt_of_le hsmall (by omega) (by norm_num)
    exact absurd (hpast.trans_lt hproduct) (by decide)
  · have hcount : count * 18 ≤ count * digitCount base := Nat.mul_le_mul_left count hmany
    have hproduct : base * (count + 1) < 10 ^ 18 * 2 :=
      Nat.mul_lt_mul_of_lt_of_le hbase (by omega) (by norm_num)
    exact absurd (hpast.trans_lt hproduct) (by decide)

end NumberPuzzles.ConcatenatedProduct
