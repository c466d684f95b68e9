import Mathlib.Data.List.Perm.Subperm
import NumberPuzzles.Proofs.Checked
import NumberPuzzles.Proofs.Text.Encoding
import NumberPuzzles.Proofs.Text.Numeral

/-!
# Texts that use each digit once

The test goes through a text and refuses what is no digit, a digit outside the bounds and one
that it has seen before.  The text is as long as the range of digits, so none can be missing:
the accepted texts are the rearrangements of the digits from the first to the last.

On the bytes of a text the test keeps a table of ten marks.  No step of it can fail: the width
of the range is computed only when the bounds are in order and at most nine, and a mark is
looked up only for a digit between them.
-/

namespace NumberPuzzles.Text

variable {first last : Nat} {text : List Char}

def digitRange (first last : Nat) : List Char :=
  (List.range' first (last + 1 - first)).map Nat.digitChar

theorem le_nine_of_mem_range {digit : Nat} (hlast : last ≤ 9)
    (hdigit : digit ∈ List.range' first (last + 1 - first)) : digit ≤ 9 := by
  rw [List.mem_range'_1] at hdigit
  omega

theorem map_figureValue_digitRange (hlast : last ≤ 9) :
    (digitRange first last).map figureValue = List.range' first (last + 1 - first) :=
  map_figureValue_digitChars fun _ => le_nine_of_mem_range hlast

theorem freshDigits_cons (letter : Char) (letters : List Char) (seen : List Nat) :
    freshDigits first last (letter :: letters) seen =
      (letter.isDigit && decide (first ≤ figureValue letter ∧ figureValue letter ≤ last) &&
        !seen.contains (figureValue letter) &&
        freshDigits first last letters (figureValue letter :: seen)) := rfl

/-- The test of the letters, with the digits seen before them. -/
theorem freshDigits_iff {seen : List Nat} :
    freshDigits first last text seen = true ↔
      (∀ letter ∈ text, letter.isDigit = true ∧
        (first ≤ figureValue letter ∧ figureValue letter ≤ last) ∧ figureValue letter ∉ seen) ∧
      (text.map figureValue).Nodup := by
  induction text generalizing seen with
  | nil => simp [freshDigits]
  | cons letter letters ih =>
      rw [freshDigits_cons]
      -- A later letter is fresh when it differs from the first one and from those before it.
      simp only [Bool.and_eq_true, decide_eq_true_eq, Bool.not_eq_true', ih, List.mem_cons,
        List.contains_eq_mem, decide_eq_false_iff_not, forall_eq_or_imp, List.map_cons,
        List.nodup_cons, List.mem_map]
      grind

/-- The accepted texts are the rearrangements of the digits between the bounds. -/
theorem isPandigital_iff :
    isPandigital text first last = true ↔
      first ≤ last ∧ last ≤ 9 ∧ text.Perm (digitRange first last) := by
  rw [isPandigital, Bool.and_eq_true, Bool.and_eq_true, decide_eq_true_eq, decide_eq_true_eq,
    freshDigits_iff]
  constructor
  · rintro ⟨⟨⟨hbounds, hlast⟩, hlength⟩, hletters, hnodup⟩
    refine ⟨hbounds, hlast, ?_⟩
    have hsubset : text.map figureValue ⊆ List.range' first (last + 1 - first) := by
      intro digit hdigit
      obtain ⟨letter, hletter, rfl⟩ := List.mem_map.mp hdigit
      obtain ⟨-, hinside, -⟩ := hletters letter hletter
      rw [List.mem_range'_1]
      omega
    -- As many different digits as the range has are all of the range.
    have hall : (text.map figureValue).Perm (List.range' first (last + 1 - first)) := by
      refine (List.subperm_of_subset hnodup hsubset).perm_of_length_le ?_
      rw [List.length_range', List.length_map]
      omega
    rw [← map_digitChar_figureValue fun letter hletter => (hletters letter hletter).1]
    exact hall.map Nat.digitChar
  · rintro ⟨hbounds, hlast, hperm⟩
    have hvalues := hperm.map figureValue
    rw [map_figureValue_digitRange hlast] at hvalues
    refine ⟨⟨⟨hbounds, hlast⟩, ?_⟩, ?_, ?_⟩
    · rw [hperm.length_eq, digitRange, List.length_map, List.length_range']
      omega
    · intro letter hletter
      obtain ⟨digit, hdigit, rfl⟩ := List.mem_map.mp (hperm.mem_iff.mp hletter)
      rw [List.mem_range'_1] at hdigit
      obtain ⟨hisDigit, hvalue⟩ := isDigit_digitChar (show digit ≤ 9 by omega)
      rw [hvalue]
      exact ⟨hisDigit, by omega, by simp⟩
    · exact hvalues.nodup_iff.mpr List.nodup_range'

theorem length_of_isPandigital (hpandigital : isPandigital text first last = true) :
    text.length = last + 1 - first := by
  rw [(isPandigital_iff.mp hpandigital).2.2.length_eq, digitRange, List.length_map,
    List.length_range']

theorem isDigit_of_isPandigital (hpandigital : isPandigital text first last = true) :
    ∀ letter ∈ text, letter.isDigit = true := by
  intro letter hletter
  obtain ⟨-, hlast, hperm⟩ := isPandigital_iff.mp hpandigital
  exact isDigit_of_mem_digitChars (fun _ => le_nine_of_mem_range hlast)
    (hperm.mem_iff.mp hletter)

/-- Rearranging a text does not change the answer of the test. -/
theorem isPandigital_congr {other : List Char} (hperm : text.Perm other) :
    isPandigital text first last = isPandigital other first last := by
  rw [Bool.eq_iff_iff, isPandigital_iff, isPandigital_iff]
  refine and_congr_right fun _ => and_congr_right fun _ => ?_
  exact ⟨hperm.symm.trans, hperm.trans⟩

/-! ## The test on bytes -/

theorem marksFresh_refused {byte : UInt8}
    (hbyte : byte.toNat < '0'.toNat ∨ '9'.toNat < byte.toNat) (bytes : List UInt8)
    (marks : Array Bool) : marksFresh first last (byte :: bytes) marks = .ok false := by
  rw [marksFresh, if_pos hbyte]
  rfl

/-- At the byte of a digit, the walk goes on with one more mark or ends. -/
theorem marksFresh_digit {letter : Char} (hdigit : letter.isDigit = true) {byte : UInt8}
    (hbyte : byte.toNat = letter.toNat) {seen : List Nat} {marks : Array Bool}
    (hmarks : Checked.Tabulates 10 (fun digit => decide (digit ∈ seen)) marks)
    (bytes : List UInt8) :
    ∃ after, Checked.Tabulates 10 (fun digit => decide (digit ∈ figureValue letter :: seen)) after ∧
      marksFresh first last (byte :: bytes) marks =
        if (first ≤ figureValue letter ∧ figureValue letter ≤ last) ∧ figureValue letter ∉ seen then
          marksFresh first last bytes after
        else .ok false := by
  obtain ⟨hleast, hgreatest⟩ := isDigit_iff.mp hdigit
  have hfigure : figureValue letter < 10 := Nat.lt_succ_of_le (figureValue_le hdigit)
  have hinside : figureValue letter < marks.size := by rwa [hmarks.size_eq]
  have hmarked : Checked.Tabulates 10 (fun digit => decide (digit ∈ figureValue letter :: seen))
      (marks.set (figureValue letter) true hinside) := by
    have hother : ∀ other, other ≠ figureValue letter →
        decide (other ∈ figureValue letter :: seen) = decide (other ∈ seen) := by
      intro other hne
      simp [hne]
    simpa using hmarks.set hinside hother
  refine ⟨_, hmarked, ?_⟩
  have hdigitByte : ¬ (byte.toNat < '0'.toNat ∨ '9'.toNat < byte.toNat) := by
    rw [hbyte]
    exact not_or.mpr ⟨Nat.not_lt.mpr hleast, Nat.not_lt.mpr hgreatest⟩
  have hvalue : Checked.sub byte.toNat '0'.toNat = .ok (figureValue letter) := by
    rw [hbyte]
    exact if_pos hleast
  have hwrite : Checked.write marks (figureValue letter) true =
      .ok (marks.set (figureValue letter) true hinside) := dif_pos hinside
  rw [marksFresh, if_neg hdigitByte, Checked.bind_of_ok hvalue]
  by_cases hbounds : first ≤ figureValue letter ∧ figureValue letter ≤ last
  · rw [if_neg (by omega), Checked.bind_of_ok (hmarks.read hfigure)]
    by_cases hseen : figureValue letter ∈ seen
    · rw [if_pos (decide_eq_true hseen), if_neg (fun hfresh => hfresh.2 hseen)]
      rfl
    · rw [if_neg (by simpa using hseen), Checked.bind_of_ok hwrite, if_pos ⟨hbounds, hseen⟩]
  · rw [if_pos (by omega), if_neg (fun hfresh => hbounds hfresh.1)]
    rfl

/-- The first byte of a character that is no digit is the byte of no digit. -/
theorem exists_head_of_not_isDigit {letter : Char} (hdigit : ¬ letter.isDigit = true) :
    ∃ byte bytes, String.utf8EncodeChar letter = byte :: bytes ∧
      (byte.toNat < '0'.toNat ∨ '9'.toNat < byte.toNat) := by
  by_cases hascii : letter.toNat ≤ 127
  · have hrange := mt isDigit_iff.mpr hdigit
    refine ⟨letter.val.toUInt8, [], ?_, ?_⟩
    · exact String.utf8EncodeChar_eq_singleton (Char.utf8Size_eq_one_iff.mpr hascii)
    · rw [toNat_toUInt8 hascii]
      change letter.toNat < 48 ∨ 57 < letter.toNat
      omega
  · obtain ⟨byte, bytes, hbytes⟩ :=
      List.exists_cons_of_ne_nil (String.utf8EncodeChar_ne_nil (c := letter))
    have hlarge : 128 ≤ byte.toNat :=
      le_of_mem_utf8EncodeChar (not_le.mp hascii) (hbytes ▸ List.mem_cons_self)
    refine ⟨byte, bytes, hbytes, .inr ?_⟩
    change 57 < byte.toNat
    omega

/-- With the table of the digits seen before, the walk over the bytes of a text answers as the
test of its letters. -/
theorem marksFresh_run {seen : List Nat} {marks : Array Bool}
    (hmarks : Checked.Tabulates 10 (fun digit => decide (digit ∈ seen)) marks) :
    marksFresh first last (text.flatMap String.utf8EncodeChar) marks =
      .ok (freshDigits first last text seen) := by
  induction text generalizing seen marks with
  | nil => rfl
  | cons letter letters ih =>
      rw [List.flatMap_cons, freshDigits_cons]
      by_cases hdigit : letter.isDigit = true
      · have hascii : letter.toNat ≤ 127 := (isDigit_iff.mp hdigit).2.trans (by decide)
        obtain ⟨after, hafter, hstep⟩ := marksFresh_digit hdigit (toNat_toUInt8 hascii) hmarks
          (letters.flatMap String.utf8EncodeChar)
        rw [String.utf8EncodeChar_eq_singleton (utf8Size_of_isDigit hdigit),
          List.singleton_append, hstep, ih hafter, hdigit, Bool.true_and]
        split
        next hfresh => simp [hfresh]
        next hstale =>
          have hends : (decide (first ≤ figureValue letter ∧ figureValue letter ≤ last) &&
              !seen.contains (figureValue letter)) = false := by
            simpa using hstale
          rw [hends, Bool.false_and]
      · obtain ⟨byte, bytes, hbytes, hrefused⟩ := exists_head_of_not_isDigit hdigit
        rw [hbytes, List.cons_append, marksFresh_refused hrefused]
        simp [hdigit]

theorem utf8ByteSize_of_freshDigits {text : String} {seen : List Nat}
    (hfresh : freshDigits first last text.toList seen = true) :
    text.utf8ByteSize = text.toList.length := by
  have hascii : ∀ letter ∈ text.toList, letter.val ≤ 127 := by
    intro letter hletter
    exact (isDigit_iff.mp ((freshDigits_iff.mp hfresh).1 letter hletter).1).2.trans (by decide)
  rw [← length_toUTF8, toList_toUTF8_of_le hascii, List.length_map]

theorem isPandigital_eq (text : String) :
    isPandigital text.toList first last =
      (decide (first ≤ last ∧ last ≤ 9) && decide (text.utf8ByteSize = last - first + 1) &&
        freshDigits first last text.toList []) := by
  rw [isPandigital]
  cases hfresh : freshDigits first last text.toList [] with
  | false => rw [Bool.and_false, Bool.and_false]
  | true => rw [utf8ByteSize_of_freshDigits hfresh]

/-- No step on the bytes of a text fails, and the answer is that of the test of its letters. -/
@[simp]
theorem isPandigitalText_eq (text : String) :
    isPandigitalText text first last = .ok (isPandigital text.toList first last) := by
  rw [isPandigitalText, isPandigital_eq]
  by_cases hbounds : first ≤ last ∧ last ≤ 9
  · have hsub : Checked.sub last first = .ok (last - first) := if_pos hbounds.1
    have hwidth : Checked.add 256 (last - first) 1 = .ok (last - first + 1) :=
      if_pos (by omega)
    have hmarks : Checked.Tabulates 10 (fun digit => decide (digit ∈ ([] : List Nat)))
        (Array.replicate 10 false) :=
      ⟨Array.size_replicate, fun position hposition => by simp [hposition]⟩
    rw [if_neg (by omega), Checked.bind_of_ok hsub, Checked.bind_of_ok hwidth, decide_eq_true hbounds,
      Bool.true_and]
    by_cases hsize : text.utf8ByteSize = last - first + 1
    · rw [if_neg (not_not.mpr hsize), toList_toUTF8, marksFresh_run hmarks, decide_eq_true hsize,
        Bool.true_and]
    · rw [if_pos hsize, decide_eq_false hsize, Bool.false_and]
      rfl
  · rw [if_pos (by omega), decide_eq_false hbounds]
    rfl

/-- The numbers whose decimal forms are accepted have the digits between the bounds. -/
theorem isPandigitalText_decimalString_iff {number : Nat} :
    isPandigitalText (decimalString number) first last = .ok true ↔
      first ≤ last ∧ last ≤ 9 ∧ (digits number).Perm (List.range' first (last + 1 - first)) := by
  rw [isPandigitalText_eq, Except.ok.injEq, decimalString, String.toList_ofList, isPandigital_iff]
  refine and_congr_right fun _ => and_congr_right fun hlast => ?_
  constructor
  · intro hperm
    have hvalues := hperm.map figureValue
    rwa [map_figureValue_decimal, map_figureValue_digitRange hlast] at hvalues
  · intro hperm
    exact hperm.map Nat.digitChar

theorem nodup_digitRange (hlast : last ≤ 9) : (digitRange first last).Nodup :=
  List.Nodup.of_map figureValue (by
    rw [map_figureValue_digitRange hlast]
    exact List.nodup_range')

/-- For every text and all bounds of one byte, the test of the bytes ends without a fault and
agrees with the test of the letters.  It accepts the text exactly when the bounds are in order and
at most nine and the text is a rearrangement of the digits between them; each of them then occurs
once, and nothing else. -/
theorem accepts_rearranged_digits (text : String) (first last : UInt8) :
    ∃ answer, isPandigitalText text first.toNat last.toNat = .ok answer ∧
      answer = isPandigital text.toList first.toNat last.toNat ∧
      (answer = true ↔ first ≤ last ∧ last ≤ 9 ∧
        text.toList.Perm (digitRange first.toNat last.toNat)) ∧
      (answer = true → ∀ letter, text.toList.count letter =
        if letter ∈ digitRange first.toNat last.toNat then 1 else 0) := by
  refine ⟨_, isPandigitalText_eq text, rfl, isPandigital_iff, ?_⟩
  intro haccepted letter
  obtain ⟨-, hlast, hperm⟩ := isPandigital_iff.mp haccepted
  rw [hperm.count_eq, (nodup_digitRange hlast).count]

end NumberPuzzles.Text
