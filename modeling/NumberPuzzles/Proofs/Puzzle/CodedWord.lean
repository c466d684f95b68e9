import Mathlib.Algebra.Order.BigOperators.Group.List
import NumberPuzzles.Catalogue
import NumberPuzzles.Proofs.Checked
import NumberPuzzles.Proofs.Fixture.Words
import NumberPuzzles.Proofs.Sequence.Figurate
import NumberPuzzles.Proofs.Text.Encoding

/-!
# Words whose value is a triangle number always have one

A byte has a place in the alphabet exactly when it is not below the letter A, and no text
that is held in memory has places enough to leave the machine words.  The words that a
fixture is read as have capital letters only, so each of them has a value, the test for
triangle numbers answers for it, and the count fails for no fixture at all.
-/

namespace NumberPuzzles.CodedWord

/-! ## Letters -/

theorem letterValue_eq {byte : Nat} (hletter : 'A'.toNat ≤ byte) (hbyte : byte < 256) :
    letterValue byte = .ok (byte - 'A'.toNat + 1) := by
  have hplace : byte - 'A'.toNat + 1 < 256 := by
    have : 1 ≤ 'A'.toNat := by decide
    omega
  rw [letterValue, Checked.sub, if_pos hletter]
  exact if_pos hplace

theorem letterValue_below {byte : Nat} (hbelow : byte < 'A'.toNat) :
    letterValue byte = .error .subtract := by
  rw [letterValue, Checked.sub, if_neg (Nat.not_le.mpr hbelow)]
  rfl

def addLetter (sum : Nat) (byte : UInt8) : Checked Nat := do
  Checked.add word sum (← letterValue byte.toNat)

theorem wordValue_eq_foldlM (text : String) :
    wordValue text = text.toUTF8.toList.foldlM addLetter 0 := rfl

def nextSum (sum : Nat) (byte : UInt8) : Nat := sum + (byte.toNat - 'A'.toNat + 1)

theorem addLetter_isStep {byte : UInt8} (hletter : 'A'.toNat ≤ byte.toNat) :
    Checked.IsStep word addLetter nextSum byte where
  below sum hbelow := by
    rw [addLetter, letterValue_eq hletter byte.toNat_lt]
    exact if_pos hbelow
  past sum hpast := by
    rw [addLetter, letterValue_eq hletter byte.toNat_lt]
    exact ⟨.add, if_neg (Nat.not_lt.mpr hpast)⟩
  grows sum := Nat.le_add_right _ _

theorem addLetter_below {sum : Nat} {byte : UInt8} (hbelow : byte.toNat < 'A'.toNat) :
    addLetter sum byte = .error .subtract := by
  rw [addLetter, letterValue_below hbelow]
  rfl

/-! ## Words -/

/-- The sum of the places of bytes that are not below the letter A. -/
def places (bytes : List UInt8) : Nat :=
  (bytes.map fun byte => byte.toNat - 'A'.toNat + 1).sum

@[simp]
theorem places_cons (byte : UInt8) (bytes : List UInt8) :
    places (byte :: bytes) = byte.toNat - 'A'.toNat + 1 + places bytes := by
  rw [places, List.map_cons, List.sum_cons, places]

theorem foldl_nextSum (sum : Nat) (bytes : List UInt8) :
    bytes.foldl nextSum sum = sum + places bytes := by
  induction bytes generalizing sum with
  | nil => rfl
  | cons byte bytes ih =>
      rw [List.foldl_cons, ih, nextSum, places_cons, Nat.add_assoc]

@[simp]
theorem foldl_nextSum_zero (bytes : List UInt8) : bytes.foldl nextSum 0 = places bytes := by
  rw [foldl_nextSum, Nat.zero_add]

/-- Fewer bytes than addresses do not leave the machine words. -/
theorem places_lt {bytes : List UInt8} (hheld : bytes.length < addressBytes) :
    places bytes < word := by
  have hplace : ∀ place ∈ bytes.map fun byte => byte.toNat - 'A'.toNat + 1, place ≤ 256 := by
    intro place hplace
    obtain ⟨byte, -, rfl⟩ := List.mem_map.mp hplace
    exact Nat.lt_of_le_of_lt (Nat.sub_le _ _) byte.toNat_lt
  have hsum : places bytes ≤ bytes.length * 256 := by
    have hmap := List.sum_le_card_nsmul _ 256 hplace
    rwa [List.length_map, nsmul_eq_mul] at hmap
  have hlimit : addressBytes * 256 = word := by decide
  omega

/-- A byte below the letter A stops the sum, if nothing in front of it has. -/
theorem foldlM_addLetter_below {bytes : List UInt8} {below : UInt8} (hmember : below ∈ bytes)
    (hbelow : below.toNat < 'A'.toNat) (sum : Nat) :
    ∃ fault, bytes.foldlM addLetter sum = .error fault := by
  induction bytes generalizing sum with
  | nil => cases hmember
  | cons byte bytes ih =>
      rw [List.foldlM_cons]
      cases hbyte : addLetter sum byte with
      | error fault => exact ⟨fault, rfl⟩
      | ok next =>
          -- A byte that was added is not the one below the letter A.
          rcases List.mem_cons.mp hmember with rfl | hmember
          · rw [addLetter_below hbelow] at hbyte
            cases hbyte
          · exact ih hmember next

theorem wordValue_eq {text : String}
    (hletters : ∀ byte ∈ text.toUTF8.toList, 'A'.toNat ≤ byte.toNat)
    (hword : places text.toUTF8.toList < word) :
    wordValue text = .ok (places text.toUTF8.toList) := by
  rw [wordValue_eq_foldlM]
  rw [← foldl_nextSum_zero] at hword ⊢
  exact Checked.foldlM_eq (fun byte hbyte => addLetter_isStep (hletters byte hbyte)) hword

/-- A text has a value unless some byte of it is below the letter A or the places are too
many for a machine word. -/
theorem wordValue_fails_iff (text : String) :
    (∃ fault, wordValue text = .error fault) ↔
      (∃ byte ∈ text.toUTF8.toList, byte.toNat < 'A'.toNat) ∨
        word ≤ places text.toUTF8.toList := by
  rw [wordValue_eq_foldlM]
  by_cases hbelow : ∃ byte ∈ text.toUTF8.toList, byte.toNat < 'A'.toNat
  · obtain ⟨byte, hbyte, hsmall⟩ := hbelow
    exact iff_of_true (foldlM_addLetter_below hbyte hsmall 0) (.inl ⟨byte, hbyte, hsmall⟩)
  · have hletters : ∀ byte ∈ text.toUTF8.toList, 'A'.toNat ≤ byte.toNat := by
      intro byte hbyte
      exact Nat.not_lt.mp fun hsmall => hbelow ⟨byte, hbyte, hsmall⟩
    rw [or_iff_right hbelow, ← foldl_nextSum_zero]
    exact Checked.foldlM_fails_iff (fun byte hbyte => addLetter_isStep (hletters byte hbyte))
      (by decide)

/-- The bytes of a text in memory do not leave the machine words. -/
theorem places_toUTF8_lt {text : String} (hheld : text.utf8ByteSize < addressBytes) :
    places text.toUTF8.toList < word :=
  places_lt (by rwa [Text.length_toUTF8])

/-! ## Words of capital letters -/

/-- The bytes of capital letters are their numbers. -/
theorem map_toNat_toUTF8 {text : String} (hcapital : ∀ letter ∈ text.toList, IsCapital letter) :
    text.toUTF8.toList.map UInt8.toNat = text.toList.map Char.toNat := by
  have hascii : ∀ letter ∈ text.toList, letter.val ≤ 127 := by
    intro letter hletter
    exact UInt32.le_trans (hcapital letter hletter).2 (by decide)
  rw [Text.toList_toUTF8_of_le hascii, List.map_map]
  refine List.map_congr_left ?_
  intro letter hletter
  exact Text.toNat_toUInt8 (hascii letter hletter)

theorem le_toNat_of_capital {text : String}
    (hcapital : ∀ letter ∈ text.toList, IsCapital letter) :
    ∀ byte ∈ text.toUTF8.toList, 'A'.toNat ≤ byte.toNat := by
  intro byte hbyte
  have hnumber : byte.toNat ∈ text.toList.map Char.toNat :=
    map_toNat_toUTF8 hcapital ▸ List.mem_map_of_mem hbyte
  obtain ⟨letter, hletter, hequal⟩ := List.mem_map.mp hnumber
  rw [← hequal]
  exact (hcapital letter hletter).1

theorem places_of_capital {text : String}
    (hcapital : ∀ letter ∈ text.toList, IsCapital letter) :
    places text.toUTF8.toList =
      (text.toList.map fun letter => letter.toNat - 'A'.toNat + 1).sum := by
  have hmap := congrArg (List.map fun number => number - 'A'.toNat + 1) (map_toNat_toUTF8 hcapital)
  rw [List.map_map, List.map_map] at hmap
  exact congrArg List.sum hmap

theorem wordValue_of_capital {text : String}
    (hcapital : ∀ letter ∈ text.toList, IsCapital letter)
    (hheld : text.utf8ByteSize < addressBytes) :
    wordValue text =
      .ok (text.toList.map fun letter => letter.toNat - 'A'.toNat + 1).sum := by
  rw [wordValue_eq (le_toNat_of_capital hcapital) (places_toUTF8_lt hheld),
    places_of_capital hcapital]

/-! ## The count -/

def HasTriangleValue (text : String) : Prop :=
  ∃ value, wordValue text = .ok value ∧ IsTriangle value

theorem hasTriangleValue_iff {text : String} {value : Nat} (hvalue : wordValue text = .ok value) :
    HasTriangleValue text ↔ IsTriangle value := by
  constructor
  · rintro ⟨other, hother, htriangle⟩
    cases hvalue.symm.trans hother
    exact htriangle
  · intro htriangle
    exact ⟨value, hvalue, htriangle⟩

instance : DecidablePred HasTriangleValue := fun text =>
  match hvalue : wordValue text with
  | .ok _ => decidable_of_iff _ (hasTriangleValue_iff hvalue).symm
  | .error _ => isFalse fun ⟨_, hother, _⟩ => by cases hvalue.symm.trans hother

def countWord (count : Nat) (text : String) : Checked Nat := do
  return if ← isTriangleNumber (← wordValue text) then count + 1 else count

theorem countWord_eq {text : String} {value : Nat} (hvalue : wordValue text = .ok value)
    (hword : value < word) (count : Nat) :
    countWord count text = .ok (count + if HasTriangleValue text then 1 else 0) := by
  rw [countWord, hvalue]
  change (isTriangleNumber value >>= _) = _
  rw [isTriangleNumber_eq hword]
  simp only [hasTriangleValue_iff hvalue]
  by_cases htriangle : IsTriangle value <;> simp [htriangle, Checked.pure_eq]

theorem foldlM_countWord_eq {words : List String}
    (hvalued : ∀ text ∈ words, ∃ value < word, wordValue text = .ok value) (count : Nat) :
    words.foldlM countWord count = .ok (count + words.countP (HasTriangleValue ·)) := by
  induction words generalizing count with
  | nil => rfl
  | cons text words ih =>
      obtain ⟨⟨value, hword, hvalue⟩, hrest⟩ := List.forall_mem_cons.mp hvalued
      rw [List.foldlM_cons, countWord_eq hvalue hword, List.countP_cons]
      refine (ih hrest _).trans ?_
      simp only [decide_eq_true_eq, Nat.add_assoc, Nat.add_comm]

/-- Words that all have a value are counted. -/
theorem countTriangleWords_eq {words : List String}
    (hvalued : ∀ text ∈ words, ∃ value < word, wordValue text = .ok value) :
    countTriangleWords words = .ok (words.countP (HasTriangleValue ·)) := by
  have hcount := foldlM_countWord_eq hvalued 0
  rwa [Nat.zero_add] at hcount

/-! ## The words of a fixture -/

variable {fixtures : Fixtures} {name : String} {words : List String}

/-- A piece between the commas of a text is no longer than the text. -/
theorem length_le_of_mem_allPieces {text piece : List Char}
    (hpiece : piece ∈ allPieces (Text.lines text)) : piece.length ≤ text.length := by
  obtain ⟨line, hline, hpiece⟩ := List.mem_flatMap.mp hpiece
  obtain ⟨cut, hcut, rfl⟩ := List.mem_map.mp (List.mem_of_mem_filter hpiece)
  calc (Text.trim cut).length ≤ cut.length := (Text.trim_sublist cut).length_le
    _ ≤ line.length := (Text.pieces_sublist hcut).length_le
    _ ≤ text.length := (Text.lines_sublist hline).length_le

/-- The words of a fixture have capital letters only, and fit into memory with it. -/
theorem capital_of_words (hwords : fixtures.words name = .ok words) :
    ∀ text ∈ words, (∀ letter ∈ text.toList, IsCapital letter) ∧
      text.utf8ByteSize < addressBytes := by
  obtain ⟨content, hread, hform⟩ := Fixtures.exists_text_of_readAs hwords
  intro text htext
  obtain ⟨piece, hpiece, rfl, hcapital⟩ :=
    exists_entry_of_forall₂ (forall₂_of_readWords hform) text htext
  refine ⟨hcapital, ?_⟩
  -- Capital letters have one byte each, so the word is as short in bytes as in letters.
  have hbytes : text.utf8ByteSize = text.toList.length := by
    have hlengths := congrArg List.length (map_toNat_toUTF8 hcapital)
    rwa [List.length_map, List.length_map, Text.length_toUTF8] at hlengths
  have hquoted : text.toList.length ≤ ('"' :: text.toList ++ ['"']).length := by
    simp only [List.cons_append, List.length_cons, List.length_append]
    omega
  calc text.utf8ByteSize = text.toList.length := hbytes
    _ ≤ _ := hquoted
    _ ≤ content.toList.length := length_le_of_mem_allPieces hpiece
    _ ≤ content.utf8ByteSize := Text.length_le_utf8ByteSize content
    _ < addressBytes := Fixtures.utf8ByteSize_of_read hread

theorem countTriangleWords_of_words (hwords : fixtures.words name = .ok words) :
    countTriangleWords words = .ok (words.countP (HasTriangleValue ·)) := by
  refine countTriangleWords_eq ?_
  intro text htext
  obtain ⟨hcapital, hheld⟩ := capital_of_words hwords text htext
  have hword := places_toUTF8_lt hheld
  exact ⟨_, hword, wordValue_eq (le_toNat_of_capital hcapital) hword⟩

/-! ## The problem -/

theorem runProblem_eq (fixtures : Fixtures) :
    runProblem 42 fixtures = (Problem.fromFixture 42 (·.words "words.txt") fun words =>
      Problem.shown Text.decimalString (countTriangleWords words)).solve fixtures := rfl

theorem runProblem_of_error {error : FixtureError}
    (herror : fixtures.words "words.txt" = .error error) :
    runProblem 42 fixtures = .error (.fixture error) := by
  simp only [runProblem_eq, Problem.fromFixture, herror]

theorem runProblem_of_words (hwords : fixtures.words "words.txt" = .ok words) :
    runProblem 42 fixtures =
      .ok (Text.decimalString (words.countP (HasTriangleValue ·))) := by
  simp only [runProblem_eq, Problem.fromFixture, hwords, countTriangleWords_of_words hwords,
    Problem.shown]

/-- Whatever is found in place of the words, the problem has no fault: what does not read as
words is reported, and of words that were read those with a triangle number as their value are
counted.  Every byte of such a word has a place in the alphabet, and its value is the sum of
these places.  Any other text has a value too, unless one of its bytes is below the letter A;
only places that no text in memory has so many of would leave the machine words. -/
theorem counts_triangle_words (fixtures : Fixtures) :
    (∀ fault, runProblem 42 fixtures ≠ .error (.fault fault)) ∧
    (∀ error, fixtures.words "words.txt" = .error error →
      runProblem 42 fixtures = .error (.fixture error)) ∧
    (∀ words, fixtures.words "words.txt" = .ok words →
      runProblem 42 fixtures =
        .ok (Text.decimalString (words.countP (HasTriangleValue ·))) ∧
      ∀ text ∈ words,
        wordValue text =
          .ok (text.toList.map fun letter => letter.toNat - 'A'.toNat + 1).sum ∧
        ∀ byte ∈ text.toUTF8.toList,
          letterValue byte.toNat = .ok (byte.toNat - 'A'.toNat + 1)) ∧
    ∀ text : String,
      ((∃ fault, wordValue text = .error fault) ↔
        (∃ byte ∈ text.toUTF8.toList, byte.toNat < 65) ∨
          word ≤ places text.toUTF8.toList) ∧
      (text.utf8ByteSize < addressBytes →
        ((∃ fault, wordValue text = .error fault) ↔
          ∃ byte ∈ text.toUTF8.toList, byte.toNat < 65)) := by
  refine ⟨?_, ?_, ?_, ?_⟩
  · intro fault hfault
    cases hwords : fixtures.words "words.txt" with
    | error error =>
        rw [runProblem_of_error hwords] at hfault
        cases hfault
    | ok words =>
        rw [runProblem_of_words hwords] at hfault
        cases hfault
  · intro error herror
    exact runProblem_of_error herror
  · intro words hwords
    refine ⟨runProblem_of_words hwords, ?_⟩
    intro text htext
    obtain ⟨hcapital, hheld⟩ := capital_of_words hwords text htext
    refine ⟨wordValue_of_capital hcapital hheld, ?_⟩
    intro byte hbyte
    exact letterValue_eq (le_toNat_of_capital hcapital byte hbyte) byte.toNat_lt
  · intro text
    refine ⟨wordValue_fails_iff text, ?_⟩
    intro hheld
    have hword : ¬ word ≤ places text.toUTF8.toList := Nat.not_le.mpr (places_toUTF8_lt hheld)
    exact (wordValue_fails_iff text).trans (or_iff_left hword)

/-- Of the words SKY and B only the first has a triangle number, 55, as its value; the sign in
front of the letter A has no place. -/
theorem counts_triangle_words_of_sky :
    (Fixtures.mk "d" fun _ => .ok "\"SKY\",\"B\"".toUTF8).words "words.txt" =
        .ok ["SKY", "B"] ∧
      runProblem 42 (Fixtures.mk "d" fun _ => .ok "\"SKY\",\"B\"".toUTF8) = .ok "1" ∧
      "A@".utf8ByteSize < addressBytes ∧ ∃ fault, wordValue "A@" = .error fault := by
  have hread : (Fixtures.mk "d" fun _ => .ok "\"SKY\",\"B\"".toUTF8).read "words.txt" =
      .ok "\"SKY\",\"B\"" := Fixtures.read_of_text rfl (by decide)
  have hwords : (Fixtures.mk "d" fun _ => .ok "\"SKY\",\"B\"".toUTF8).words "words.txt" =
      .ok ["SKY", "B"] := (Fixtures.words_eq_ok_iff hread).mpr (by decide)
  have hheld : "A@".utf8ByteSize < addressBytes := by decide
  have hbelow : ∃ byte ∈ "A@".toUTF8.toList, byte.toNat < 65 := by
    rw [Text.toList_toUTF8]
    decide
  obtain ⟨-, -, hcounts, hfails⟩ :=
    counts_triangle_words (Fixtures.mk "d" fun _ => .ok "\"SKY\",\"B\"".toUTF8)
  obtain ⟨hrun, hvalues⟩ := hcounts _ hwords
  have hsky : HasTriangleValue "SKY" :=
    (hasTriangleValue_iff (hvalues "SKY" (by decide)).1).mpr (by decide +kernel)
  have hother : ¬ HasTriangleValue "B" := by
    rw [hasTriangleValue_iff (hvalues "B" (by decide)).1]
    decide +kernel
  have hcount : ["SKY", "B"].countP (HasTriangleValue ·) = 1 := by simp [hsky, hother]
  have hshown : Text.decimalString 1 = "1" := by decide +kernel
  rw [hcount, hshown] at hrun
  exact ⟨hwords, hrun, hheld, ((hfails "A@").2 hheld).mpr hbelow⟩

end NumberPuzzles.CodedWord
