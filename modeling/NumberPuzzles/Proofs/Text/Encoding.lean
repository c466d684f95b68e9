import Mathlib.Algebra.Order.BigOperators.Group.List

/-!
# The bytes of a text

A text is held as the encodings of its characters, one after the other.  Each takes at
least one byte, so no text has more characters than bytes, and a character below 128 takes
the one byte that is its number.
-/

namespace NumberPuzzles.Text

theorem toList_loop_eq (bytes : ByteArray) (index : Nat) (reversed : List UInt8) :
    ByteArray.toList.loop bytes index reversed =
      reversed.reverse ++ bytes.data.toList.drop index := by
  fun_induction ByteArray.toList.loop bytes index reversed with
  | case1 index reversed hindex ih =>
      have hinside : index < bytes.data.size := hindex
      have hbyte : bytes.get! index = bytes.data[index] := getElem!_pos bytes.data index hinside
      rw [ih, hbyte, List.reverse_cons, List.append_assoc, List.singleton_append,
        ← Array.getElem_toList hinside, List.getElem_cons_drop]
  | case2 index reversed hindex =>
      rw [List.drop_eq_nil_of_le (Nat.not_lt.mp hindex), List.append_nil]

theorem toList_toUTF8_eq_data (text : String) :
    text.toUTF8.toList = text.toUTF8.data.toList := by
  rw [ByteArray.toList, toList_loop_eq, List.drop_zero, List.reverse_nil, List.nil_append]

/-- The bytes of a text are those of its characters. -/
theorem toList_toUTF8 (text : String) :
    text.toUTF8.toList = text.toList.flatMap String.utf8EncodeChar := by
  rw [toList_toUTF8_eq_data, String.toUTF8_eq_toByteArray, ← String.utf8Encode_toList,
    List.utf8Encode, List.toList_data_toByteArray]

theorem length_toUTF8 (text : String) : text.toUTF8.toList.length = text.utf8ByteSize := by
  rw [toList_toUTF8_eq_data, Array.length_toList, String.toUTF8_eq_toByteArray,
    ByteArray.size_data, String.size_toByteArray]

theorem length_le_utf8ByteSize (text : String) : text.toList.length ≤ text.utf8ByteSize := by
  rw [← length_toUTF8, toList_toUTF8, List.length_flatMap]
  have hone : ∀ size ∈ text.toList.map fun letter => (String.utf8EncodeChar letter).length,
      1 ≤ size := by
    intro size hsize
    obtain ⟨letter, -, rfl⟩ := List.mem_map.mp hsize
    exact List.length_pos_of_ne_nil String.utf8EncodeChar_ne_nil
  simpa using List.length_le_sum_of_one_le _ hone

theorem toNat_toUInt8 {letter : Char} (hascii : letter.toNat ≤ 127) :
    letter.val.toUInt8.toNat = letter.toNat := by
  rw [UInt32.toNat_toUInt8]
  exact Nat.mod_eq_of_lt (Nat.lt_of_le_of_lt hascii (by decide))

/-- The bytes of a character that is not below 128 are not below 128 either. -/
theorem le_of_mem_utf8EncodeChar {letter : Char} {byte : UInt8} (hlarge : 127 < letter.toNat)
    (hbyte : byte ∈ String.utf8EncodeChar letter) : 128 ≤ byte.toNat := by
  have hnot : ¬ letter.val.toNat ≤ 127 := Nat.not_le.mpr hlarge
  rw [String.utf8EncodeChar, if_neg hnot] at hbyte
  -- A leading byte is 192 or more, and a byte behind it lies from 128 to 191.
  split_ifs at hbyte
  all_goals
    simp only [List.mem_cons, List.not_mem_nil, or_false] at hbyte
    rcases hbyte with rfl | hbyte
    · rw [UInt8.toNat_ofNat']
      omega
  · rw [hbyte, UInt8.toNat_ofNat']
    omega
  · rcases hbyte with rfl | rfl
    all_goals
      rw [UInt8.toNat_ofNat']
      omega
  · rcases hbyte with rfl | rfl | rfl
    all_goals
      rw [UInt8.toNat_ofNat']
      omega

/-- A text of characters below 128 has one byte for each of them. -/
theorem toList_toUTF8_of_le {text : String}
    (hascii : ∀ letter ∈ text.toList, letter.val ≤ 127) :
    text.toUTF8.toList = text.toList.map fun letter => letter.val.toUInt8 := by
  rw [toList_toUTF8, List.map_eq_flatMap]
  refine List.flatMap_congr ?_
  intro letter hletter
  exact String.utf8EncodeChar_eq_singleton (Char.utf8Size_eq_one_iff.mpr (hascii letter hletter))

end NumberPuzzles.Text
