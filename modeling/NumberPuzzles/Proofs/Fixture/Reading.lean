import NumberPuzzles.Fixture.Reading
import NumberPuzzles.Proofs.Traversal

/-!
# Readable fixtures

What is found at a path is the text of a fixture when its bytes have room in memory and encode
one.  So a text that was read is held in memory, and a fixture in some form fails, once it was
read, only for its form.
-/

namespace NumberPuzzles.Fixtures

variable {fixtures : Fixtures} {name text : String}

theorem fromUTF8?_toUTF8 (text : String) : String.fromUTF8? text.toUTF8 = some text := by
  rw [String.fromUTF8?, String.toUTF8_eq_toByteArray, dif_pos text.isValidUTF8]
  rfl

theorem held_eq_ok_iff {bytes kept : ByteArray} :
    held bytes = .ok kept ↔ bytes = kept ∧ bytes.size < addressBytes := by
  by_cases hroom : bytes.size < addressBytes <;> simp [held, hroom]

theorem decoded_eq_ok_iff {bytes : ByteArray} :
    decoded bytes = .ok text ↔ String.fromUTF8? bytes = some text := by
  cases hdecoded : String.fromUTF8? bytes <;> simp [decoded, hdecoded]

/-- A text is read from bytes that are found, have room in memory, and encode it. -/
theorem read_eq_ok_iff : fixtures.read name = .ok text ↔
    ∃ bytes, fixtures.bytesAt (fixtures.path name) = .ok bytes ∧ bytes.size < addressBytes ∧
      String.fromUTF8? bytes = some text := by
  simp only [read, mapError_eq_ok_iff, bind_eq_ok_iff, held_eq_ok_iff, decoded_eq_ok_iff,
    and_assoc, exists_eq_left']

theorem read_of_text (hbytes : fixtures.bytesAt (fixtures.path name) = .ok text.toUTF8)
    (hheld : text.utf8ByteSize < addressBytes) : fixtures.read name = .ok text :=
  read_eq_ok_iff.mpr ⟨text.toUTF8, hbytes, hheld, fromUTF8?_toUTF8 text⟩

/-- A text that was read is held in memory. -/
theorem utf8ByteSize_of_read (hread : fixtures.read name = .ok text) :
    text.utf8ByteSize < addressBytes := by
  obtain ⟨bytes, -, hroom, htext⟩ := read_eq_ok_iff.mp hread
  rw [String.fromUTF8?] at htext
  split at htext
  · cases htext
    exact hroom
  · cases htext

/-- A fixture that was read fails only for its form. -/
theorem readAs_eq {α : Type} (hread : fixtures.read name = .ok text)
    (form : List Char → Except LineError α) :
    fixtures.readAs name form =
      (form text.toList).mapError (.malformed (fixtures.path name)) := by
  rw [readAs, hread]
  rfl

theorem readAs_eq_ok_iff {α : Type} {form : List Char → Except LineError α} {result : α}
    (hread : fixtures.read name = .ok text) :
    fixtures.readAs name form = .ok result ↔ form text.toList = .ok result := by
  rw [readAs_eq hread, mapError_eq_ok_iff]

theorem readAs_eq_error_iff {α : Type} {form : List Char → Except LineError α}
    {error : FixtureError} (hread : fixtures.read name = .ok text) :
    fixtures.readAs name form = .error error ↔
      ∃ reported, form text.toList = .error reported ∧
        error = .malformed (fixtures.path name) reported := by
  rw [readAs_eq hread, mapError_eq_error_iff]

theorem exists_text_of_readAs {α : Type} {form : List Char → Except LineError α} {result : α}
    (hresult : fixtures.readAs name form = .ok result) :
    ∃ text, fixtures.read name = .ok text ∧ form text.toList = .ok result := by
  simpa only [readAs, bind_eq_ok_iff, mapError_eq_ok_iff] using hresult

end NumberPuzzles.Fixtures
