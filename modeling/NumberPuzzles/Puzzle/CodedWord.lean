import NumberPuzzles.Sequence.Figurate

/-!
# Words whose value is a triangle number

A letter counts by its place in the alphabet, a word by the sum of its letters.
-/

namespace NumberPuzzles.CodedWord

/-- The place of a byte in the alphabet of capital letters, counted from one. -/
def letterValue (byte : Nat) : Checked Nat := do
  Checked.add 256 (← Checked.sub byte 'A'.toNat) 1

/-- The sum of the places of the bytes of a word. -/
def wordValue (text : String) : Checked Nat :=
  text.toUTF8.toList.foldlM (fun sum byte => do
    Checked.add word sum (← letterValue byte.toNat)) 0

def countTriangleWords (words : List String) : Checked Nat :=
  words.foldlM (fun count text => do
    return if ← isTriangleNumber (← wordValue text) then count + 1 else count) 0

end NumberPuzzles.CodedWord
