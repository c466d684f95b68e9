import NumberPuzzles.Text.Unprintable

/-!
# Quoted texts

A text in double quotes, with an escape for each character that could not be
told from its surroundings: the quote and the backslash, the usual control
characters by their letters, and whatever has no glyph of its own by its number.
-/

namespace NumberPuzzles.Text

/-- The escape of one character, or the character itself. -/
def escape (letter : Char) : List Char :=
  match letter with
  | '"' => ['\\', '"']
  | '\\' => ['\\', '\\']
  | '\t' => ['\\', 't']
  | '\r' => ['\\', 'r']
  | '\n' => ['\\', 'n']
  | '\x00' => ['\\', '0']
  | _ =>
      if isUnprintable letter then
        ['\\', 'u', '\x7b'] ++ Nat.toDigits 16 letter.toNat ++ ['\x7d']
      else [letter]

def quoted (text : List Char) : List Char :=
  '"' :: text.flatMap escape ++ ['"']

end NumberPuzzles.Text
