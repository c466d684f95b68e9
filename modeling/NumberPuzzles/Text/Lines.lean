/-!
# Lines, pieces and blanks

Texts are lists of characters.  A text is cut into pieces at every separator; the
lines are its pieces between newlines, and the cells of a line its non-empty
pieces between blanks.
-/

namespace NumberPuzzles.Text

def isBlank (letter : Char) : Bool :=
  let code := letter.toNat
  (0x09 ≤ code && code ≤ 0x0d) || code == 0x20 || code == 0x85 || code == 0xa0 ||
    code == 0x1680 || (0x2000 ≤ code && code ≤ 0x200a) || code == 0x2028 ||
    code == 0x2029 || code == 0x202f || code == 0x205f || code == 0x3000

def trim (text : List Char) : List Char :=
  ((text.dropWhile isBlank).reverse.dropWhile isBlank).reverse

/-- The pieces between separators; there is one more piece than separators. -/
def pieces (isSeparator : Char → Bool) : List Char → List (List Char)
  | [] => [[]]
  | letter :: letters =>
      let rest := pieces isSeparator letters
      if isSeparator letter then [] :: rest
      else (letter :: rest.headD []) :: rest.tail

def dropReturn (piece : List Char) : List Char :=
  if piece.getLast? = some '\r' then piece.dropLast else piece

/-- A piece that a newline ends is a line, less one carriage return before that
newline.  What is behind the last newline is a line only if there is anything. -/
def linesOfPieces : List (List Char) → List (List Char)
  | [] => []
  | [last] => if last.isEmpty then [] else [last]
  | piece :: rest => dropReturn piece :: linesOfPieces rest

def lines (text : List Char) : List (List Char) := linesOfPieces (pieces (· == '\n') text)

def numberedLines (text : List Char) : List (Nat × List Char) :=
  ((lines text).zipIdx 1).map fun (line, number) => (number, line)

def cells (line : List Char) : List (List Char) :=
  (pieces isBlank line).filter fun cell => !cell.isEmpty

end NumberPuzzles.Text
