import NumberPuzzles.Fixture.Error
import NumberPuzzles.Text.Lines
import NumberPuzzles.Word

/-!
# Number triangles

Each row has one entry more than the one above it, and the first row has one.
The reader passes over blank lines, but counts them when it names a line.
-/

namespace NumberPuzzles

/-- The rows have one entry more each, the first of them one more than `height`. -/
def Widening : (height : Nat) → (rows : List (List Nat)) → Prop
  | _, [] => True
  | height, row :: rows => row.length = height + 1 ∧ Widening (height + 1) rows

/-- Rows of numbers in the shape of a triangle. -/
structure Triangle where
  rows : List (List Nat)
  widening : Widening 0 rows

namespace Triangle

def height (triangle : Triangle) : Nat := triangle.rows.length

/-- Reads the cells of a line; the first one that is no number is reported. -/
def readCells (line : Nat) : List (List Char) → Except LineError (List Nat)
  | [] => .ok []
  | cell :: cells =>
      match Text.readWord cell with
      | .error reason => .error ⟨line, .badCell cell reason⟩
      | .ok value => do return value :: (← readCells line cells)

/-- Reads the rows below so many others.  On one line, a cell that is no number is
reported before a wrong number of cells. -/
def readRows : (height : Nat) → List (Nat × List Char) →
    Except LineError { rows : List (List Nat) // Widening height rows }
  | _, [] => .ok ⟨[], trivial⟩
  | height, (line, text) :: rest =>
      if (Text.trim text).isEmpty then readRows height rest
      else
        match readCells line (Text.cells text) with
        | .error error => .error error
        | .ok row =>
            if fits : row.length = height + 1 then
              match readRows (height + 1) rest with
              | .error error => .error error
              | .ok ⟨rows, widening⟩ => .ok ⟨row :: rows, fits, widening⟩
            else .error ⟨line, .rowLength (height + 1) row.length⟩

def read (text : List Char) : Except LineError Triangle := do
  let ⟨rows, widening⟩ ← readRows 0 (Text.numberedLines text)
  return ⟨rows, widening⟩

end Triangle

end NumberPuzzles
