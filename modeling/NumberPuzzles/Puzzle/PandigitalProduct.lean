import NumberPuzzles.Progression
import NumberPuzzles.Text.Numeral

/-!
# Pandigital products

A product is pandigital when its two factors and itself, written one after the
other, use the digits one to nine once each.  Nine digits leave two shapes: one
by four digits, and two by three, with a product of four digits each time.
-/

namespace NumberPuzzles.PandigitalProduct

/-- The factors and their product use the digits one to nine once each. -/
def isIdentity (left right : Nat) : Checked Bool := do
  let product ← Checked.mul word left right
  return isPandigital (Text.decimal left ++ Text.decimal right ++ Text.decimal product) 1 9

structure Shape where
  small : Progression
  large : Progression
  deriving Repr, DecidableEq

/-- The shapes that nine digits leave. -/
def shapes : List Shape :=
  [⟨Progression.inclusive 1 9, Progression.inclusive 1000 9999⟩,
   ⟨Progression.inclusive 10 99, Progression.inclusive 100 999⟩]

/-- Puts a number into an ascending list, unless it is already there. -/
def insertNew (number : Nat) : List Nat → List Nat
  | [] => [number]
  | first :: rest =>
      if number < first then number :: first :: rest
      else if number = first then first :: rest
      else first :: insertNew number rest

def addShape (products : List Nat) (shape : Shape) : Checked (List Nat) :=
  shape.small.foldM products fun products left =>
    shape.large.foldM products fun products right => do
      if ← isIdentity left right then
        return insertNew (← Checked.mul word left right) products
      else return products

/-- The pandigital products of some shapes, ascending and each once. -/
def products (shapes : List Shape) : Checked (List Nat) := shapes.foldlM addShape []

def answer (shapes : List Shape) : Checked Nat := do Checked.sum word (← products shapes)

end NumberPuzzles.PandigitalProduct
