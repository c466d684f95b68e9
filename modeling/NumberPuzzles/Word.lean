import NumberPuzzles.Fault

/-!
# Checked words

Machine words are natural numbers below a limit.  Each operation here computes
the exact result and compares it with the limit, so a value that is returned is
the exact one; the limit itself is a parameter because the puzzles count in
words of several widths.
-/

namespace NumberPuzzles

def halfWord : Nat := Nat.pow 2 32

/-- The number of 64-bit words. -/
def word : Nat := Nat.pow 2 64

def doubleWord : Nat := Nat.pow 2 128

/-!
## Memory

A computation is taken to have the memory that it asks for: one that has not is ended from
outside, and gives neither an answer nor a fault.  Two requests are refused from inside.  A
table of too many bytes is a fault, found from its size before memory is asked for; and a text
that has no room among all the addresses is a reading that fails.
-/

/-- The number of bytes that one table may not reach. -/
def tableBytes : Nat := Nat.pow 2 63

/-- The number of bytes that a text in memory does not reach, since there are no more
addresses. -/
def addressBytes : Nat := Nat.pow 2 56

namespace Checked

/-- Adds two numbers if the sum is below the limit. -/
@[inline] def add (limit left right : Nat) : Checked Nat :=
  if left + right < limit then .ok (left + right) else .error .add

/-- Subtracts a number that is not the larger one. -/
@[inline] def sub (left right : Nat) : Checked Nat :=
  if right ≤ left then .ok (left - right) else .error .subtract

/-- Multiplies two numbers if the product is below the limit. -/
@[inline] def mul (limit left right : Nat) : Checked Nat :=
  if left * right < limit then .ok (left * right) else .error .multiply

@[inline] def rem (value divisor : Nat) : Checked Nat :=
  if divisor = 0 then .error .remainder else .ok (value % divisor)

@[inline] def entry {α : Type} (table : Array α) (index : Nat) : Checked α :=
  if inside : index < table.size then .ok table[index] else .error .outOfRange

@[inline] def write {α : Type} (table : Array α) (index : Nat) (value : α) :
    Checked (Array α) :=
  if inside : index < table.size then .ok (table.set index value inside)
  else .error .outOfRange

/-- Exchanges the entries at two positions that the table has. -/
@[inline] def swap {α : Type} (table : Array α) (left right : Nat) : Checked (Array α) :=
  if inside : left < table.size ∧ right < table.size then
    .ok (table.swap left right inside.1 inside.2)
  else .error .outOfRange

/-- Turns round the entries from a position on, which is at most the end. -/
@[inline] def reverseFrom {α : Type} (table : Array α) (start : Nat) : Checked (Array α) :=
  if start ≤ table.size then .ok (table.extract 0 start ++ (table.extract start).reverse)
  else .error .outOfRange

/-- A table of so many equal entries, of a given width in bytes, if it is small enough for
a table.  The check comes first, so no table past it is ever made. -/
@[inline] def table {α : Type} (entryBytes size : Nat) (value : α) : Checked (Array α) :=
  if size * entryBytes < tableBytes then .ok (Array.replicate size value)
  else .error .capacity

def sum (limit : Nat) (values : List Nat) : Checked Nat :=
  values.foldlM (add limit) 0

end Checked

/-- A power that is a machine word.  Past exponent 63 only the powers of zero
and one are words, so no larger power is ever formed. -/
def wordPower? (base exponent : Nat) : Option Nat :=
  if exponent = 0 then some 1
  else if base < 2 then some base
  else if 64 ≤ exponent then none
  else if base.pow exponent < word then some (base.pow exponent)
  else none

def signedBound : Int := Int.pow 2 63

/-- A signed integer is a word when it lies between the bounds. -/
@[inline] def IsSignedWord (value : Int) : Prop :=
  -signedBound ≤ value ∧ value < signedBound

instance (value : Int) : Decidable (IsSignedWord value) :=
  inferInstanceAs (Decidable (_ ∧ _))

namespace Signed

/-- Adds two signed words if the sum is one. -/
@[inline] def add (left right : Int) : Checked Int :=
  if IsSignedWord (left + right) then .ok (left + right) else .error .add

/-- Multiplies two signed words if the product is one. -/
@[inline] def mul (left right : Int) : Checked Int :=
  if IsSignedWord (left * right) then .ok (left * right) else .error .multiply

/-- The opposite of a signed word other than the least one. -/
@[inline] def neg (value : Int) : Checked Int :=
  if IsSignedWord (-value) then .ok (-value) else .error .negate

end Signed

end NumberPuzzles
