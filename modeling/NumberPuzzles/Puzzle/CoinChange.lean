import NumberPuzzles.Progression
import NumberPuzzles.Word

/-!
# Ways to make an amount from coins

A table holds, for each amount up to the target, in how many ways the coins so
far make it.  A further coin adds to each amount the ways of the amount without
it, in ascending order, so the coin may be used any number of times.
-/

namespace NumberPuzzles.CoinChange

/-- Adds the ways that use a coin, over so many amounts from a given one on. -/
def addCoin (coin : Nat) : (amount amounts : Nat) → Array Nat → Checked (Array Nat)
  | _, 0, ways => .ok ways
  | amount, amounts + 1, ways =>
      if inside : amount < ways.size then
        match Checked.entry ways (amount - coin) with
        | .error fault => .error fault
        | .ok more =>
            if ways[amount] + more < word then
              addCoin coin (amount + 1) amounts (ways.set amount (ways[amount] + more) inside)
            else .error .add
      else .error .outOfRange

/-- In how many ways coins make a target, the order of the coins left aside. -/
def combinations (target : Nat) (coins : List Nat) : Checked Nat := do
  let size ← Checked.add word target 1
  let empty ← Checked.table 8 size 0
  let ways ← coins.foldlM (fun ways coin => addCoin coin coin (size - coin) ways)
    (empty.setIfInBounds 0 1)
  Checked.entry ways target

def pence : List Nat := [1, 2, 5, 10, 20, 50, 100, 200]

end NumberPuzzles.CoinChange
