import NumberPuzzles.Memo.Recursion
import NumberPuzzles.Word

/-!
# Sample functions for the memo

Small functions that show what a memo keeps: pure ones, ones whose value tells
how often they have been entered, ones that refuse some inputs or some entries,
and recursive ones, among them one that asks for the input it is evaluating.
-/

namespace NumberPuzzles.Memo.Sample

/-- A failure of a sample function: a fault, or a reason of its own. -/
inductive Failure where
  | fault (fault : Fault)
  | refused (reason : String)
  deriving DecidableEq, Repr

/-- The value of an input that tells apart the entries it was computed at. -/
def stamp (entries input : Nat) : Checked Nat := do
  Checked.add word input (← Checked.mul word 1000 entries)

def square (_entries input : Nat) : Checked Nat := Checked.mul word input input

/-- A text with the number of the entry behind it. -/
def stampText (entries : Nat) (input : String) : Checked String :=
  .ok s!"{input}#{entries}"

def halve (_entries input : Nat) : Except Failure Nat :=
  if input % 2 = 0 then .ok (input / 2) else .error (.refused s!"{input} is odd")

/-- Refuses the first entries, as many as told, and stamps the input from then on. -/
def flaky (refusals entries input : Nat) : Except Failure Nat :=
  if entries ≤ refusals then .error (.refused s!"call {entries} failed")
  else (stamp entries input).mapError .fault

/-- A script of words that asks for words, over the number of entries. -/
abbrev WordScript := Script Nat Nat Nat Fault

def fibonacci (_entries input : Nat) : WordScript Nat := do
  if input < 2 then return input
  let previous ← Script.self (input - 1)
  let beforeThat ← Script.self (input - 2)
  Checked.add word previous beforeThat

def sum (_entries input : Nat) : WordScript Nat := do
  if input = 0 then return 0
  let rest ← Script.self (input - 1)
  Checked.add word input rest

/-- Asks for its own input until it has been entered as often as told. -/
def reenter (limit entries input : Nat) : WordScript Nat := do
  if limit ≤ entries then return ← Checked.add word input entries
  let value ← Script.self input
  let scaled ← Checked.mul word 10 value
  Checked.add word scaled entries

end NumberPuzzles.Memo.Sample
