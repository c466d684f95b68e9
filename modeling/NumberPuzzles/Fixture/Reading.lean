import NumberPuzzles.Fixture.Path
import NumberPuzzles.Fixture.Triangle

/-!
# Reading fixtures

A set of fixtures is a directory together with what is found at each path.  Three
kinds of fixtures are read: one number a line, a triangle of numbers, and quoted
words between commas.  Each reader reports the first line that breaks its form.
-/

namespace NumberPuzzles

/-- A directory of fixtures, and the bytes that are found at a path. -/
structure Fixtures where
  root : String
  bytesAt : String → Except ReadFault ByteArray

section Numbers

variable {ε : Type} (readNumeral : List Char → Except ε Nat) (describe : ε → String)

/-- Reads one number from each line that is not blank, out of what is left of it without the
blanks at its ends.  What is refused is described in the words of the reader. -/
def readNumberLines : List (Nat × List Char) → Except LineError (List Nat)
  | [] => .ok []
  | (line, text) :: rest =>
      let numeral := Text.trim text
      if numeral.isEmpty then readNumberLines rest
      else
        match readNumeral numeral with
        | .error reason => .error ⟨line, .notNumber numeral (describe reason)⟩
        | .ok value => do return value :: (← readNumberLines rest)

def readNumbers (text : List Char) : Except LineError (List Nat) :=
  readNumberLines readNumeral describe (Text.numberedLines text)

end Numbers

/-- The capital letters between two double quotes. -/
def unquote? : List Char → Option (List Char)
  | '"' :: quoted =>
      if quoted.getLast? = some '"' ∧ quoted.dropLast.all Char.isUpper then some quoted.dropLast
      else none
  | _ => none

def readPieces (line : Nat) : List (List Char) → Except LineError (List String)
  | [] => .ok []
  | piece :: pieces =>
      match unquote? piece with
      | none => .error ⟨line, .badWord piece⟩
      | some letters => do return String.ofList letters :: (← readPieces line pieces)

/-- The pieces between commas, without the blanks around them and without those
that are blank. -/
def wordPieces (line : List Char) : List (List Char) :=
  ((Text.pieces (· == ',') line).map Text.trim).filter fun piece => !piece.isEmpty

def readWordLines : List (Nat × List Char) → Except LineError (List String)
  | [] => .ok []
  | (line, text) :: rest => do
      let words ← readPieces line (wordPieces text)
      return words ++ (← readWordLines rest)

/-- Reads quoted words between commas. -/
def readWords (text : List Char) : Except LineError (List String) :=
  readWordLines (Text.numberedLines text)

namespace Fixtures

def path (fixtures : Fixtures) (name : String) : String := Path.join fixtures.root name

/-- Bytes that were found, if they have room in memory. -/
def held (bytes : ByteArray) : Except ReadFault ByteArray :=
  if bytes.size < addressBytes then .ok bytes else .error .outOfMemory

def decoded (bytes : ByteArray) : Except ReadFault String :=
  match String.fromUTF8? bytes with
  | some text => .ok text
  | none => .error .invalidEncoding

/-- Reads a fixture as a text, which is held in memory before it is decoded. -/
def read (fixtures : Fixtures) (name : String) : Except FixtureError String :=
  let path := fixtures.path name
  let text := do decoded (← held (← fixtures.bytesAt path))
  text.mapError fun
    | .missing => .notFound path
    | reason => .unreadable path reason

/-- Reads a fixture in a form, and names its path in a report. -/
def readAs {α : Type} (fixtures : Fixtures) (name : String)
    (form : List Char → Except LineError α) : Except FixtureError α := do
  let text ← fixtures.read name
  (form text.toList).mapError (.malformed (fixtures.path name))

def numbersBy {ε : Type} (readNumeral : List Char → Except ε Nat) (describe : ε → String)
    (fixtures : Fixtures) (name : String) : Except FixtureError (List Nat) :=
  fixtures.readAs name (readNumbers readNumeral describe)

def numbers (fixtures : Fixtures) (name : String) : Except FixtureError (List Nat) :=
  fixtures.numbersBy Text.readNatural Text.NumeralError.message name

def triangle (fixtures : Fixtures) (name : String) : Except FixtureError Triangle :=
  fixtures.readAs name Triangle.read

def words (fixtures : Fixtures) (name : String) : Except FixtureError (List String) :=
  fixtures.readAs name readWords

end Fixtures

end NumberPuzzles
