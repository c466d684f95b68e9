import NumberPuzzles.Text.Numeral
import NumberPuzzles.Text.Quoted

/-!
# What can be wrong with a fixture

A fixture is missing, or cannot be read, or is read and does not have the form
that its reader expects.  In the last case the error names the line.
-/

namespace NumberPuzzles

inductive ReadFault where
  | missing
  | isDirectory
  | notDirectory
  | invalidEncoding
  | nulInName
  | nameTooLong
  | outOfMemory
  /-- Any other reason, in the words of the file system. -/
  | other (reason : String)
  deriving DecidableEq, Repr

namespace ReadFault

def message : ReadFault → String
  | missing => "No such file or directory (os error 2)"
  | isDirectory => "Is a directory (os error 21)"
  | notDirectory => "Not a directory (os error 20)"
  | invalidEncoding => "stream did not contain valid UTF-8"
  | nulInName => "file name contained an unexpected NUL byte"
  | nameTooLong => "File name too long (os error 36)"
  | outOfMemory => "out of memory"
  | other reason => reason

end ReadFault

inductive LineIssue where
  /-- The line is no number, in the words of the reader that refused it. -/
  | notNumber (text : List Char) (reason : String)
  /-- A cell of the line is no number. -/
  | badCell (cell : List Char) (reason : Text.NumeralError)
  /-- The line, a row counted from one, does not have as many cells as its count. -/
  | rowLength (row entries : Nat)
  /-- A piece of the line is no quoted word. -/
  | badWord (piece : List Char)
  deriving DecidableEq, Repr

namespace LineIssue

def message : LineIssue → String
  | notNumber text reason =>
      String.ofList (Text.quoted text) ++ " is not a number: " ++ reason
  | badCell cell reason => String.ofList (Text.quoted cell) ++ ": " ++ reason.message
  | rowLength row entries =>
      "row " ++ Text.decimalString row ++ " has " ++ Text.decimalString entries ++ " entries"
  | badWord piece => "expected a quoted upper-case word, got " ++ String.ofList piece

end LineIssue

/-- An issue, with the number of its line counted from one. -/
structure LineError where
  line : Nat
  issue : LineIssue
  deriving DecidableEq, Repr

inductive FixtureError where
  | notFound (path : String)
  | unreadable (path : String) (reason : ReadFault)
  | malformed (path : String) (error : LineError)
  deriving DecidableEq, Repr

namespace FixtureError

def message : FixtureError → String
  | notFound path => "fixture not found: " ++ path
  | unreadable path reason => "failed to read " ++ path ++ ": " ++ reason.message
  | malformed path error =>
      path ++ ":" ++ Text.decimalString error.line ++ ": " ++ error.issue.message

/-- The reason beneath an error, for a file that could not be read. -/
def cause? : FixtureError → Option String
  | unreadable _ reason => some reason.message
  | _ => none

end FixtureError

end NumberPuzzles
