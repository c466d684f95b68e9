import NumberPuzzles.CommandLine
import NumberPuzzles.Fixture.Bundled

/-!
# The program

Reads the arguments and the fixtures that they may need, prints the response and
exits with its code.
-/

namespace NumberPuzzles

/-- The fixtures that some problem reads. -/
def fixtureNames : List String := ["numbers.txt", "triangle.txt", "words.txt"]

def ReadFault.ofError : IO.Error → ReadFault
  | .noFileOrDirectory .. => .missing
  | .inappropriateType _ code _ => if code = 21 then .isDirectory else .notDirectory
  | .invalidArgument _ _ "name too long" => .nameTooLong
  | error => .other (toString error)

def bytesOf (path : String) : IO (Except ReadFault ByteArray) := do
  try
    return .ok (← IO.FS.readBinFile path)
  catch error =>
    return .error (ReadFault.ofError error)

def loadFixtures (root : String) : IO Fixtures := do
  let files ← fixtureNames.mapM fun name => do
    let path := Path.join root name
    return (path, ← bytesOf path)
  return ⟨root, fun path => (files.lookup path).getD (.error .missing)⟩

def printResponse (response : CommandLine.Response) : IO UInt32 := do
  IO.print response.stdout
  IO.eprint response.stderr
  return response.code.toUInt32

end NumberPuzzles

def main (arguments : List String) : IO UInt32 := do
  let environment ← IO.getEnv "EULER_DATA_DIR"
  match NumberPuzzles.CommandLine.readArguments arguments environment with
  | .error stop => NumberPuzzles.printResponse (NumberPuzzles.CommandLine.stopped stop)
  | .ok options =>
      let fixtures ← match options.directory with
        | some directory => NumberPuzzles.loadFixtures directory
        | none => pure NumberPuzzles.Bundled.fixtures
      NumberPuzzles.printResponse (NumberPuzzles.CommandLine.respond options fixtures)
