import NumberPuzzles.Catalogue

/-!
# The command line

The arguments are read one by one.  An option that takes a value waits for the
next argument, unless the value is attached to it; what the arguments ask for is
settled before anything is computed, so a misuse is reported without an answer.
-/

namespace NumberPuzzles.CommandLine

structure Options where
  problem : Option Nat := none
  all : Bool := false
  list : Bool := false
  directory : Option String := none
  deriving DecidableEq, Repr

inductive Stop where
  | help
  | misuse
  deriving DecidableEq, Repr

/-- The options that take a value. -/
inductive Valued where
  | problem
  | directory
  deriving DecidableEq, Repr

/-- The options so far, the option that waits for its value, and whether a double
dash has ended the options. -/
structure Progress where
  options : Options := {}
  waiting : Option Valued := none
  ended : Bool := false
  deriving DecidableEq, Repr

/-- Reads the number of a problem: digits, with at most one sign in front.  It is a
32-bit word, so behind a minus sign only zero is one. -/
def readId? (value : List Char) : Option Nat :=
  match value with
  | '-' :: letters =>
      match letters, Text.readDigits 1 0 letters with
      | _ :: _, .ok id => some id
      | _, _ => none
  | _ => (Text.readBelow halfWord value).toOption

/-- Gives an option its value.  No option is given twice, and no value is empty. -/
def give (option : Valued) (value : List Char) (options : Options) : Except Stop Options :=
  match option with
  | .problem =>
      match options.problem, readId? value with
      | none, some id => .ok { options with problem := some id }
      | _, _ => .error .misuse
  | .directory =>
      if options.directory.isNone ∧ !value.isEmpty then
        .ok { options with directory := some (String.ofList value) }
      else .error .misuse

def askAll (options : Options) : Except Stop Options :=
  if options.all then .error .misuse else .ok { options with all := true }

def askList (options : Options) : Except Stop Options :=
  if options.list then .error .misuse else .ok { options with list := true }

/-- Reads the letters behind a single dash.  The letter of an option with a value
takes the rest of them as the value, less an equals sign in front. -/
def readLetters : List Char → Options → Except Stop Progress
  | [], options => .ok { options }
  | 'a' :: letters, options => do readLetters letters (← askAll options)
  | 'h' :: _, _ => .error .help
  | 'p' :: [], options => .ok { options, waiting := some .problem }
  | 'p' :: '=' :: value, options => do return { options := ← give .problem value options }
  | 'p' :: value, options => do return { options := ← give .problem value options }
  | _, _ => .error .misuse

/-- Reads a name behind a double dash, with the value attached to it, if any. -/
def readName (name : String) (attached : Option (List Char)) (options : Options) :
    Except Stop Progress :=
  match name, attached with
  | "problem", some value => do return { options := ← give .problem value options }
  | "problem", none => .ok { options, waiting := some .problem }
  | "data-dir", some value => do return { options := ← give .directory value options }
  | "data-dir", none => .ok { options, waiting := some .directory }
  | "all", none => do return { options := ← askAll options }
  | "list", none => do return { options := ← askList options }
  | "help", none => .error .help
  | _, _ => .error .misuse

/-- A long option with a value has it behind the first equals sign. -/
def attachedValue? (letters : List Char) : Option (List Char) :=
  if letters.contains '=' then some ((letters.dropWhile (· ≠ '=')).drop 1) else none

/-- Reads one argument.  The value of a waiting option does not begin with a dash,
except that it may be a single dash; other arguments are all options. -/
def readArgument (progress : Progress) (argument : String) : Except Stop Progress :=
  if progress.ended then .error .misuse
  else
    match progress.waiting, argument.toList with
    | some option, ['-'] => do return { options := ← give option ['-'] progress.options }
    | some _, '-' :: _ => .error .misuse
    | some option, value => do return { options := ← give option value progress.options }
    | none, ['-', '-'] => .ok { progress with ended := true }
    | none, '-' :: '-' :: letters =>
        readName (String.ofList (letters.takeWhile (· ≠ '='))) (attachedValue? letters)
          progress.options
    | none, '-' :: letter :: letters => readLetters (letter :: letters) progress.options
    | none, _ => .error .misuse

/-- Reads the arguments.  One problem and all problems exclude each other, and a
directory that is not given may come from the environment, where it is not empty. -/
def readArguments (arguments : List String) (environment : Option String) :
    Except Stop Options := do
  let progress ← arguments.foldlM readArgument {}
  let options := progress.options
  if progress.waiting.isSome then throw .misuse
  if options.all ∧ options.problem.isSome then throw .misuse
  match options.directory, environment with
  | none, some "" => throw .misuse
  | none, some directory => return { options with directory := some directory }
  | _, _ => return options

structure Response where
  code : Nat := 0
  stdout : String := ""
  stderr : String := ""
  deriving DecidableEq, Repr

def answerLine (id : Nat) (answer : String) : String :=
  "The answer to Problem " ++ Text.decimalString id ++ " is: " ++ answer ++ "\n"

def separated (separator : String) (ids : List Nat) : String :=
  separator.intercalate (ids.map Text.decimalString)

def bracketed (ids : List Nat) : String := "[" ++ separated ", " ids ++ "]"

def errorReport (error : ProblemError) : String :=
  let cause :=
    match error.cause? with
    | some reason => "\nCaused by:\n    " ++ reason ++ "\n"
    | none => ""
  "Error: " ++ error.message?.getD "the computation was stopped" ++ "\n" ++ cause

/-- The exit code for an error: a fault is told apart from the others. -/
def errorCode : ProblemError → Nat
  | .fault _ => 101
  | _ => 1

def answerOne (id : Nat) (fixtures : Fixtures) : Response :=
  match runProblem id fixtures with
  | .ok answer => { stdout := answerLine id answer }
  | .error error => { code := errorCode error, stderr := errorReport error }

/-- Answers some problems in turn, and notes which of them fail.  A fault ends the
program. -/
def answerEach (fixtures : Fixtures) : (ids failed : List Nat) → (output : String) → Response
  | [], [], output => { stdout := output }
  | [], failed, output =>
      { code := 1
        stdout := output
        stderr := "Error: " ++ Text.decimalString failed.length ++ " problem(s) failed: " ++
          bracketed failed ++ "\n" }
  | id :: ids, failed, output =>
      match runProblem id fixtures with
      | .ok answer => answerEach fixtures ids failed (output ++ answerLine id answer)
      | .error (.fault stop) =>
          { code := errorCode (.fault stop), stdout := output, stderr := errorReport (.fault stop) }
      | .error _ => answerEach fixtures ids (failed ++ [id]) output

def usage : String :=
  "Usage: project-euler --problem <N> | --all | --list\nAvailable problems: " ++
    bracketed problemIds ++ "\n"

def helpText : String :=
  "Run Project Euler solutions\n\nUsage: project-euler [OPTIONS]\n\nOptions:\n" ++
  "  -p, --problem <PROBLEM>    Run a specific problem by number\n" ++
  "  -a, --all                  Run all available problems\n" ++
  "      --data-dir <DATA_DIR>  Directory holding the fixture files [env: EULER_DATA_DIR=]\n" ++
  "      --list                 Print the available problem numbers\n" ++
  "  -h, --help                 Print help\n"

/-- Does what the options ask for; the list comes before everything else. -/
def respond (options : Options) (fixtures : Fixtures) : Response :=
  if options.list then { stdout := separated " " problemIds ++ "\n" }
  else if options.all then answerEach fixtures problemIds [] ""
  else
    match options.problem with
    | some id => answerOne id fixtures
    | none => { stderr := usage }

def stopped : Stop → Response
  | .help => { stdout := helpText }
  | .misuse => { code := 2, stderr := usage }

/-- Reads the arguments and does what they ask for, with the fixtures that belong to
the directory asked for. -/
def run (arguments : List String) (environment : Option String)
    (fixturesIn : Option String → Fixtures) : Response :=
  match readArguments arguments environment with
  | .error stop => stopped stop
  | .ok options => respond options (fixturesIn options.directory)

end NumberPuzzles.CommandLine
