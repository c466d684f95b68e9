/-!
# Paths of fixtures
-/

namespace NumberPuzzles.Path

def isAbsolute (path : String) : Bool := path.toList.head? == some '/'

/-- The path of a name below a directory.  An absolute name stands for itself, and
a separator is put in unless the directory is empty or ends with one. -/
def join (directory name : String) : String :=
  if isAbsolute name then name
  else if directory.isEmpty || directory.toList.getLast? == some '/' then directory ++ name
  else directory ++ "/" ++ name

end NumberPuzzles.Path
