import NumberPuzzles.Fixture.Error
import NumberPuzzles.Text.Lines

/-!
# Fixture files held in memory

A tree of directories and files, looked up by path in the way of a file system:
empty components and single dots stay where they are, double dots go up, and
nothing can be looked up below a plain file.  The tree has no surroundings: above
its top, and below the root of the file system, there is nothing of any name.
Names and paths past the usual lengths are refused.
-/

namespace NumberPuzzles

inductive Node where
  | directory
  | file (bytes : ByteArray)

/-- The directories and files by their components below the top, which is itself
a directory. -/
structure Tree where
  nodes : List (List String × Node)

namespace Tree

def nameBytes : Nat := 255

def pathBytes : Nat := 4095

def empty : Tree := ⟨[]⟩

/-- The place that a lookup has come to. -/
inductive Place where
  /-- The directory or file with these components below the top. -/
  | inside (components : List String)
  /-- A directory outside the tree. -/
  | outside
  deriving DecidableEq, Repr

/-- What is at some components below the top. -/
def node? (tree : Tree) (components : List String) : Option Node :=
  if components.isEmpty then some .directory else tree.nodes.lookup components

def components (path : String) : List String :=
  (Text.pieces (· == '/') path.toList).map String.ofList

/-- The place is one below which things can be looked up. -/
def isDirectory (tree : Tree) : Place → Bool
  | .outside => true
  | .inside components =>
      match tree.node? components with
      | some .directory => true
      | _ => false

/-- Goes one component on from a directory.  A name past the length is refused
wherever it is looked up. -/
def enter (tree : Tree) (place : Place) (component : String) : Except ReadFault Place :=
  if component = "" ∨ component = "." then .ok place
  else if nameBytes < component.utf8ByteSize then .error .nameTooLong
  else
    match place with
    | .outside => if component = ".." then .ok .outside else .error .missing
    | .inside components =>
        if component = ".." then
          .ok (if components.isEmpty then .outside else .inside components.dropLast)
        else
          let below := components ++ [component]
          match tree.node? below with
          | some _ => .ok (.inside below)
          | none => .error .missing

/-- Goes on through components, each of which needs a directory to start from. -/
def walk (tree : Tree) : Place → List String → Except ReadFault Place
  | place, [] => .ok place
  | place, component :: rest =>
      if tree.isDirectory place then do
        walk tree (← tree.enter place component) rest
      else .error .notDirectory

def startOf (path : String) : Place :=
  if path.toList.head? = some '/' then .outside else .inside []

def read (tree : Tree) (path : String) : Except ReadFault ByteArray := do
  if path.toList.contains '\x00' then throw .nulInName
  if path.isEmpty then throw .missing
  if pathBytes < path.utf8ByteSize then throw .nameTooLong
  match ← tree.walk (startOf path) (components path) with
  | .outside => throw .isDirectory
  | .inside below =>
      match tree.node? below with
      | some (.file bytes) => return bytes
      | some .directory => throw .isDirectory
      | none => throw .missing

/-- The tree with a node at some components, and directories above it. -/
def insert (tree : Tree) (components : List String) (node : Node) : Tree :=
  let ancestors := (List.range components.length).map fun length => components.take length
  let missing := ancestors.filter fun above => (tree.node? above).isNone
  ⟨(components, node) :: missing.map (fun above => (above, .directory)) ++
    tree.nodes.filter (fun entry => entry.1 ≠ components)⟩

/-- The components of a relative name, without those that stay in place. -/
def nameComponents (name : String) : List String :=
  (components name).filter fun component => component ≠ "" ∧ component ≠ "."

def ofList (entries : List (String × Node)) : Tree :=
  entries.foldl (fun tree (name, node) => tree.insert (nameComponents name) node) empty

end Tree

end NumberPuzzles
