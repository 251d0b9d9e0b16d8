import PioKit.Text.Basic

/-!
# File trees

The files that a run of the command can see: a finite map from locations to files and directories,
and the working directory of the run. A path is resolved name by name, from the root if it begins
with a slash and else from the working directory, and every name but the last has to lead to a
directory; so `missing/../file` is not found although `file` is there. The root is a directory and
its own parent.

A tree holds plain files and directories only: there are no links, so a place has one path up to `.`,
`..` and slashes, and no devices, pipes or sockets. Every file can be read and replaced, since there are
no permissions, and a path is a text: a name that is not UTF-8 cannot be written down.
-/

namespace PioKit

/-- Why a path cannot be read or written. -/
inductive FileFault where
  /-- A name on the path does not exist. -/
  | notFound
  /-- A file is used as a directory. -/
  | notADirectory
  /-- A directory is used as a file. -/
  | isADirectory
  /-- The path, or a name on it, has too many bytes. -/
  | nameTooLong
  /-- A text file does not hold UTF-8. -/
  | notText
  /-- Anything else that a file system can report. -/
  | other (detail : String)
  deriving DecidableEq, Repr

/-- The wording of a fault. -/
def FileFault.message : FileFault → String
  | .notFound => "No such file or directory (os error 2)"
  | .notADirectory => "Not a directory (os error 20)"
  | .isADirectory => "Is a directory (os error 21)"
  | .nameTooLong => "File name too long (os error 36)"
  | .notText => "stream did not contain valid UTF-8"
  | .other detail => detail

/-- The names that lead from the root to a place in a tree. -/
abbrev Location := List String

namespace Location

/-- The most bytes that a name can have. -/
def nameLimit : Nat := 255

/-- The most bytes that a path can have. -/
def pathLimit : Nat := 4095

/-- The names on a path. Repeated slashes count as one. -/
def namesOf (path : String) : List String :=
  (Text.fields (· == '/') path.toList).map String.ofList

/-- A path that begins with a slash starts at the root. -/
def beginsWithSlash (path : String) : Bool :=
  path.toList.head? = some '/'

/-- A path that ends in a slash can only name a directory. -/
def endsInSlash (path : String) : Bool :=
  path.toList.getLast? = some '/'

/-- The place that names lead to if every name is that of a directory. -/
def follow (place : Location) (names : List String) : Location :=
  names.foldl
    (fun here name =>
      if name = "." then here else if name = ".." then here.dropLast else here ++ [name])
    place

/-- The names that lead from one place down to another, if it lies below. -/
def below? (top place : Location) : Option (List String) :=
  if top.isPrefixOf place then some (place.drop top.length) else none

end Location

/-- What can stand at a place. -/
inductive Node where
  /-- A file with its bytes. -/
  | file (bytes : List UInt8)
  /-- A directory. -/
  | directory
  deriving DecidableEq, Repr

/-- Files and directories by their places. -/
structure FileTree where
  /-- What stands where; the root is not listed. -/
  entries : List (Location × Node)
  /-- Where a path starts that does not begin with a slash. -/
  workingDirectory : Location
  deriving DecidableEq, Repr

namespace FileTree

/-- The place where a path starts. -/
def origin (tree : FileTree) (path : String) : Location :=
  if Location.beginsWithSlash path then [] else tree.workingDirectory

/-- The place that a path names if every name on it is that of a directory. -/
def placeOf (tree : FileTree) (path : String) : Location :=
  (tree.origin path).follow (Location.namesOf path)

/-- What stands at a place. -/
def node? (tree : FileTree) (place : Location) : Option Node :=
  if place = [] then some .directory else tree.entries.lookup place

/-- Puts something at a place, instead of what may be there. -/
def put (tree : FileTree) (place : Location) (node : Node) : FileTree :=
  { tree with entries := (place, node) :: tree.entries.filter fun entry => entry.1 != place }

/-- What was put at a place is found there. -/
theorem node?_put_self {place : Location} (h : place ≠ []) (tree : FileTree) (node : Node) :
    (tree.put place node).node? place = some node := by
  simp [node?, put, h]

/-- Putting something at a place leaves every other place as it was. -/
theorem node?_put_of_ne {place other : Location} (h : other ≠ place) (tree : FileTree)
    (node : Node) : (tree.put place node).node? other = tree.node? other := by
  have lookup_filter (entries : List (Location × Node)) :
      (entries.filter fun entry => entry.1 != place).lookup other = entries.lookup other := by
    induction entries with
    | nil => rfl
    | cons entry rest ih =>
      obtain ⟨at_, node'⟩ := entry
      by_cases hp : at_ = place
      · subst hp
        have hb : (other == at_) = false := by simpa using h
        simp [List.lookup_cons, hb, ih]
      · simp [List.lookup_cons, hp, ih]
  have hb : (other == place) = false := by simpa using h
  simp [node?, put, List.lookup_cons, hb, lookup_filter]

/-- Makes a directory, and those above it. -/
def makeDirectory (tree : FileTree) (place : Location) : FileTree :=
  (List.range place.length).foldl
    (fun tree depth =>
      let place := place.take (depth + 1)
      if (tree.node? place).isSome then tree else tree.put place .directory)
    tree

/-- Puts a file at a place, making the directories above it. -/
def putFile (tree : FileTree) (place : Location) (bytes : List UInt8) : FileTree :=
  (tree.makeDirectory place.dropLast).put place (.file bytes)

/-- The tree that holds nothing but its working directory and those above it. -/
def ofDirectory (place : Location) : FileTree :=
  makeDirectory ⟨[], place⟩ place

/-- The files below the working directory with their shortest paths. -/
def files (tree : FileTree) : List (String × List UInt8) :=
  tree.entries.filterMap fun
    | (place, .file bytes) =>
      (tree.workingDirectory.below? place).map fun names => ("/".intercalate names, bytes)
    | (_, .directory) => none

/-- What a name in a directory leads to. -/
def child? (tree : FileTree) (here : Location) (name : String) :
    Except FileFault (Option Node) :=
  if Location.nameLimit < name.utf8ByteSize then .error .nameTooLong
  else .ok (tree.node? (here ++ [name]))

/-- Goes from a directory to what a name leads to, which must be a directory. -/
def enter (tree : FileTree) (here : Location) (name : String) : Except FileFault Location :=
  if name = "." then .ok here
  else if name = ".." then .ok here.dropLast
  else do
    match ← tree.child? here name with
    | some .directory => return here ++ [name]
    | some (.file _) => throw .notADirectory
    | none => throw .notFound

/-- The directory in which the last name of a path stands, and that name; `none` if the last name is
`.` or `..` or the path is the root, so that it names a directory. -/
def locate (tree : FileTree) (path : String) : Except FileFault (Option (Location × String)) :=
  if Location.pathLimit < path.utf8ByteSize then .error .nameTooLong
  else
    match (Location.namesOf path).reverse with
    | [] => .ok none
    | last :: front => do
      let here ← front.reverse.foldlM tree.enter (tree.origin path)
      return if last = "." ∨ last = ".." then none else some (here, last)

/-- The bytes of the file that a path names. -/
def read (tree : FileTree) (path : String) : Except FileFault (List UInt8) := do
  match ← tree.locate path with
  | none => throw .isADirectory
  | some (here, name) =>
    match ← tree.child? here name with
    | none => throw .notFound
    | some .directory => throw .isADirectory
    | some (.file bytes) =>
      if Location.endsInSlash path then throw .notADirectory else return bytes

/-- Writes the file that a path names, making it if it does not exist. -/
def write (tree : FileTree) (path : String) (bytes : List UInt8) : Except FileFault FileTree := do
  match ← tree.locate path with
  | none => throw .isADirectory
  | some (here, name) =>
    if Location.endsInSlash path then throw .isADirectory
    else
      match ← tree.child? here name with
      | some .directory => throw .isADirectory
      | _ => return tree.put (here ++ [name]) (.file bytes)

end FileTree

end PioKit
