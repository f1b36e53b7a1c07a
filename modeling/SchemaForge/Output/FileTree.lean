import SchemaForge.Error

/-! # File trees

Directories and regular files as a value, with the operations that writing needs. A path is
followed step by step: every step must start from a directory, and `..` leads to its parent. Names
and paths have a greatest length, and no path holds a null character.

There are no links, so every file has one name. Files hold text: every text can be written, since
none holds half of a surrogate pair. Nothing fails for lack of permission or of space.
-/

namespace SchemaForge.Output

/-- The place of an entry: the names that lead to it from the topmost directory. -/
abbrev Location := List String

/-- What is found at a location. -/
inductive Entry where
  | file (text : String)
  | directory
deriving DecidableEq

/-- A path as it is written, absolute or from the current directory. It may hold `..`, but neither
empty steps nor steps that stay where they are. -/
structure Path where
  absolute : Bool
  steps : List String
deriving DecidableEq

namespace Path

/-- The parts of a text between slashes that lead somewhere. -/
def stepsOf (text : String) : List String :=
  ((text.toList.splitOn '/').map String.ofList).filter fun step => step ≠ "" ∧ step ≠ "."

/-- The path that a text writes. -/
def ofText (text : String) : Path :=
  ⟨text.startsWith "/", stepsOf text⟩

/-- A path as text. -/
def text (path : Path) : String :=
  match path.absolute, path.steps with
  | false, [] => "."
  | absolute, steps => (if absolute then "/" else "") ++ "/".intercalate steps

/-- The path without its last step. -/
def parent (path : Path) : Path := { path with steps := path.steps.dropLast }

/-- The last step of a path. -/
def name (path : Path) : String := path.steps.getLastD ""

/-- Tells whether the last step of a path is the name of an entry. -/
def endsInName (path : Path) : Bool := path.name ≠ "" && path.name ≠ ".."

/-- The number of bytes that a path stays below. -/
def limit : Nat := 4096

/-- What is wrong with a path before it is followed. -/
def fault? (path : Path) : Option FileFault :=
  if path.text.toList.contains '\x00' then some .nullCharacter
  else if limit ≤ path.text.utf8ByteSize then some .nameTooLong
  else none

end Path

/-- A tree with a current directory. The topmost directory is there without an entry. -/
structure FileTree where
  entries : List (Location × Entry) := []
  current : Location := []

namespace FileTree

/-- The entry at a location. -/
def get? (tree : FileTree) (location : Location) : Option Entry :=
  if location = [] then some .directory
  else (tree.entries.find? fun entry => entry.1 = location).map Prod.snd

/-- Sets the entry at a location, in its old place or else at the end. -/
def putEntry (location : Location) (entry : Entry) :
    List (Location × Entry) → List (Location × Entry)
  | [] => [(location, entry)]
  | held :: rest =>
    if held.1 = location then (location, entry) :: rest else held :: putEntry location entry rest

/-- A tree with an entry set. -/
def put (tree : FileTree) (location : Location) (entry : Entry) : FileTree :=
  { tree with entries := putEntry location entry tree.entries }

/-- A tree without the entry at a location. -/
def erase (tree : FileTree) (location : Location) : FileTree :=
  { tree with entries := tree.entries.filter fun entry => entry.1 ≠ location }

/-- The greatest number of bytes in a name. -/
def nameLimit : Nat := 255

/-- One step from a location, which must be a directory. -/
def step (tree : FileTree) (location : Location) (name : String) : Except FileFault Location :=
  match tree.get? location with
  | none => .error .missing
  | some (.file _) => .error .notADirectory
  | some .directory =>
    if name = ".." then .ok location.dropLast
    else if nameLimit < name.utf8ByteSize then .error .nameTooLong
    else .ok (location ++ [name])

/-- Where a path starts. -/
def start (tree : FileTree) (absolute : Bool) : Location := if absolute then [] else tree.current

/-- The location that a path leads to. Whether anything is there is not looked at. -/
def locate (tree : FileTree) (path : Path) : Except FileFault Location :=
  match path.fault? with
  | some fault => .error fault
  | none => path.steps.foldlM tree.step (tree.start path.absolute)

/-- The entry that a path leads to. -/
def find? (tree : FileTree) (path : Path) : Option Entry :=
  match tree.locate path with
  | .ok location => tree.get? location
  | .error _ => none

/-- Tells whether a path leads to something, and refuses a path that is too long to tell. -/
def isTaken (tree : FileTree) (path : Path) : Except Error Bool :=
  match tree.locate path with
  | .ok location => .ok (tree.get? location).isSome
  | .error .nameTooLong => .error (.file .nameTooLong path.text)
  | .error _ => .ok false

/-- The text of the file that a path leads to. -/
def fileText (tree : FileTree) (path : Path) : Except Error String :=
  let found := do
    let location ← tree.locate path
    match tree.get? location with
    | some (.file text) => .ok text
    | some .directory => .error .isADirectory
    | none => .error .missing
  found.mapError fun fault => .file fault path.text

/-- Makes the directory that a path leads to, given its location, unless it is there. -/
def ensureDirectory (tree : FileTree) (path : Path) (location : Location) :
    Except Error Location × FileTree :=
  match tree.get? location with
  | none => (.ok location, tree.put location .directory)
  | some .directory => (.ok location, tree)
  | some (.file _) => (.error (.file .exists path.text), tree)

/-- Makes a directory and the missing ones above it, and tells its location; the steps are given
from the last to the first. Directories made before a failure stay. -/
def makeDirectoriesUp (tree : FileTree) (absolute : Bool) :
    List String → Except Error Location × FileTree
  | [] => (.ok (tree.start absolute), tree)
  | last :: above =>
    let path : Path := ⟨absolute, (last :: above).reverse⟩
    match tree.locate path with
    | .ok location => tree.ensureDirectory path location
    | .error .missing =>
      match makeDirectoriesUp tree absolute above with
      | (.error error, after) => (.error error, after)
      | (.ok parent, after) =>
        match after.step parent last with
        | .ok location => after.ensureDirectory path location
        | .error fault => (.error (.file fault path.text), after)
    | .error fault => (.error (.file fault path.text), tree)

/-- Makes a directory and the missing ones above it, and tells its location. -/
def makeDirectories (tree : FileTree) (path : Path) : Except Error Location × FileTree :=
  makeDirectoriesUp tree path.absolute path.steps.reverse

/-- Writes a file in place. Its directory must be there. -/
def writeFile (tree : FileTree) (path : Path) (text : String) : Except Error Unit × FileTree :=
  match tree.locate path with
  | .error fault => (.error (.file fault path.text), tree)
  | .ok location =>
    if tree.get? location = some .directory then (.error (.file .isADirectory path.text), tree)
    else (.ok (), tree.put location (.file text))

/-- Moves a file to where a path leads, replacing a file there. The path must end in a name. -/
def moveFile (tree : FileTree) (source : Location) (path : Path) : Except Error FileTree := do
  let target ← (tree.locate path).mapError fun fault => .file fault path.text
  if !path.endsInName then throw (.file .busy path.text)
  match tree.get? source, tree.get? target with
  | _, some .directory => .error (.file .isADirectory path.text)
  | some entry, _ => .ok ((tree.erase source).put target entry)
  | none, _ => .error (.file .missing path.text)

end FileTree

end SchemaForge.Output
