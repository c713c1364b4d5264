import EventScript.FileTree.Resolve

/-!
# Operations on file trees

Reading a file of a tree follows links. What moves to a path does not follow the link that the path ends
with, but takes that link's place; everything that could stop the move is known before the tree changes.

The other operations build trees: they make and change entries as the user of a file system does.
-/

namespace EventScript.FileTree

/-- The permission bits of a new file. -/
def newFileMode : Nat := 0o644

/-! ## Reading -/

/-- The content of the file that a path leads to. -/
def read (t : FileTree) (path : Bytes) : Except FileError Bytes :=
  match t.resolve true path with
  | .error e => .error e
  | .ok (.entry _ (.file _ content)) => .ok content
  | .ok (.entry _ (.directory _)) => .error .isDirectory
  | .ok (.entry _ (.link _)) => .error .tooManyLinks
  | .ok (.vacant _) => .error .notFound

/-- Whether a path leads to an entry, links followed. -/
def leadsSomewhere (t : FileTree) (path : Bytes) : Bool :=
  match t.resolve true path with
  | .ok (.entry _ _) => true
  | _ => false

/-- The permission bits of the entry that a path leads to, links followed. -/
def mode? (t : FileTree) (path : Bytes) : Option Nat :=
  match t.resolve true path with
  | .ok (.entry _ (.file mode _)) => some mode
  | .ok (.entry _ (.directory mode)) => some mode
  | _ => none

/-- The place of the directory that some names lead to from the directory `dir`. -/
def directoryAt (t : FileTree) (dir : Place) (ns : List Name) : Except FileError Place :=
  match t.walk true maxLinks dir ns with
  | .error e => .error e
  | .ok (.entry place (.directory _)) => .ok place
  | .ok (.entry _ _) => .error .notDirectory
  | .ok (.vacant _) => .error .notFound

/-! ## Replacing -/

/-- The place that a path names, its last name not followed, if a file may be put there. -/
def destination (t : FileTree) (path : Bytes) : Except FileError Place :=
  let ns := names path
  let trimmed := (ns.reverse.dropWhile List.isEmpty).reverse
  match trimmed.getLast? with
  | none => .error .busy
  | some last => do
    let dir ← t.directoryAt (base t.home path) trimmed.dropLast
    if last = Path.here ∨ last = Path.up then throw .busy
    if maxName < last.length then throw .nameTooLong
    if trimmed ≠ ns then throw .notDirectory
    if t.holdsDirectory (dir ++ [last]) then throw .isDirectory
    return dir ++ [last]

/-- The tree with an empty file under the given name in the directory that a path leads to, and the
place of that file. The name depends on the directory. -/
def makeTemporary (t : FileTree) (name : Place → Name) (directory : Bytes) :
    Except FileError (Place × FileTree) := do
  checkPath directory
  let dir ← t.directoryAt (base t.home directory) (names directory)
  let place := dir ++ [name dir]
  return (place, t.put place (.file newFileMode []))

/-- The tree with other permission bits on the file at a place. -/
def setMode (t : FileTree) (place : Place) (mode : Nat) : Except FileError FileTree :=
  match t.find? place with
  | some (.file _ content) => .ok (t.put place (.file mode content))
  | _ => .error .notFound

/-- The tree with more content in the file at a place. -/
def append (t : FileTree) (place : Place) (content : Bytes) : Except FileError FileTree :=
  match t.find? place with
  | some (.file mode before) => .ok (t.put place (.file mode (before ++ content)))
  | _ => .error .notFound

/-- The tree with the file at a place moved to a path. -/
def moveTo (t : FileTree) (place : Place) (path : Bytes) : Except FileError FileTree :=
  match t.find? place with
  | some (.file mode content) => do
    checkPath path
    let there ← t.destination path
    return (t.erase place).put there (.file mode content)
  | _ => .error .notFound

/-! ## Building trees -/

/-- Writes a file through any links, keeping the permission bits of a file that is there unless others
are given. -/
def write (t : FileTree) (path content : Bytes) (mode? : Option Nat) : FileTree :=
  match t.resolve true path with
  | .ok (.entry place (.file mode _)) => t.put place (.file (mode?.getD mode) content)
  | .ok (.vacant place) => t.put place (.file (mode?.getD newFileMode) content)
  | _ => t

/-- Makes a directory and those above it, where they are not there. -/
def makeDirectories (t : FileTree) (path : Bytes) : FileTree :=
  let ns := names path
  (List.range (ns.length + 1)).foldl (fun t n =>
    match t.walk true maxLinks (base t.home path) (ns.take n) with
    | .ok (.vacant place) => t.put place (.directory newDirectoryMode)
    | _ => t) t

/-- Removes the entry that a path names, if it is no directory. -/
def remove (t : FileTree) (path : Bytes) : FileTree :=
  match t.resolve false path with
  | .ok (.entry _ (.directory _)) => t
  | .ok (.entry place _) => t.erase place
  | _ => t

/-- Makes a symbolic link at a path where nothing is. -/
def makeLink (t : FileTree) (path target : Bytes) : FileTree :=
  match t.resolve false path with
  | .ok (.vacant place) => t.put place (.link target)
  | _ => t

/-- The path from the working directory to a place in it. -/
def pathFrom? (home place : Place) : Option Bytes :=
  if home.isPrefixOf place ∧ place ≠ home then
    some ([Ascii.slash].intercalate (place.drop home.length))
  else none

/-- Every entry in the working directory with its path, in the order of the octets of the paths. -/
def listing (t : FileTree) : List (Bytes × Entry) :=
  (t.entries.filterMap fun e => (pathFrom? t.home e.1).map fun path => (path, e.2)).mergeSort
    fun a b => decide (a.1 ≤ b.1)

end EventScript.FileTree
