import EventScript.FileStore
import EventScript.FileTree

/-!
# Following paths

A path is followed name by name, from the root if it is absolute and else from the working directory.
Symbolic links on the way are always followed, the one a path ends with only on request, and at most
`maxLinks` altogether. A name that is not the last must lead to a directory; a slash at the end of a path
makes its last name such a name.

* `walk_eq_vacant`: a place is found vacant only if nothing is there.
-/

namespace EventScript.FileTree

/-- How many symbolic links one path may lead through. -/
def maxLinks : Nat := 40

/-- The greatest length of a name. -/
def maxName : Nat := 255

/-- Paths of this length and more are refused. -/
def pathLimit : Nat := 4096

/-- Where a path leads. -/
inductive Found
  /-- To an entry. -/
  | entry (place : Place) (e : Entry)
  /-- To a directory that is there, and a name that is not in it. -/
  | vacant (place : Place)
  deriving DecidableEq, Repr

/-- The place itself, whether anything is there or not. -/
def Found.place : Found → Place
  | .entry place _ => place
  | .vacant place => place

/-- The names of a path, with an empty one for each slash too many. -/
def names (path : Bytes) : List Name :=
  path.splitOn Ascii.slash

/-- Whether a path starts at the root. -/
def isAbsolute (path : Bytes) : Bool :=
  path.head? == some Ascii.slash

/-- The directory at which a path in the directory `dir` starts. -/
def base (dir : Place) (path : Bytes) : Place :=
  if isAbsolute path then [] else dir

/-- Follows names from the directory `dir`. -/
def walk (t : FileTree) (followLast : Bool) (links : Nat) (dir : Place) (ns : List Name) :
    Except FileError Found :=
  match ns with
  | [] => .ok (.entry dir (.directory (t.directoryMode dir)))
  | name :: rest =>
    if name = [] ∨ name = Path.here then walk t followLast links dir rest
    else if name = Path.up then walk t followLast links dir.dropLast rest
    else if maxName < name.length then .error .nameTooLong
    else
      match t.find? (dir ++ [name]) with
      | none => if rest = [] then .ok (.vacant (dir ++ [name])) else .error .notFound
      | some (.directory _) => walk t followLast links (dir ++ [name]) rest
      | some (.file mode content) =>
        if rest = [] then .ok (.entry (dir ++ [name]) (.file mode content)) else .error .notDirectory
      | some (.link target) =>
        if rest = [] ∧ followLast = false then .ok (.entry (dir ++ [name]) (.link target))
        else
          match links with
          | 0 => .error .tooManyLinks
          | links + 1 =>
            walk t followLast links (base dir target) (names target ++ rest)
termination_by (links, ns.length)

/-- Refuses a path that cannot be followed whatever the tree. -/
def checkPath (path : Bytes) : Except FileError Unit :=
  if Ascii.nul ∈ path then .error .nulInPath
  else if path = [] then .error .notFound
  else if pathLimit ≤ path.length then .error .nameTooLong
  else .ok ()

/-- Follows a path. -/
def resolve (t : FileTree) (followLast : Bool) (path : Bytes) : Except FileError Found := do
  checkPath path
  walk t followLast maxLinks (base t.home path) (names path)

theorem walk_eq_vacant {t : FileTree} {followLast : Bool} {links : Nat} {dir place : Place}
    {ns : List Name} (h : walk t followLast links dir ns = .ok (.vacant place)) :
    t.find? place = none := by
  fun_induction walk t followLast links dir ns <;> simp_all

end EventScript.FileTree
