import EventScript.Bytes

/-!
# Paths

A path is an octet string whose components are separated by slashes. Repeated slashes, slashes at the
end, and components that are a single dot, unless the first, change nothing. A path has a file name when
its last component is neither of the two dot names; the extension is what follows the last dot of the
file name, unless that dot is its first octet.

* `split?_eq_some`: directory and file name put together are the path without its insignificant end.
-/

namespace EventScript.Path

/-- The name of the directory itself. -/
def here : Bytes := [Ascii.dot]

/-- The name of the directory above. -/
def up : Bytes := [Ascii.dot, Ascii.dot]

/-- A reversed path without the slashes, and dots after slashes, at its end. -/
def trimReversed : Bytes → Bytes
  | [] => []
  | [b] => if b = Ascii.slash then [] else [b]
  | b :: c :: rest =>
    if b = Ascii.slash then trimReversed (c :: rest)
    else if b = Ascii.dot ∧ c = Ascii.slash then trimReversed (c :: rest)
    else b :: c :: rest

/-- A path without what is insignificant at its end. The root becomes empty. -/
def trim (path : Bytes) : Bytes :=
  (trimReversed path.reverse).reverse

/-- Whether an octet is no separator. -/
def isName (b : UInt8) : Bool :=
  b != Ascii.slash

/-- What follows the last slash of a path. -/
def lastName (path : Bytes) : Bytes :=
  (path.reverse.takeWhile isName).reverse

/-- A path up to and including its last slash. -/
def beforeName (path : Bytes) : Bytes :=
  (path.reverse.dropWhile isName).reverse

/-- A path as what comes before its file name and that name, if it has one. -/
def split? (path : Bytes) : Option (Bytes × Bytes) :=
  let name := lastName (trim path)
  if name = [] ∨ name = here ∨ name = up then none else some (beforeName (trim path), name)

/-- The file name of a path, if it has one. -/
def fileName? (path : Bytes) : Option Bytes :=
  (split? path).map Prod.snd

/-- A path without its last component, if it has one. -/
def parent? (path : Bytes) : Option Bytes :=
  if trim path = [] then none
  else
    let front := trim (beforeName (trim path))
    some (if front = [] ∧ path.head? = some Ascii.slash then [Ascii.slash] else front)

/-- The directory in which a replacement for the file at `path` is made. -/
def workDirectory (path : Bytes) : Bytes :=
  match parent? path with
  | none | some [] => here
  | some parent => parent

/-! ## Extensions -/

/-- A file name as its stem and its extension. -/
def stemAndExtension (name : Bytes) : Bytes × Option Bytes :=
  let extension := (name.reverse.takeWhile (· != Ascii.dot)).reverse
  match (name.reverse.dropWhile (· != Ascii.dot)).reverse.dropLast with
  | [] => (name, none)
  | stem => (stem, some extension)

/-- The extension of a path, if its file name has one. -/
def extension? (path : Bytes) : Option Bytes :=
  (fileName? path).bind fun name => (stemAndExtension name).2

/-- The file name of a path without its extension, if it has one. -/
def stem? (path : Bytes) : Option Bytes :=
  (fileName? path).map fun name => (stemAndExtension name).1

/-- A path with an extension after the stem of its file name. What is insignificant at its end goes; a
path without a file name stays as it is. -/
def setExtension (extension path : Bytes) : Bytes :=
  match split? path with
  | none => path
  | some (front, name) => front ++ (stemAndExtension name).1 ++ Ascii.dot :: extension

/-- A path with another extension. As many octets as the old one has are first taken off the end of the
path, so a file name whose stem is one dot is left as the name of the directory above and has no
extension put to it. -/
def withExtension (extension path : Bytes) : Bytes :=
  match extension? path with
  | none => setExtension extension path
  | some old => setExtension extension (path.take (path.length - old.length))

/-! ## Directory and name -/

theorem beforeName_append_lastName (path : Bytes) : beforeName path ++ lastName path = path := by
  unfold beforeName lastName
  rw [← List.reverse_append, List.takeWhile_append_dropWhile, List.reverse_reverse]

theorem split?_eq_some {path front name : Bytes} (h : split? path = some (front, name)) :
    front ++ name = trim path := by
  simp only [split?] at h
  split at h
  · cases h
  · cases h
    exact beforeName_append_lastName _

end EventScript.Path
