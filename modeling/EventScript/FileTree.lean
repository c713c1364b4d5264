import EventScript.Path

/-!
# File trees

A file tree holds regular files and directories with their permission bits, and symbolic links, each at a
place: the list of names that leads to it from the root. The root is a directory. Relative paths start at
a place of their own, the working directory.

* `find?_put_self`, `find?_put_of_ne`: an entry that is put is found, and no other place changes.
* `erase_put`: an entry that is put where nothing is can be taken away again, and nothing is left of it.
* `find?_erase_self`, `find?_erase_of_ne`: an entry that is taken away is gone, and no other place changes.
* `directoryMode_congr`, `directoryMode_of_free`: the permission bits of a directory are told by what is at its
  place.
-/

namespace EventScript

/-- The name of an entry in its directory. -/
abbrev Name := Bytes

/-- Where an entry is: the names that lead to it, outermost first. -/
abbrev Place := List Name

/-- What can be at a place. -/
inductive Entry
  | file (mode : Nat) (content : Bytes)
  | directory (mode : Nat)
  /-- A symbolic link to a path. -/
  | link (target : Bytes)
  deriving DecidableEq, Repr

/-- A tree of files. -/
structure FileTree where
  entries : List (Place × Entry)
  /-- The working directory. -/
  home : Place
  /-- The permission bits of the root. -/
  rootMode : Nat
  deriving DecidableEq, Repr

namespace FileTree

/-- A name that no path can spell. -/
def unspoken : Name := [Ascii.nul]

/-- The permission bits of a new directory. -/
def newDirectoryMode : Nat := 0o755

/-- The tree that holds an empty working directory and nothing else. No path leads back to that directory
from outside of it. -/
def fresh : FileTree := ⟨[([unspoken], .directory newDirectoryMode)], [unspoken], newDirectoryMode⟩

/-- The entry at a place. The root is always a directory. -/
def find? (t : FileTree) (place : Place) : Option Entry :=
  if place = [] then some (.directory t.rootMode) else t.entries.lookup place

/-- The permission bits of the directory at a place. Where there is none, they are those of a new one. -/
def directoryMode (t : FileTree) (place : Place) : Nat :=
  match t.find? place with
  | some (.directory mode) => mode
  | _ => newDirectoryMode

/-- Whether there is a directory at a place. -/
def holdsDirectory (t : FileTree) (place : Place) : Bool :=
  match t.find? place with
  | some (.directory _) => true
  | _ => false

/-- Puts an entry at a place, over what is there. -/
def putEntry (place : Place) (entry : Entry) : List (Place × Entry) → List (Place × Entry)
  | [] => [(place, entry)]
  | e :: rest => if e.1 = place then (place, entry) :: rest else e :: putEntry place entry rest

/-- The tree with an entry at a place. -/
def put (t : FileTree) (place : Place) (entry : Entry) : FileTree :=
  { t with entries := putEntry place entry t.entries }

/-- The tree without the entry at a place. -/
def erase (t : FileTree) (place : Place) : FileTree :=
  { t with entries := t.entries.filter fun e => e.1 != place }

/-! ## Directories -/

theorem not_holdsDirectory_iff {t : FileTree} {place : Place} :
    ¬ t.holdsDirectory place = true ↔ ∀ mode, t.find? place ≠ some (.directory mode) := by
  unfold holdsDirectory
  rcases t.find? place with _ | _ | _ | _ <;> simp

theorem directoryMode_congr {t s : FileTree} {place : Place} (h : s.find? place = t.find? place) :
    s.directoryMode place = t.directoryMode place := by
  rw [directoryMode, directoryMode, h]

theorem directoryMode_of_free {t : FileTree} {place : Place}
    (h : ∀ mode, t.find? place ≠ some (.directory mode)) : t.directoryMode place = newDirectoryMode := by
  unfold directoryMode
  split
  next mode hfind => exact absurd hfind (h mode)
  next => rfl

/-! ## What putting and taking away change -/

theorem lookup_putEntry_self (place : Place) (entry : Entry) (es : List (Place × Entry)) :
    (putEntry place entry es).lookup place = some entry := by
  induction es with
  | nil => simp [putEntry]
  | cons e rest ih =>
    by_cases h : e.1 = place
    · simp [putEntry, h]
    · obtain ⟨other, found⟩ := e
      have h' : (place == other) = false := by simpa using fun heq => h heq.symm
      simp only [putEntry, h, if_false, List.lookup_cons, h', ih]

theorem lookup_putEntry_of_ne {place other : Place} (h : other ≠ place) (entry : Entry)
    (es : List (Place × Entry)) : (putEntry place entry es).lookup other = es.lookup other := by
  have hne : (other == place) = false := by simpa using h
  induction es with
  | nil => simp [putEntry, List.lookup_cons, hne]
  | cons e rest ih =>
    obtain ⟨at_, found⟩ := e
    by_cases he : at_ = place
    · subst he
      simp [putEntry, List.lookup_cons, hne]
    · simp [putEntry, he, List.lookup_cons, ih]

@[simp]
theorem find?_put_self {place : Place} (h : place ≠ []) (t : FileTree) (entry : Entry) :
    (t.put place entry).find? place = some entry := by
  simp [find?, put, h, lookup_putEntry_self]

theorem find?_put_of_ne {place other : Place} (h : other ≠ place) (t : FileTree) (entry : Entry) :
    (t.put place entry).find? other = t.find? other := by
  simp [find?, put, lookup_putEntry_of_ne h]

theorem putEntry_putEntry (place : Place) (e₁ e₂ : Entry) (es : List (Place × Entry)) :
    putEntry place e₂ (putEntry place e₁ es) = putEntry place e₂ es := by
  induction es with
  | nil => simp [putEntry]
  | cons e rest ih => by_cases h : e.1 = place <;> simp [putEntry, h, ih]

theorem filter_putEntry {place : Place} {es : List (Place × Entry)} (h : es.lookup place = none)
    (entry : Entry) : (putEntry place entry es).filter (fun e => e.1 != place) = es := by
  induction es with
  | nil => simp [putEntry]
  | cons e rest ih =>
    obtain ⟨other, found⟩ := e
    rw [List.lookup_cons] at h
    split at h
    next => cases h
    next hne =>
      have hne' : other ≠ place := fun heq => by simp [heq] at hne
      simp [putEntry, hne', ih h]

@[simp]
theorem put_put (t : FileTree) (place : Place) (e₁ e₂ : Entry) :
    (t.put place e₁).put place e₂ = t.put place e₂ := by
  simp [put, putEntry_putEntry]

/-- What was put where nothing is can be taken away again. -/
theorem erase_put {t : FileTree} {place : Place} (h : t.find? place = none) (entry : Entry) :
    (t.put place entry).erase place = t := by
  unfold find? at h
  split at h
  next => cases h
  next => simp [put, erase, filter_putEntry h]

theorem lookup_filter_of_ne {place other : Place} (h : other ≠ place) (es : List (Place × Entry)) :
    (es.filter fun e => e.1 != place).lookup other = es.lookup other := by
  have hne : (other == place) = false := by simpa using h
  induction es with
  | nil => rfl
  | cons e rest ih =>
    obtain ⟨at_, found⟩ := e
    by_cases hat : at_ = place
    · subst hat
      simp [List.lookup_cons, hne, ih]
    · simp [List.lookup_cons, hat, ih]

theorem find?_erase_self {place : Place} (h : place ≠ []) (t : FileTree) :
    (t.erase place).find? place = none := by
  rw [find?, if_neg h, erase, List.lookup_eq_none_iff]
  intro e he
  obtain ⟨-, hne⟩ := List.mem_filter.mp he
  rw [bne_iff_ne] at hne ⊢
  exact hne.symm

theorem find?_erase_of_ne {place other : Place} (h : other ≠ place) (t : FileTree) :
    (t.erase place).find? other = t.find? other := by
  simp [find?, erase, lookup_filter_of_ne h]

end FileTree

end EventScript
