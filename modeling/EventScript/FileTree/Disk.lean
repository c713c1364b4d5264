import EventScript.FileTree.Operations
import EventScript.Text.Utf8

/-!
# Disks

A file tree is a file store once it is said what the tree leaves open: how the names of temporary files are
chosen, and which operations on such files fail though nothing in the tree prevents them. A disk says
both. What is proved of every disk holds whatever names are drawn and whatever goes wrong.

* `find?_paddedName`: the names that the reliable disk draws are not in use.
-/

namespace EventScript.FileTree

/-- The operations on temporary files. -/
inductive Operation
  | make
  | setMode
  | append
  | sync
  | move
  deriving DecidableEq, Repr

/-- What a tree leaves open. -/
structure Disk where
  /-- The name of the next temporary file in a directory. -/
  name : FileTree → Place → Name
  name_unused : ∀ (t : FileTree) (dir : Place), t.find? (dir ++ [name t dir]) = none
  /-- Why an operation fails that nothing in the tree prevents, if it does. -/
  failure? : Operation → FileTree → Option FileError

namespace Disk

/-- Changes the tree by an operation, unless the disk fails it. A tree stays as it is when an operation
on it fails. -/
def change {α : Type} (disk : Disk) (op : Operation)
    (f : FileTree → Except FileError (α × FileTree)) : StateM FileTree (Except FileError α) := do
  let t ← get
  match disk.failure? op t with
  | some e => return .error e
  | none =>
    match f t with
    | .error e => return .error e
    | .ok (a, t) =>
      set t
      return .ok a

/-- The file store of trees on a disk. -/
@[reducible]
def store (disk : Disk) : FileStore (StateM FileTree) Place where
  read path := do return (← get).read path
  exists? path := do return (← get).leadsSomewhere path
  mode? path := do return (← get).mode? path
  makeTemporary directory := disk.change .make fun t => t.makeTemporary (disk.name t) directory
  setMode place mode := disk.change .setMode fun t => (t.setMode place mode).map ((), ·)
  append place content := disk.change .append fun t => (t.append place content).map ((), ·)
  sync _ := disk.change .sync fun t => .ok ((), t)
  moveTo place path := disk.change .move fun t => (t.moveTo place path).map ((), ·)
  discard place := modify (·.erase place)

end Disk

/-! ## The reliable disk -/

/-- What the names of temporary files start with. -/
def temporaryPrefix : Name := Utf8.encode ".mkscript-"

/-- A length that no name in the tree exceeds. -/
def nameBound (t : FileTree) : Nat :=
  t.entries.foldr (fun e n => e.1.flatten.length + n) 0

/-- A name that is longer than any in the tree. -/
def paddedName (t : FileTree) : Name :=
  temporaryPrefix ++ List.replicate t.nameBound Ascii.zero

theorem length_flatten_le_nameBound {t : FileTree} {place : Place} {entry : Entry}
    (h : (place, entry) ∈ t.entries) : place.flatten.length ≤ t.nameBound := by
  unfold nameBound
  revert h
  induction t.entries with
  | nil => intro h; cases h
  | cons e rest ih =>
    intro h
    rw [List.foldr_cons]
    rcases List.mem_cons.mp h with rfl | h
    · exact Nat.le_add_right _ _
    · exact Nat.le_trans (ih h) (Nat.le_add_left _ _)

theorem find?_paddedName (t : FileTree) (dir : Place) : t.find? (dir ++ [t.paddedName]) = none := by
  have hne : dir ++ [t.paddedName] ≠ [] := by simp
  rw [find?, if_neg hne, List.lookup_eq_none_iff]
  intro e he
  rw [bne_iff_ne]
  intro hname
  have hbound : e.1.flatten.length ≤ t.nameBound := length_flatten_le_nameBound he
  have hprefix : temporaryPrefix.length = 10 := by decide
  rw [← hname] at hbound
  simp only [List.flatten_append, List.flatten_singleton, List.length_append, paddedName,
    List.length_replicate, hprefix] at hbound
  omega

/-- The disk on which only those operations fail that the tree prevents. -/
def Disk.reliable : Disk where
  name t _ := t.paddedName
  name_unused := find?_paddedName
  failure? _ _ := none

instance : FileStore (StateM FileTree) Place := Disk.reliable.store

end EventScript.FileTree
