import EventScript.Proofs.Walking

/-!
# Destinations

A path names a destination if its names but the last lead to a directory and no directory goes by the last name
there. A file that is put at the destination is what the path leads to afterwards, unless the way to the directory
was by a symbolic link at that very place: the file has taken the place of that link then, and the path leads
nowhere.

* `destination_eq_ok_iff`: what stands at the destination of a path is no directory, and its place is the
  directory of the path with the path's last name.
* `Destination.place_resolve`: the destination is where the path leads, its last link not followed.
* `Destination.directoryAt_erase_iff`: when the directory is the same without the entry at the destination.
* `Destination.resolve_put`, `Destination.read_put`: where the path leads after a file is put there, and what is
  read then.
-/

namespace EventScript.FileTree

open Outcome

/-! ## Files and directories that paths lead to -/

theorem resolve_eq {t : FileTree} {path : Bytes} (h : checkPath path = .ok ()) (followLast : Bool) :
    t.resolve followLast path = walk t followLast maxLinks (base t.home path) (names path) := by
  rw [resolve, h]
  rfl

theorem read_eq_ok_iff {t : FileTree} {path content : Bytes} :
    t.read path = .ok content ↔
      ∃ place mode, t.resolve true path = .ok (.entry place (.file mode content)) := by
  unfold read
  rcases t.resolve true path with e | ⟨place, _ | _ | _⟩ | place <;> simp

theorem directoryAt_eq_ok_iff {t : FileTree} {dir place : Place} {ns : List Name} :
    t.directoryAt dir ns = .ok place ↔
      ∃ mode, t.walk true maxLinks dir ns = .ok (.entry place (.directory mode)) := by
  unfold directoryAt
  rcases t.walk true maxLinks dir ns with e | ⟨place', _ | _ | _⟩ | place' <;> simp

/-- A file more makes no directory. -/
theorem directoryAt_of_addsFile {t s : FileTree} {place : Place} {mode : Nat} {content : Bytes}
    (h : AddsFile t s place mode content) {dir found : Place} {ns : List Name} :
    s.directoryAt dir ns = .ok found ↔ t.directoryAt dir ns = .ok found := by
  simp only [directoryAt_eq_ok_iff, walk_eq_ok_iff_of_addsFile h]
  constructor
  · rintro ⟨mode', g, hg, hfilled⟩
    unfold Found.filled at hfilled
    split at hfilled
    · simp at hfilled
    · exact ⟨mode', by rw [hg, hfilled]⟩
  · rintro ⟨mode', ht⟩
    exact ⟨mode', _, ht, if_neg (by simp)⟩

/-- A path that names an entry, its last link not followed, leads somewhere if the entry is no link. -/
theorem leadsSomewhere_of_find? {t : FileTree} {path : Bytes} {place : Place} {e : Entry}
    (hplace : (t.resolve false path).map Found.place = .ok place) (hentry : t.find? place = some e)
    (he : ∀ target, e ≠ .link target) : t.leadsSomewhere path = true := by
  cases hresolve : t.resolve false path with
  | error err =>
    rw [hresolve] at hplace
    cases hplace
  | ok found =>
    rw [hresolve] at hplace
    cases hplace
    obtain ⟨⟨⟩, hpath, hwalk⟩ := bind_eq_ok_iff.mp hresolve
    cases found with
    | vacant place => cases (walk_eq_vacant hwalk).symm.trans hentry
    | entry place e' =>
      have hlink : ∀ target, e' ≠ .link target := by
        rintro target rfl
        exact he target (Option.some.inj (hentry.symm.trans (find?_of_walk_link hwalk)))
      rw [leadsSomewhere, resolve_eq hpath, walk_true_of_walk_false hlink hwalk]

theorem leadsSomewhere_of_read {t : FileTree} {path content : Bytes} (h : t.read path = .ok content) :
    t.leadsSomewhere path = true := by
  obtain ⟨place, mode, hresolve⟩ := read_eq_ok_iff.mp h
  rw [leadsSomewhere, hresolve]

/-- Where a path leads whose names but the last lead to a directory. -/
theorem resolve_of_directoryAt {t : FileTree} {path : Bytes} {front : List Name} {dir : Place}
    {last : Name} (hpath : checkPath path = .ok ()) (hnames : names path = front ++ [last])
    (hdir : t.directoryAt (base t.home path) front = .ok dir) (followLast : Bool) :
    ∃ left, t.resolve followLast path = walk t followLast left dir [last] := by
  obtain ⟨mode, hdir⟩ := directoryAt_eq_ok_iff.mp hdir
  rw [resolve_eq hpath, hnames]
  rcases walk_append t maxLinks (base t.home path) front with ⟨place, mode', left, hwalk, hcut⟩ | ⟨hwalk, -⟩
  · rw [hdir] at hwalk
    cases hwalk
    exact ⟨left, hcut followLast [last] (by simp)⟩
  · exact absurd hdir (hwalk dir mode)

/-- A path that leads anywhere has names that lead to a directory, the last one apart. -/
theorem directoryAt_of_resolve {t : FileTree} {path : Bytes} {front : List Name} {last : Name} {f : Found}
    (hpath : checkPath path = .ok ()) (hnames : names path = front ++ [last]) {followLast : Bool}
    (h : t.resolve followLast path = .ok f) :
    ∃ dir, t.directoryAt (base t.home path) front = .ok dir := by
  rw [resolve_eq hpath, hnames] at h
  rcases walk_append t maxLinks (base t.home path) front with ⟨place, mode, left, hwalk, -⟩ | ⟨-, hfails⟩
  · exact ⟨place, directoryAt_eq_ok_iff.mpr ⟨mode, hwalk⟩⟩
  · obtain ⟨e, he⟩ := hfails followLast [last] (by simp)
    rw [he] at h
    cases h

/-! ## Destinations -/

/-- A path names a destination: all of its names but the last lead to a directory, and no directory goes by
the last one there. -/
structure Destination (t : FileTree) (path : Bytes) (front : List Name) (dir : Place) (last : Name) :
    Prop where
  names_eq : names path = front ++ [last]
  followed : Followed last
  directory : t.directoryAt (base t.home path) front = .ok dir
  free : ∀ mode, t.find? (dir ++ [last]) ≠ some (.directory mode)

/-- The directory part of a path, its last name taken off, leads through the symbolic link at a place. -/
def DirectoryThrough (t : FileTree) (path : Bytes) (place : Place) : Prop :=
  LeadsThrough t place (base t.home path) (names path).dropLast

/-- Only a link is led through. -/
theorem DirectoryThrough.find?_eq_link {t : FileTree} {path : Bytes} {place : Place}
    (h : t.DirectoryThrough path place) : ∃ target, t.find? place = some (.link target) :=
  LeadsThrough.find?_eq_link h

/-- A path names the same destination whether there is a file more or not. -/
theorem AddsFile.destination_iff {t s : FileTree} {place : Place} {mode : Nat} {content : Bytes}
    (h : AddsFile t s place mode content) {path : Bytes} {front : List Name} {dir : Place} {last : Name} :
    Destination s path front dir last ↔ Destination t path front dir last := by
  constructor
  · rintro ⟨hnames, hfollowed, hdir, hfree⟩
    rw [h.home] at hdir
    exact ⟨hnames, hfollowed, (directoryAt_of_addsFile h).mp hdir,
      fun mode hfind => hfree mode (h.extends.entry _ _ hfind)⟩
  · rintro ⟨hnames, hfollowed, hdir, hfree⟩
    rw [← h.home] at hdir
    refine ⟨hnames, hfollowed, (directoryAt_of_addsFile h).mpr hdir, ?_⟩
    by_cases hplace : dir ++ [last] = place
    · simp [hplace, h.file]
    · rwa [h.others _ hplace]

theorem trim_concat {front : List Name} {last : Name} (h : last ≠ []) :
    ((front ++ [last]).reverse.dropWhile List.isEmpty).reverse = front ++ [last] := by
  simp [h]

theorem ne_nil_of_getLast?_trim {ns : List Name} {last : Name}
    (h : (ns.reverse.dropWhile List.isEmpty).reverse.getLast? = some last) : last ≠ [] := by
  rw [List.getLast?_reverse] at h
  have hhead := List.head?_dropWhile_not List.isEmpty ns.reverse
  rw [h] at hhead
  simpa using hhead

theorem destination_eq_ok_iff {t : FileTree} {path : Bytes} {place : Place} :
    t.destination path = .ok place ↔
      ∃ front dir last, Destination t path front dir last ∧ place = dir ++ [last] := by
  unfold destination
  constructor
  · intro h
    dsimp only at h
    split at h
    next => cases h
    next last hlast =>
      simp only [bind_eq_ok_iff, unless_eq_ok_iff, not_or, not_holdsDirectory_iff, ne_eq,
        Classical.not_not] at h
      obtain ⟨dir, hdir, ⟨hhere, hup⟩, hshort, htrim, hfree, h⟩ := h
      cases h
      rw [htrim] at hdir hlast
      have hne : last ≠ [] := ne_nil_of_getLast?_trim (htrim.symm ▸ hlast)
      have hconcat : names path = (names path).dropLast ++ [last] :=
        (List.dropLast_append_getLast? last hlast).symm
      exact ⟨_, dir, last, ⟨hconcat, ⟨not_or.mpr ⟨hne, hhere⟩, hup, hshort⟩, hdir, hfree⟩, rfl⟩
  · rintro ⟨front, dir, last, ⟨hnames, ⟨hstays, hup, hshort⟩, hdir, hfree⟩, rfl⟩
    obtain ⟨hne, hhere⟩ := not_or.mp hstays
    have hplace : t.holdsDirectory (dir ++ [last]) = false :=
      Bool.eq_false_iff.mpr (not_holdsDirectory_iff.mpr hfree)
    simp only [hnames, trim_concat hne, List.getLast?_concat, List.dropLast_concat, hdir]
    simp [hhere, hup, hshort, hplace, bind, Except.bind, pure, Except.pure]

namespace Destination

variable {t : FileTree} {path : Bytes} {front : List Name} {dir : Place} {last : Name}

theorem ne_nil : dir ++ [last] ≠ [] := by
  simp

/-- The place of a destination is the one that the path leads to, its last link not followed. -/
theorem place_resolve (h : Destination t path front dir last) (hpath : checkPath path = .ok ()) :
    (t.resolve false path).map Found.place = .ok (dir ++ [last]) := by
  obtain ⟨left, hresolve⟩ := resolve_of_directoryAt hpath h.names_eq h.directory false
  rw [hresolve, walk_cons h.followed]
  rcases hfind : t.find? (dir ++ [last]) with _ | _ | mode | _
  · rfl
  · rfl
  · exact absurd hfind (h.free mode)
  · rfl

/-! ## Files at a destination -/

theorem addsFile (mode : Nat) (content : Bytes) :
    AddsFile (t.erase (dir ++ [last])) (t.put (dir ++ [last]) (.file mode content)) (dir ++ [last]) mode
      content where
  home := rfl
  vacant := find?_erase_self ne_nil t
  file := find?_put_self ne_nil t _
  others _ hne := by rw [find?_put_of_ne hne, find?_erase_of_ne hne]

theorem directoryThrough_iff (h : Destination t path front dir last) {place : Place} :
    t.DirectoryThrough path place ↔ LeadsThrough t place (base t.home path) front := by
  rw [DirectoryThrough, h.names_eq, List.dropLast_concat]

/-- Without the entry at the destination, the names before the last lead to the same directory or nowhere. -/
theorem directoryAt_erase (h : Destination t path front dir last) {found : Place}
    (hfound : (t.erase (dir ++ [last])).directoryAt (base t.home path) front = .ok found) :
    found = dir := by
  obtain ⟨mode, hfound⟩ := directoryAt_eq_ok_iff.mp hfound
  obtain ⟨mode', hdir⟩ := directoryAt_eq_ok_iff.mp h.directory
  have hsame := (walk_of_extends (extends_erase ne_nil h.free) hfound).symm.trans hdir
  cases hsame
  rfl

/-- They lead to the same directory exactly if they do not lead through a link at the destination. -/
theorem directoryAt_erase_iff (h : Destination t path front dir last) :
    (t.erase (dir ++ [last])).directoryAt (base t.home path) front = .ok dir ↔
      ¬ t.DirectoryThrough path (dir ++ [last]) := by
  rw [h.directoryThrough_iff, directoryAt_eq_ok_iff]
  constructor
  · rintro ⟨mode, hdir⟩ hthrough
    exact hthrough.walk_erase_ne ne_nil maxLinks dir mode hdir
  · intro hthrough
    obtain ⟨mode, hdir⟩ := directoryAt_eq_ok_iff.mp h.directory
    exact ⟨mode, walk_erase_of_not_leadsThrough ne_nil h.free hthrough hdir⟩

/-- After a file is put at its destination, the path leads to that file or nowhere: nowhere if the way to the
directory was by the link that the file takes the place of. -/
theorem resolve_put (h : Destination t path front dir last) (hpath : checkPath path = .ok ())
    (mode : Nat) (content : Bytes) :
    (∀ f, (t.put (dir ++ [last]) (.file mode content)).resolve true path = .ok f →
        f = .entry (dir ++ [last]) (.file mode content)) ∧
      ((∃ f, (t.put (dir ++ [last]) (.file mode content)).resolve true path = .ok f) ↔
        ¬ t.DirectoryThrough path (dir ++ [last])) := by
  have hadds : AddsFile (t.erase (dir ++ [last])) (t.put (dir ++ [last]) (.file mode content))
    (dir ++ [last]) mode content := addsFile mode content
  have hleads (hdir : (t.put (dir ++ [last]) (.file mode content)).directoryAt (base t.home path) front =
      .ok dir) : (t.put (dir ++ [last]) (.file mode content)).resolve true path =
        .ok (.entry (dir ++ [last]) (.file mode content)) := by
    obtain ⟨left, hresolve⟩ := resolve_of_directoryAt hpath h.names_eq hdir true
    rw [hresolve, walk_cons h.followed, hadds.file]
    rfl
  have hdir {f : Found} (hf : (t.put (dir ++ [last]) (.file mode content)).resolve true path = .ok f) :
      (t.erase (dir ++ [last])).directoryAt (base t.home path) front = .ok dir := by
    obtain ⟨found, hafter⟩ := directoryAt_of_resolve hpath h.names_eq hf
    have hbefore := (directoryAt_of_addsFile hadds).mp hafter
    rwa [h.directoryAt_erase hbefore] at hbefore
  refine ⟨?_, ?_, ?_⟩
  · intro f hf
    have hentry := hleads ((directoryAt_of_addsFile hadds).mpr (hdir hf))
    exact Except.ok.inj (hf.symm.trans hentry)
  · rintro ⟨f, hf⟩
    exact h.directoryAt_erase_iff.mp (hdir hf)
  · intro hthrough
    exact ⟨_, hleads ((directoryAt_of_addsFile hadds).mpr (h.directoryAt_erase_iff.mpr hthrough))⟩

/-- What is read there afterwards is the content of that file. -/
theorem read_put (h : Destination t path front dir last) (hpath : checkPath path = .ok ()) {mode : Nat}
    {content found : Bytes} :
    (t.put (dir ++ [last]) (.file mode content)).read path = .ok found ↔
      found = content ∧ ¬ t.DirectoryThrough path (dir ++ [last]) := by
  obtain ⟨hfile, hthrough⟩ := h.resolve_put hpath mode content
  rw [read_eq_ok_iff, ← hthrough]
  constructor
  · rintro ⟨place, mode', hresolve⟩
    have hentry := hfile _ hresolve
    simp only [Found.entry.injEq, Entry.file.injEq] at hentry
    exact ⟨hentry.2.2, _, hresolve⟩
  · rintro ⟨rfl, f, hresolve⟩
    cases hfile f hresolve
    exact ⟨_, _, hresolve⟩

/-- The permission bits that are found there afterwards are those of that file. -/
theorem mode?_put (h : Destination t path front dir last) (hpath : checkPath path = .ok ())
    {mode : Nat} {content : Bytes} (hthrough : ¬ t.DirectoryThrough path (dir ++ [last])) :
    (t.put (dir ++ [last]) (.file mode content)).mode? path = some mode := by
  obtain ⟨hfile, hfound⟩ := h.resolve_put hpath mode content
  obtain ⟨f, hf⟩ := hfound.mpr hthrough
  rw [FileTree.mode?, hf, hfile f hf]

end Destination

end EventScript.FileTree
