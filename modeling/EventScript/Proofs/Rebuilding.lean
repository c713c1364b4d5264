import EventScript.Proofs.OneEntry
import EventScript.Proofs.WorkDirectory

/-!
# Building again

A job that has succeeded finds another tree when it is done once more: its output is a file now, whatever it was
before, and has the permission bits that were copied there. The same script takes that file's place, with the
bits of that file, so nothing changes. It can only go wrong where the file has taken the place of a link by which
the output path led to it.

* `Disk.replace_eq_ok_iff`: when no operation fails but by the tree, a replacement succeeds exactly if its path
  names a destination.
* `Destination.replaced_put_iff`: replacing a file by itself leaves the tree as it is.
* `Job.runOn_again`: doing a job twice comes to the same as doing it once.
* `Job.runOn_again_fails_through_replaced_link`: a job that succeeds once only.
-/

namespace EventScript

namespace FileTree

/-! ## Disks that fail nothing -/

/-- Only those operations fail that the tree prevents. -/
def Disk.Faultless (disk : Disk) : Prop :=
  ∀ op t, disk.failure? op t = none

theorem Disk.faultless_reliable : Disk.reliable.Faultless :=
  fun _ _ => rfl

section

variable {α : Type} {P : FileTree → Prop} {disk : Disk} {op : Operation}

theorem change_succeeds {Q : α → FileTree → Prop} {f : FileTree → Except FileError (α × FileTree)}
    (hdisk : disk.Faultless) (hf : ∀ t, P t → ∃ a t', f t = .ok (a, t') ∧ Q a t') :
    Leads P (ExceptT.mk (disk.change op f)) Q fun _ _ => False := by
  intro t ht
  obtain ⟨a, t', hft, hq⟩ := hf t ht
  rw [ExceptT.run_mk, run_change, hdisk op t, hft]
  exact hq

/-- An operation that gives only another tree. -/
theorem change_map_succeeds {Q : FileTree → Prop} {f : FileTree → Except FileError FileTree}
    (hdisk : disk.Faultless) (hf : ∀ t, P t → ∃ t', f t = .ok t' ∧ Q t') :
    Leads P (ExceptT.mk (disk.change op fun t => (f t).map ((), ·))) (fun _ => Q) fun _ _ => False := by
  refine change_succeeds hdisk fun t ht => ?_
  obtain ⟨t', hft, hq⟩ := hf t ht
  exact ⟨(), t', by rw [hft]; rfl, hq⟩

end

namespace Beside

variable {t s : FileTree} {place : Place}

theorem setMode (h : Beside t place s) (mode : Nat) :
    ∃ s', s.setMode place mode = .ok s' ∧ Beside t place s' := by
  obtain ⟨_, content, hs⟩ := h
  have hset : s.setMode place mode = .ok (s.put place (.file mode content)) := by
    rw [FileTree.setMode, hs.find?_eq]
  exact ⟨_, hset, (hs.setMode hset).beside⟩

theorem append (h : Beside t place s) (more : Bytes) :
    ∃ s', s.append place more = .ok s' ∧ Beside t place s' := by
  obtain ⟨mode, content, hs⟩ := h
  have happend : s.append place more = .ok (s.put place (.file mode (content ++ more))) := by
    rw [FileTree.append, hs.find?_eq]
  exact ⟨_, happend, (hs.append happend).beside⟩

/-- The new file can be moved to any destination that there is without it. -/
theorem moveTo (h : Beside t place s) {path : Bytes} {front : List Name} {dir : Place} {last : Name}
    (hdest : Destination t path front dir last) (hpath : checkPath path = .ok ()) :
    ∃ s', s.moveTo place path = .ok s' := by
  obtain ⟨mode, content, hs⟩ := h
  have hthere : s.destination path = .ok (dir ++ [last]) :=
    destination_eq_ok_iff.mpr ⟨front, dir, last, hs.addsFile.destination_iff.mpr hdest, rfl⟩
  rw [FileTree.moveTo, hs.find?_eq]
  exact ⟨_, by rw [hpath, hthere]; rfl⟩

end Beside

section

variable {disk : Disk} {t : FileTree} {path : Bytes} {front : List Name} {dir : Place} {last : Name}

theorem copyMode_succeeds (hdisk : disk.Faultless) (t : FileTree) (place : Place) (path : Bytes) :
    Leads (Beside t place) (@FileStore.copyMode _ _ _ disk.store place path) (fun _ => Beside t place)
      fun _ _ => False := by
  refine Leads.bind (Q := fun _ => Beside t place) (.lift fun _ hs => hs) ?_
  rintro (_ | mode)
  · exact .pure fun _ hs => hs
  · exact change_map_succeeds hdisk fun _ hs => hs.setMode mode

theorem complete_succeeds (hdisk : disk.Faultless) (hdest : Destination t path front dir last)
    (hpath : checkPath path = .ok ()) (place : Place) (content : Bytes) :
    Leads (Beside t place) (@FileStore.complete _ _ _ disk.store place path content) (fun _ _ => True)
      fun _ _ => False := by
  refine (copyMode_succeeds hdisk t place path).bind fun _ => ?_
  refine Leads.bind (Q := fun _ => Beside t place)
    (change_map_succeeds hdisk fun _ hs => hs.append content) fun _ => ?_
  refine Leads.bind (Q := fun _ => Beside t place)
    (change_succeeds hdisk fun s hs => ⟨(), s, rfl, hs⟩) fun _ => ?_
  refine change_map_succeeds hdisk fun s hs => ?_
  obtain ⟨s', hmove⟩ := hs.moveTo hdest hpath
  exact ⟨s', hmove, trivial⟩

theorem replace_succeeds (hdisk : disk.Faultless) (hdest : Destination t path front dir last)
    (hpath : checkPath path = .ok ()) (content : Bytes) :
    Leads (· = t) (@FileStore.replace _ _ _ disk.store path content) (fun _ _ => True)
      fun _ _ => False := by
  obtain ⟨hwork, hdir⟩ := hdest.directoryAt_workDirectory hpath
  refine Leads.bind (Q := Beside t) (change_succeeds hdisk ?_) fun place => ?_
  · rintro s rfl
    exact ⟨_, _, by rw [makeTemporary, hwork, hdir]; rfl, _, _, disk.name_unused s dir, rfl⟩
  · exact (complete_succeeds hdisk hdest hpath place content).tryCatch fun _ _ hfalse => hfalse.elim

end

/-- **Replacing.** When no operation fails but by the tree, a replacement succeeds exactly if its path names a
destination, and it leaves the tree with that destination changed. -/
theorem Disk.replace_eq_ok_iff {disk : Disk} (hdisk : disk.Faultless) {path content : Bytes}
    {t t' : FileTree} : disk.replace path content t = (.ok (), t') ↔ Replaced t path content t' := by
  constructor
  · exact replaced_of_replace
  · rintro ⟨hpath, front, dir, last, hdest, rfl⟩
    have hleads := replace_succeeds hdisk hdest hpath content t rfl
    rcases hreplace : disk.replace path content t with ⟨e | _, s⟩
    · unfold replace at hreplace
      rw [hreplace] at hleads
      exact hleads.elim
    · obtain ⟨-, front', dir', last', hdest', rfl⟩ := replaced_of_replace hreplace
      have hsame := (hdest'.place_resolve hpath).symm.trans (hdest.place_resolve hpath)
      rw [Except.ok.inj hsame]

/-! ## Replacing again -/

namespace Destination

variable {t t' : FileTree} {path : Bytes} {front : List Name} {dir : Place} {last : Name} {mode : Nat}
  {content : Bytes}

/-- A file that was put at a destination is replaced by itself, provided that the path still leads there. -/
theorem replaced_put_iff (h : Destination t path front dir last) (hpath : checkPath path = .ok ()) :
    Replaced (t.put (dir ++ [last]) (.file mode content)) path content t' ↔
      t' = t.put (dir ++ [last]) (.file mode content) ∧ ¬ t.DirectoryThrough path (dir ++ [last]) := by
  have hadds : AddsFile (t.erase (dir ++ [last])) (t.put (dir ++ [last]) (.file mode content))
    (dir ++ [last]) mode content := addsFile mode content
  -- the file is put over itself once its bits are found again
  have hsame (hthrough : ¬ t.DirectoryThrough path (dir ++ [last])) :
      (t.put (dir ++ [last]) (.file mode content)).put (dir ++ [last])
          (.file (((t.put (dir ++ [last]) (.file mode content)).mode? path).getD newFileMode) content) =
        t.put (dir ++ [last]) (.file mode content) := by
    rw [h.mode?_put hpath hthrough, put_put]
    rfl
  constructor
  · rintro ⟨-, front', dir', last', hdest, rfl⟩
    obtain ⟨rfl, hlast⟩ := List.append_inj' (hdest.names_eq.symm.trans h.names_eq) rfl
    cases hlast
    have hdir := (hadds.destination_iff.mp hdest).directory
    cases h.directoryAt_erase hdir
    have hthrough := h.directoryAt_erase_iff.mp hdir
    exact ⟨hsame hthrough, hthrough⟩
  · rintro ⟨rfl, hthrough⟩
    have hdir := h.directoryAt_erase_iff.mpr hthrough
    have hfree : ∀ mode, (t.erase (dir ++ [last])).find? (dir ++ [last]) ≠ some (.directory mode) := by
      simp [hadds.vacant]
    have hdest := hadds.destination_iff.mpr ⟨h.names_eq, h.followed, hdir, hfree⟩
    exact ⟨hpath, front, dir, last, hdest, (hsame hthrough).symm⟩

end Destination

end FileTree

/-! ## Jobs done again -/

open FileTree (Disk Found Replaced Destination)

namespace Job

/-- What a job compiles to depends on the content of its input only. -/
theorem compiled_congr {job : Job} {t t' : FileTree} (h : t'.read job.input = t.read job.input) :
    job.compiled t' = job.compiled t := by
  rw [compiled, compiled, h]

/-- What a job comes to whose table compiles, on a disk that fails nothing. -/
theorem runOn_eq_ok_iff {disk : Disk} (hdisk : disk.Faultless) {job : Job} {t t' : FileTree}
    {format : Table.Format} {c : Compiled} (hcompiled : job.compiled t = .ok (format, c)) {b : Build} :
    job.runOn disk t = (.ok b, t') ↔
      b = ⟨job.input, job.output, format, c.records, c.script.length⟩ ∧
        Replaced t job.output c.script t' := by
  rw [runOn_eq, hcompiled, ← Disk.replace_eq_ok_iff hdisk]
  dsimp only
  rcases disk.replace job.output c.script t with ⟨e | _, s⟩
  · simp
  · simp [eq_comm]

/-- A job whose table compiles fails of nothing but writing the script. -/
theorem writeFault_of_runOn_error {disk : Disk} {job : Job} {t t' : FileTree} {format : Table.Format}
    {c : Compiled} (hcompiled : job.compiled t = .ok (format, c)) {fault : Fault}
    (h : job.runOn disk t = (.error fault, t')) : ∃ e : FileError, fault = e.writeFault job.output := by
  rw [runOn_eq, hcompiled] at h
  dsimp only at h
  rcases hreplace : disk.replace job.output c.script t with ⟨e | _, s⟩
  · rw [hreplace] at h
    cases h
    exact ⟨e, rfl⟩
  · rw [hreplace] at h
    cases h

/-- **Building again.** A job that has succeeded and whose input still has the same content is done again on a disk
on which only those operations fail that the tree prevents. It ends in the same report and leaves the tree, contents
and permission bits, as it found it, exactly if the directory part of the output did not lead through the entry
that was replaced. If it did, that entry was a symbolic link, the script cannot be written, and the tree is left
as it was found as well. -/
theorem runOn_again {disk disk' : Disk} (hdisk : disk'.Faultless) {job : Job} {t t' : FileTree} {b : Build}
    (h : job.runOn disk t = (.ok b, t')) (hread : t'.read job.input = t.read job.input) :
    ∃ there, (t.resolve false job.output).map Found.place = .ok there ∧
      (job.runOn disk' t' = (.ok b, t') ↔ ¬ t.DirectoryThrough job.output there) ∧
      (t.DirectoryThrough job.output there →
        (∃ target, t.find? there = some (.link target)) ∧
        ∃ fault, fault.kind = .write ∧ fault.path = some job.output ∧
          job.runOn disk' t' = (.error fault, t')) := by
  obtain ⟨c, hcompiled, ⟨hpath, front, dir, last, hdest, ht'⟩, hb⟩ := replaced_of_runOn h
  rw [← compiled_congr hread] at hcompiled
  have hreplaced (s : FileTree) : Replaced t' job.output c.script s ↔
      s = t' ∧ ¬ t.DirectoryThrough job.output (dir ++ [last]) := by
    rw [ht']
    exact hdest.replaced_put_iff hpath
  have hdone (b' : Build) (s : FileTree) : job.runOn disk' t' = (.ok b', s) ↔
      b' = b ∧ s = t' ∧ ¬ t.DirectoryThrough job.output (dir ++ [last]) := by
    rw [runOn_eq_ok_iff hdisk hcompiled, hreplaced, hb]
  refine ⟨dir ++ [last], hdest.place_resolve hpath, ?_, ?_⟩
  · rw [hdone]
    simp only [true_and]
  · intro hthrough
    refine ⟨hthrough.find?_eq_link, ?_⟩
    rcases hrun : job.runOn disk' t' with ⟨fault | b', s⟩
    · obtain ⟨e, rfl⟩ := writeFault_of_runOn_error hcompiled hrun
      exact ⟨_, rfl, rfl, by rw [tree_eq_of_runOn_error hrun]⟩
    · exact absurd hthrough ((hdone b' s).mp hrun).2.2

/-- The second script takes the place of the first, and the permission bits that the first had from a directory. -/
theorem runOn_again_onto_link :
    ∃ b t', Job.runOn .reliable ⟨Utf8.encode "a.csv", Utf8.encode "l", none⟩ (linkedDirectory 0o700) = (.ok b, t') ∧
      t'.read (Utf8.encode "a.csv") = (linkedDirectory 0o700).read (Utf8.encode "a.csv") ∧
      Job.runOn .reliable ⟨Utf8.encode "a.csv", Utf8.encode "l", none⟩ t' = (.ok b, t') := by
  have hread : (Job.runOn .reliable ⟨Utf8.encode "a.csv", Utf8.encode "l", none⟩
        (linkedDirectory 0o700)).2.read (Utf8.encode "a.csv") =
      (linkedDirectory 0o700).read (Utf8.encode "a.csv") := by
    cbv
  obtain ⟨there, hthere, hagain, -⟩ :=
    runOn_again Disk.faultless_reliable (Prod.ext report_onto_link rfl) hread
  cases Except.ok.inj (hthere.symm.trans place_link)
  exact ⟨_, _, Prod.ext report_onto_link rfl, hread, hagain.mpr (not_directoryThrough_link _ _)⟩

/-- Once a script has taken the place of the link by which its output path led there, the job cannot be done
again. -/
theorem runOn_again_fails_through_replaced_link :
    ∃ b t', Job.runOn .reliable ⟨Utf8.encode "a.csv", Utf8.encode "l/../l", none⟩ (linkedDirectory 0o755) =
        (.ok b, t') ∧
      t'.read (Utf8.encode "a.csv") = (linkedDirectory 0o755).read (Utf8.encode "a.csv") ∧
      Job.runOn .reliable ⟨Utf8.encode "a.csv", Utf8.encode "l/../l", none⟩ t' =
        (.error (FileError.notDirectory.writeFault (Utf8.encode "l/../l")), t') := by
  have hread : (Job.runOn .reliable ⟨Utf8.encode "a.csv", Utf8.encode "l/../l", none⟩
        (linkedDirectory 0o755)).2.read (Utf8.encode "a.csv") =
      (linkedDirectory 0o755).read (Utf8.encode "a.csv") := by
    cbv
  have hagain : (Job.runOn .reliable ⟨Utf8.encode "a.csv", Utf8.encode "l/../l", none⟩ (Job.runOn .reliable
        ⟨Utf8.encode "a.csv", Utf8.encode "l/../l", none⟩ (linkedDirectory 0o755)).2).1 =
      .error (FileError.notDirectory.writeFault (Utf8.encode "l/../l")) := by
    cbv
  exact ⟨_, _, Prod.ext report_through_link rfl, hread,
    Prod.ext hagain (tree_eq_of_runOn_error (Prod.ext hagain rfl))⟩

end Job

end EventScript
