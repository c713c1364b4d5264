import EventScript.Proofs.Building
import EventScript.Proofs.Compiling

/-!
# The entry that a job changes

* `replaced_of_runOn`: a job that succeeds leaves the tree with the script of its table at the destination
  of its output, and nothing else changed.
* `runOn_one_entry`: what a job that succeeds changes, what it reports, and what inspecting its output gives.
* `inspectOn_through_replaced_link`: a job that succeeds whose output cannot be inspected.
-/

namespace EventScript

open FileTree (Disk Found Replaced Destination newFileMode)
open Outcome

/-! ## Inspecting files -/

/-- What inspecting a file comes to on a disk, and the tree that it leaves. -/
def inspectOn (disk : Disk) (path : Bytes) (t : FileTree) : Except Fault Script × FileTree :=
  (@inspectFile _ _ _ disk.store path).run.run t

/-- The script that a file in a tree holds. -/
def inspected (path : Bytes) (t : FileTree) : Except Fault Script := do
  let content ← (t.read path).mapError (FileError.readFault "script" path)
  (Script.decode content).mapError fun c => c.fault.inFile path

theorem inspectOn_eq (disk : Disk) (path : Bytes) (t : FileTree) :
    inspectOn disk path t = (inspected path t, t) := by
  have hread : (ExceptT.mk (@FileStore.read _ _ disk.store path)).run.run t = (t.read path, t) := rfl
  unfold inspectOn inspectFile inspected
  simp only [FileTree.run_bind, FileTree.run_adapt, FileTree.run_mk_pure, hread]
  cases t.read path <;> rfl

theorem inspected_eq_ok_iff {path : Bytes} {t : FileTree} {s : Script} :
    inspected path t = .ok s ↔ ∃ content, t.read path = .ok content ∧ Script.decode content = .ok s := by
  simp only [inspected, bind_eq_ok_iff, mapError_eq_ok_iff]

namespace Job

/-! ## What a job that succeeds leaves -/

theorem replaced_of_runOn {disk : Disk} {job : Job} {t t' : FileTree} {b : Build}
    (h : job.runOn disk t = (.ok b, t')) :
    ∃ c, job.compiled t = .ok (b.format, c) ∧ Replaced t job.output c.script t' ∧
      b = ⟨job.input, job.output, b.format, c.records, c.script.length⟩ := by
  rw [runOn_eq] at h
  rcases hcompiled : job.compiled t with fault | ⟨format, c⟩
  · simp [hcompiled] at h
  · rw [hcompiled] at h
    dsimp only at h
    rcases hreplace : disk.replace job.output c.script t with ⟨e | _, s⟩
    · simp [hreplace] at h
    · rw [hreplace] at h
      cases h
      exact ⟨c, rfl, Disk.replaced_of_replace hreplace, rfl⟩

theorem compiled_eq_ok_iff {job : Job} {t : FileTree} {format : Table.Format} {c : Compiled} :
    job.compiled t = .ok (format, c) ↔
      job.resolveFormat = .ok format ∧
        ∃ content, t.read job.input = .ok content ∧ Compile.compileTable format content = .ok c := by
  simp only [compiled, bind_eq_ok_iff, mapError_eq_ok_iff]
  constructor
  · rintro ⟨format', hformat, content, hread, c', hcompile, h⟩
    cases h
    exact ⟨hformat, content, hread, hcompile⟩
  · rintro ⟨hformat, content, hread, hcompile⟩
    exact ⟨format, hformat, content, hread, c, hcompile, rfl⟩

/-- **One entry.** A job that succeeds leaves one entry of the tree changed: the one that its output names, the last
link not followed, which was no directory. There is a file now that holds what the former content of the input
compiles to, with the permission bits of what the output led to before, links followed, or those of a new file
if it led nowhere. The job reports the length of that file and the count in its header.

Inspecting the output afterwards gives the events of the rows of the input and nothing else, and it gives them
exactly if the directory part of the output did not lead through the entry that was replaced. Only a symbolic link
is led through. -/
theorem runOn_one_entry {disk : Disk} {job : Job} {t t' : FileTree} {b : Build}
    (h : job.runOn disk t = (.ok b, t')) :
    ∃ there content c rows s,
      t.read job.input = .ok content ∧ job.resolveFormat = .ok b.format ∧
      Compile.compileTable b.format content = .ok c ∧
      (t.resolve false job.output).map Found.place = .ok there ∧
      (∀ mode, t.find? there ≠ some (.directory mode)) ∧
      t'.find? there = some (.file ((t.mode? job.output).getD 0o644) c.script) ∧
      (∀ place, place ≠ there → t'.find? place = t.find? place) ∧ t'.home = t.home ∧
      b.input = job.input ∧ b.output = job.output ∧
      b.bytes = c.script.length ∧ b.records = c.records ∧
      Script.decode c.script = .ok s ∧ s.header.count.toNat = b.records ∧
      Table.rows b.format content = .ok rows ∧
      List.Forall₂ (fun row e => row.event = .ok e) rows s.events ∧
      (∀ f, inspectOn disk job.output t' = (.ok f, t') ↔
        f = s ∧ ¬ t.DirectoryThrough job.output there) ∧
      (t.DirectoryThrough job.output there → ∃ target, t.find? there = some (.link target)) := by
  obtain ⟨c, hcompiled, ⟨hpath, front, dir, last, hdest, rfl⟩, hb⟩ := replaced_of_runOn h
  obtain ⟨hformat, content, hread, hcompile⟩ := compiled_eq_ok_iff.mp hcompiled
  obtain ⟨rows, es, hrows, hes, -, hlength, hc⟩ := Compile.compileTable_eq_ok_iff.mp hcompile
  have hdecode : Script.decode c.script = .ok (Script.ofEvents es) :=
    Script.decode_eq_ok_iff.mpr ⟨Script.consistent_ofEvents hlength, by rw [hc]⟩
  have hinspect (f : Script) : inspectOn disk job.output
        (t.put (dir ++ [last]) (.file ((t.mode? job.output).getD newFileMode) c.script)) =
          (.ok f, t.put (dir ++ [last]) (.file ((t.mode? job.output).getD newFileMode) c.script)) ↔
      f = Script.ofEvents es ∧ ¬ t.DirectoryThrough job.output (dir ++ [last]) := by
    simp only [inspectOn_eq, Prod.mk.injEq, and_true, inspected_eq_ok_iff, hdest.read_put hpath]
    constructor
    · rintro ⟨found, ⟨rfl, hthrough⟩, hf⟩
      rw [hdecode] at hf
      exact ⟨(Except.ok.inj hf).symm, hthrough⟩
    · rintro ⟨rfl, hthrough⟩
      exact ⟨c.script, ⟨rfl, hthrough⟩, hdecode⟩
  refine ⟨dir ++ [last], content, c, rows, Script.ofEvents es, hread, hformat, hcompile,
    hdest.place_resolve hpath, hdest.free, FileTree.find?_put_self Destination.ne_nil t _,
    fun place hne => FileTree.find?_put_of_ne hne t _, rfl, ?_, ?_, ?_, ?_, hdecode, ?_, hrows,
    Compile.events_eq_ok_iff.mp hes, hinspect, FileTree.DirectoryThrough.find?_eq_link⟩
  · rw [hb]
  · rw [hb]
  · rw [hb]
  · rw [hb]
  · rw [Script.toNat_count_ofEvents hlength, hb, hc]

/-- A tree with a table, a directory that has the given permission bits, and a link to the directory. -/
def linkedDirectory (mode : Nat) : FileTree :=
  ((FileTree.fresh.write (Utf8.encode "a.csv") (Utf8.encode "0,a,b,c,d,e") none).put
    [FileTree.unspoken, Utf8.encode "d"] (.directory mode)).makeLink (Utf8.encode "l") (Utf8.encode "d")

theorem report_onto_link :
    (Job.runOn .reliable ⟨Utf8.encode "a.csv", Utf8.encode "l", none⟩ (linkedDirectory 0o700)).1 =
      .ok ⟨Utf8.encode "a.csv", Utf8.encode "l", .csv, 1, 32⟩ := by
  cbv

theorem report_through_link :
    (Job.runOn .reliable ⟨Utf8.encode "a.csv", Utf8.encode "l/../l", none⟩ (linkedDirectory 0o755)).1 =
      .ok ⟨Utf8.encode "a.csv", Utf8.encode "l/../l", .csv, 1, 32⟩ := by
  cbv

theorem place_link : ((linkedDirectory 0o700).resolve false (Utf8.encode "l")).map Found.place =
    .ok [FileTree.unspoken, Utf8.encode "l"] := by
  cbv

/-- A path of one name has no directory part to lead through anything. -/
theorem not_directoryThrough_link (t : FileTree) (place : Place) :
    ¬ t.DirectoryThrough (Utf8.encode "l") place := by
  have hfront : (FileTree.names (Utf8.encode "l")).dropLast = [] := by
    cbv
  rw [FileTree.DirectoryThrough, hfront]
  intro hthrough
  cases hthrough

/-- A script takes the place of a link to a directory, and the permission bits of that directory, and can be
inspected there. -/
theorem runOn_one_entry_onto_link :
    ∃ b t' script s,
      Job.runOn .reliable ⟨Utf8.encode "a.csv", Utf8.encode "l", none⟩ (linkedDirectory 0o700) = (.ok b, t') ∧
      t'.find? [FileTree.unspoken, Utf8.encode "l"] = some (.file 0o700 script) ∧
      Script.decode script = .ok s ∧ inspectOn .reliable (Utf8.encode "l") t' = (.ok s, t') := by
  obtain ⟨there, content, c, rows, s, -, -, -, hthere, -, hfile, -, -, -, -, -, -, hdecode, -, -, -, hinspect,
    -⟩ := runOn_one_entry (Prod.ext report_onto_link rfl)
  have hmode : (linkedDirectory 0o700).mode? (Utf8.encode "l") = some 0o700 := by
    cbv
  have hsame := Except.ok.inj (hthere.symm.trans place_link)
  rw [hsame, hmode] at hfile
  exact ⟨_, _, c.script, s, Prod.ext report_onto_link rfl, hfile, hdecode,
    (hinspect s).mpr ⟨rfl, not_directoryThrough_link _ _⟩⟩

/-- A script can take the place of the very link by which its output path leads there. -/
theorem inspectOn_through_replaced_link :
    ∃ b t', Job.runOn .reliable ⟨Utf8.encode "a.csv", Utf8.encode "l/../l", none⟩ (linkedDirectory 0o755) =
        (.ok b, t') ∧
      ∀ s, inspectOn .reliable (Utf8.encode "l/../l") t' ≠ (.ok s, t') := by
  have hfault : (inspectOn .reliable (Utf8.encode "l/../l") (Job.runOn .reliable
        ⟨Utf8.encode "a.csv", Utf8.encode "l/../l", none⟩ (linkedDirectory 0o755)).2).1 =
      .error (FileError.notDirectory.readFault "script" (Utf8.encode "l/../l")) := by
    cbv
  refine ⟨_, _, Prod.ext report_through_link rfl, fun s hs => ?_⟩
  rw [hs] at hfault
  cases hfault

end Job

end EventScript
