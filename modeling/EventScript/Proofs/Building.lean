import EventScript.Build
import EventScript.Proofs.Replacement

/-!
# Jobs on disks

* `runOn_eq`: a job does one thing after another, and only the last of them, the replacement of the output,
  touches the tree.
* `runOn_atomic`: a job that fails leaves the tree unchanged.
-/

namespace EventScript

open FileTree (Disk)

/-! ## Faults with a file -/

namespace Table

/-- The fault of a malformed table names no file. -/
theorem path_eq_none_of_rows {format : Format} {input : Bytes} {fault : Fault}
    (h : Table.rows format input = .error fault) : fault.path = none := by
  obtain ⟨d, -, rfl⟩ := Outcome.mapError_eq_error_iff.mp h
  cases d <;> rfl

theorem mapError_orInFile_rows (format : Format) (input path : Bytes) :
    (Table.rows format input).mapError (·.orInFile path) =
      (Table.rows format input).mapError (·.inFile path) := by
  cases h : Table.rows format input with
  | ok rows => rfl
  | error fault =>
    have hpath : ¬ fault.path.isSome := by simp [path_eq_none_of_rows h]
    exact congrArg Except.error (if_neg hpath)

end Table

/-! ## Stages of a job -/

section

open FileTree (run_bind run_adapt run_mk_pure)

variable (disk : Disk) (t : FileTree) (path : Bytes)

theorem run_readRows (format : Table.Format) :
    (@readRows _ _ _ disk.store format path).run.run t =
      match t.read path with
      | .error e => (.error (e.readFault "input" path), t)
      | .ok content => ((Table.rows format content).mapError (·.inFile path), t) := by
  have hread : (ExceptT.mk (@FileStore.read _ _ disk.store path)).run.run t = (t.read path, t) := rfl
  unfold readRows
  simp only [run_bind, run_adapt, run_mk_pure, hread, Table.mapError_orInFile_rows]
  cases t.read path <;> rfl

theorem run_writeScript (script : Bytes) (records : Nat) :
    (@writeScript _ _ _ disk.store path script records).run.run t =
      match disk.replace path script t with
      | (.error e, t') => (.error (e.writeFault path), t')
      | (.ok (), t') => (.ok ⟨path, records, script.length⟩, t') := by
  unfold writeScript
  rw [run_bind, run_adapt]
  unfold Disk.replace
  rcases (@FileStore.replace _ _ _ disk.store path script).run.run t with ⟨_ | _, t'⟩ <;> rfl

end

namespace Job

open FileTree (run_bind run_mk_pure)

/-- What a job comes to on a disk, and the tree that it leaves. -/
def runOn (disk : Disk) (job : Job) (t : FileTree) : Except Fault Build × FileTree :=
  (@Job.run _ _ _ disk.store job).run.run t

example (job : Job) (t : FileTree) :
    job.runOn .reliable t = (job.run : ExceptT Fault (StateM FileTree) Build).run.run t :=
  rfl

/-- What a job compiles to, and in which format its table is. -/
def compiled (job : Job) (t : FileTree) : Except Fault (Table.Format × Compiled) := do
  let format ← job.resolveFormat
  let content ← (t.read job.input).mapError (FileError.readFault "input" job.input)
  let c ← (Compile.compileTable format content).mapError (·.inFile job.input)
  return (format, c)

/-- A job compiles its table and then replaces its output. -/
theorem runOn_eq (disk : Disk) (job : Job) (t : FileTree) :
    job.runOn disk t =
      match job.compiled t with
      | .error fault => (.error fault, t)
      | .ok (format, c) =>
        match disk.replace job.output c.script t with
        | (.error e, t') => (.error (e.writeFault job.output), t')
        | (.ok (), t') => (.ok ⟨job.input, job.output, format, c.records, c.script.length⟩, t') := by
  unfold runOn Job.run compiled Compile.compileTable
  simp only [run_bind, run_mk_pure, run_readRows, run_writeScript]
  -- one case for each stage that may fail; until the last one the tree is `t` on both sides
  cases job.resolveFormat with
  | error fault => rfl
  | ok format =>
    simp only [bind, Except.bind]
    cases t.read job.input with
    | error e => rfl
    | ok content =>
      simp only [Except.mapError]
      cases Table.rows format content with
      | error fault => rfl
      | ok rows =>
        dsimp only
        cases Compile.compileRows rows with
        | error fault => rfl
        | ok c =>
          simp only [pure, Except.pure]
          rcases disk.replace job.output c.script t with ⟨_ | _, t'⟩ <;> rfl

theorem tree_eq_of_runOn_error {disk : Disk} {job : Job} {t t' : FileTree} {fault : Fault}
    (h : job.runOn disk t = (.error fault, t')) : t' = t := by
  rw [runOn_eq] at h
  revert h
  rcases job.compiled t with _ | ⟨format, c⟩
  · intro h
    exact (Prod.mk.inj h).2.symm
  · dsimp only
    rcases hreplace : disk.replace job.output c.script t with ⟨e | _, s⟩
    · intro h
      rw [← (Prod.mk.inj h).2]
      exact Disk.replace_atomic hreplace
    · intro h
      cases (Prod.mk.inj h).1

/-- **Atomicity.** Whatever a job fails of, on whatever disk, it leaves the tree as it was. If it fails because
the content of its input does not compile, it ends in the very fault of compiling that content, with the path
of the input in it. -/
theorem runOn_atomic (disk : Disk) (job : Job) (t : FileTree) :
    (∀ fault t', job.runOn disk t = (.error fault, t') → t' = t) ∧
      ∀ format content fault, job.resolveFormat = .ok format → t.read job.input = .ok content →
        Compile.compileTable format content = .error fault →
        job.runOn disk t = (.error { fault with path := some job.input }, t) := by
  constructor
  · intro fault t' h
    exact tree_eq_of_runOn_error h
  · intro format content fault hformat hread hcompile
    have hcompiled : job.compiled t = .error { fault with path := some job.input } := by
      simp only [compiled, hformat, hread, hcompile, bind, Except.bind, Except.mapError, Fault.inFile]
    rw [runOn_eq, hcompiled]

/-- A tree with a table and, in the place of its script, a directory. -/
def directoryInPlace : FileTree :=
  (FileTree.fresh.write (Utf8.encode "a.csv") (Utf8.encode "0,a,b,c,d,e") none).makeDirectories
    (Utf8.encode "a.sdf")

/-- A tree with a table whose second row is short and, in the place of its script, another file. -/
def shortRow : FileTree :=
  (FileTree.fresh.write (Utf8.encode "a.csv") (Utf8.encode "0,a,b,c,d,e\n1,f") none).write
    (Utf8.encode "a.sdf") (Utf8.encode "kept") none

/-- A script cannot take the place of a directory, which shows only when it has been written beside it. A short
row is told together with the path of its table. -/
theorem runOn_atomic_twice :
    (Job.ofInput (Utf8.encode "a.csv")).runOn .reliable directoryInPlace =
        (.error (FileError.isDirectory.writeFault (Utf8.encode "a.sdf")), directoryInPlace) ∧
      ∃ fault, Compile.compileTable .csv (Utf8.encode "0,a,b,c,d,e\n1,f") = .error fault ∧
        fault.kind = .rowArity ∧ fault.row = some 2 ∧ fault.path = none ∧
        (Job.ofInput (Utf8.encode "a.csv")).runOn .reliable shortRow =
          (.error { fault with path := some (Utf8.encode "a.csv") }, shortRow) := by
  constructor
  · have hfault : ((Job.ofInput (Utf8.encode "a.csv")).runOn .reliable directoryInPlace).1 =
        .error (FileError.isDirectory.writeFault (Utf8.encode "a.sdf")) := by
      cbv
    exact Prod.ext hfault ((runOn_atomic .reliable _ _).1 _ _ (Prod.ext hfault rfl))
  · have hcompile : Compile.compileTable .csv (Utf8.encode "0,a,b,c,d,e\n1,f") =
        .error (RowDefect.fault 2 (.arity 2 (some 2))) := by
      cbv
    have hread : shortRow.read (Utf8.encode "a.csv") = .ok (Utf8.encode "0,a,b,c,d,e\n1,f") := by
      cbv
    exact ⟨_, hcompile, rfl, rfl, rfl, (runOn_atomic .reliable _ _).2 .csv _ _ rfl hread hcompile⟩

end Job

end EventScript
