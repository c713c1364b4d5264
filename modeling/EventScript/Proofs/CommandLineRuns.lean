import EventScript.CommandLine.Run
import EventScript.Proofs.OneEntry

/-!
# Command lines on disks

* `runBuild_eq`: a build settles its doubts in order, and then it is what its job is.
* `runInspect_eq`: an inspection tells what the file holds and leaves the tree as it is.
* `tree_runOnDisk`: a command line leaves the tree as it is or as a job leaves it.
-/

namespace EventScript

open FileTree (Disk)

namespace CommandLine

/-- What is seen of a job that is done. -/
def Outcome.ofBuild (inv : Invocation) : Except Fault Build → Outcome
  | .error fault => .failure inv fault
  | .ok b => .success inv b.json b.lines

/-- What is seen of a run that asks whether to overwrite a file; it does so only if there is a terminal. -/
def Outcome.asking (output : Bytes) (answer : Option Bytes) (o : Outcome) : Outcome :=
  { o with asked := if answer.isSome then overwriteQuestion output else "" }

section

/-- One action after another, when it is known what the first one comes to. -/
theorem run_bind_of_eq {α β : Type} {x : StateM FileTree α} {f : α → StateM FileTree β} {t t' : FileTree}
    {a : α} (h : x.run t = (a, t')) : (x >>= f).run t = (f a).run t' := by
  rw [StateT.run_bind, h]
  rfl

variable (disk : Disk) (inv : Invocation) (t : FileTree)

theorem runJob_eq (job : Job) :
    (@runJob _ _ _ disk.store inv job).run t =
      (.ofBuild inv (job.runOn disk t).1, (job.runOn disk t).2) := by
  have hjob : (@Job.run _ _ _ disk.store job).run.run t =
    ((job.runOn disk t).1, (job.runOn disk t).2) := rfl
  unfold runJob
  rw [run_bind_of_eq hjob]
  cases (job.runOn disk t).1 <;> rfl

/-- A build whose question, if there is one, is answered by `answer`. -/
theorem runBuild_eq (answer : Option Bytes) (job : Job) (yes : Bool) :
    (@runBuild _ _ _ disk.store (fun _ => pure answer) inv job yes).run t =
      match job.resolveFormat with
      | .error fault => (.failure inv fault, t)
      | .ok _ =>
        if t.leadsSomewhere job.input = false then (.failure inv (inputFault job.input), t)
        else if yes || !t.leadsSomewhere job.output then
          (.ofBuild inv (job.runOn disk t).1, (job.runOn disk t).2)
        else
          match judge job.output answer with
          | .error fault => ((Outcome.failure inv fault).asking job.output answer, t)
          | .ok () =>
            ((Outcome.ofBuild inv (job.runOn disk t).1).asking job.output answer, (job.runOn disk t).2) := by
  have hin : (@FileStore.exists? _ _ disk.store job.input).run t = (t.leadsSomewhere job.input, t) := rfl
  have hout : (@FileStore.exists? _ _ disk.store job.output).run t = (t.leadsSomewhere job.output, t) := rfl
  unfold runBuild
  cases job.resolveFormat with
  | error fault => rfl
  | ok format =>
    dsimp only
    rw [run_bind_of_eq hin]
    cases t.leadsSomewhere job.input with
    | false => rfl
    | true =>
      simp only [Bool.not_true, Bool.false_eq_true, if_false]
      rw [run_bind_of_eq hout]
      cases yes || !t.leadsSomewhere job.output with
      | true => exact runJob_eq disk inv t job
      | false =>
        simp only [Bool.false_eq_true, if_false, pure_bind]
        cases judge job.output answer with
        | error fault => rfl
        | ok _ =>
          dsimp only
          rw [run_bind_of_eq (runJob_eq disk inv t job)]
          rfl

theorem runInspect_eq (file : Bytes) :
    (@runInspect _ _ _ disk.store inv file).run t =
      (match inspected file t with
        | .error fault => .failure inv fault
        | .ok s => .success inv (s.json file) (s.lines file), t) := by
  have hinspect : (@inspectFile _ _ _ disk.store file).run.run t = (inspected file t, t) :=
    inspectOn_eq disk file t
  unfold runInspect
  rw [run_bind_of_eq hinspect]
  cases inspected file t <;> rfl

end

/-! ## Whole command lines -/

/-- Runs a command line on a disk. The question, if there is one, is answered by `answer`, or by nobody. -/
def runOnDisk (disk : Disk) (t : FileTree) (answer : Option Bytes) (arguments : List Bytes) :
    Outcome × FileTree :=
  (@run _ _ _ disk.store (fun _ => pure answer) arguments).run t

example (t : FileTree) (typed : Option Bytes) (arguments : List Bytes) :
    runOn t typed arguments = runOnDisk .reliable t (typed.map Terminal.typedLine) arguments :=
  rfl

section

variable {disk : Disk} {t : FileTree} {answer : Option Bytes} {arguments : List Bytes}

theorem runOnDisk_of_stop {stop : Stop} (hparse : parse arguments = .error stop) :
    runOnDisk disk t answer arguments = (.ofStop stop, t) := by
  unfold runOnDisk run
  rw [hparse]
  rfl

theorem runOnDisk_of_invocation {inv : Invocation} (hparse : parse arguments = .ok inv) :
    runOnDisk disk t answer arguments = (@perform _ _ _ disk.store (fun _ => pure answer) inv).run t := by
  unfold runOnDisk run
  rw [hparse]

theorem runOnDisk_of_build {inv : Invocation} {input : Bytes} {output : Option Bytes}
    {format : Option Table.Format} {yes : Bool} (hparse : parse arguments = .ok inv)
    (hcommand : inv.command = .build input output format yes) :
    runOnDisk disk t answer arguments =
      (@runBuild _ _ _ disk.store (fun _ => pure answer) inv (jobOf input output format) yes).run t := by
  rw [runOnDisk_of_invocation hparse]
  unfold perform
  rw [hcommand]

theorem runOnDisk_of_inspect {inv : Invocation} {file : Bytes} (hparse : parse arguments = .ok inv)
    (hcommand : inv.command = .inspect file) :
    runOnDisk disk t answer arguments =
      (match inspected file t with
        | .error fault => .failure inv fault
        | .ok s => .success inv (s.json file) (s.lines file), t) := by
  rw [runOnDisk_of_invocation hparse, ← runInspect_eq disk]
  unfold perform
  rw [hcommand]

theorem runOnDisk_of_completion {inv : Invocation} {shell : Shell} (hparse : parse arguments = .ok inv)
    (hcommand : inv.command = .completion shell) :
    runOnDisk disk t answer arguments = ({ code := 0, completes := some shell }, t) := by
  rw [runOnDisk_of_invocation hparse]
  unfold perform
  rw [hcommand]
  rfl

end

theorem tree_runBuild (disk : Disk) (inv : Invocation) (t : FileTree) (answer : Option Bytes) (job : Job)
    (yes : Bool) :
    ((@runBuild _ _ _ disk.store (fun _ => pure answer) inv job yes).run t).2 = t ∨
      ((@runBuild _ _ _ disk.store (fun _ => pure answer) inv job yes).run t).2 = (job.runOn disk t).2 := by
  rw [runBuild_eq]
  cases job.resolveFormat with
  | error fault => exact .inl rfl
  | ok format =>
    dsimp only
    split_ifs with hin hout
    · exact .inl rfl
    · exact .inr rfl
    · cases judge job.output answer with
      | error fault => exact .inl rfl
      | ok _ => exact .inr rfl

/-- A command line leaves the tree as it is or as a job leaves it. -/
theorem tree_runOnDisk (disk : Disk) (t : FileTree) (answer : Option Bytes) (arguments : List Bytes) :
    (runOnDisk disk t answer arguments).2 = t ∨
      ∃ job : Job, (runOnDisk disk t answer arguments).2 = (job.runOn disk t).2 := by
  cases hparse : parse arguments with
  | error stop =>
    rw [runOnDisk_of_stop hparse]
    exact .inl rfl
  | ok inv =>
    cases hcommand : inv.command with
    | build input output format yes =>
      rw [runOnDisk_of_build hparse hcommand]
      exact (tree_runBuild disk inv t answer _ yes).imp id fun h => ⟨_, h⟩
    | inspect file =>
      rw [runOnDisk_of_inspect hparse hcommand]
      exact .inl rfl
    | completion shell =>
      rw [runOnDisk_of_completion hparse hcommand]
      exact .inl rfl

end CommandLine

end EventScript
