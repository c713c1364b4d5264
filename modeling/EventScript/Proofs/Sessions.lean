import EventScript.Proofs.CommandLineRuns

/-!
# Sessions

A session is any sequence of builds, inspections, readings of tables and command lines, each on whatever disk
there is by then.

* `Grows.trans`: what a session may do to a tree, it may do again.
* `grows_after`: one step of a session puts a whole script where no directory is, or changes nothing.
* `grows_session`: so does a session, at as many places as it likes, and it takes nothing away.
* `session_complete_or_absent`: what there is after a session, place by place.
-/

namespace EventScript

open FileTree (Disk)

/-! ## Growing trees -/

/-- A file with a whole script that has records. -/
def Entry.IsScript (e : Entry) : Prop :=
  ∃ mode content s, e = .file mode content ∧ Script.decode content = .ok s ∧ 1 ≤ s.header.count.toNat

/-- The tree `t'` is `t` with whole scripts at some places, none of which is a directory's. -/
structure Grows (t t' : FileTree) : Prop where
  entry : ∀ place, t'.find? place = t.find? place ∨ ∃ e, t'.find? place = some e ∧ e.IsScript
  directory : ∀ place mode, t.find? place = some (.directory mode) → t'.find? place = some (.directory mode)

namespace Grows

variable {t t' t'' : FileTree}

theorem refl (t : FileTree) : Grows t t :=
  ⟨fun _ => .inl rfl, fun _ _ h => h⟩

theorem trans (h : Grows t t') (h' : Grows t' t'') : Grows t t'' where
  entry place := by
    rcases h'.entry place with hsame | hscript
    · rw [hsame]
      exact h.entry place
    · exact .inr hscript
  directory place mode hdir := h'.directory place mode (h.directory place mode hdir)

/-- Nothing is taken away. -/
theorem find?_ne_none (h : Grows t t') {place : Place} (hplace : t.find? place ≠ none) :
    t'.find? place ≠ none := by
  rcases h.entry place with hsame | ⟨e, he, -⟩
  · rwa [hsame]
  · simp [he]

/-- No directory is made. -/
theorem directory_iff (h : Grows t t') (place : Place) (mode : Nat) :
    t'.find? place = some (.directory mode) ↔ t.find? place = some (.directory mode) := by
  refine ⟨fun hdir => ?_, h.directory place mode⟩
  rcases h.entry place with hsame | ⟨e, he, mode, content, s, rfl, -⟩
  · rwa [← hsame]
  · rw [he] at hdir
    cases hdir

/-- A script is put where no directory is. -/
theorem put {there : Place} {e : Entry} (hne : there ≠ []) (hfree : ∀ mode, t.find? there ≠ some (.directory mode))
    (he : e.IsScript) : Grows t (t.put there e) where
  entry place := by
    by_cases hplace : place = there
    · subst hplace
      exact .inr ⟨e, FileTree.find?_put_self hne t e, he⟩
    · exact .inl (FileTree.find?_put_of_ne hplace t e)
  directory place mode hdir := by
    have hplace : place ≠ there := by
      rintro rfl
      exact hfree mode hdir
    rwa [FileTree.find?_put_of_ne hplace]

end Grows

/-! ## Steps -/

/-- A step of a session. -/
inductive Step
  | build (job : Job)
  | inspect (path : Bytes)
  | readTable (format : Table.Format) (path : Bytes)
  /-- A command line, with what is typed on the terminal if there is one. -/
  | commandLine (typed : Option Bytes) (arguments : List Bytes)

/-- The tree after a step on a disk. -/
def Step.after (disk : Disk) (t : FileTree) : Step → FileTree
  | .build job => (job.runOn disk t).2
  | .inspect path => (inspectOn disk path t).2
  | .readTable format path => ((@readRows _ _ _ disk.store format path).run.run t).2
  | .commandLine typed arguments =>
    (CommandLine.runOnDisk disk t (typed.map Terminal.typedLine) arguments).2

/-- The tree after several steps, each on a disk of its own. -/
def session (t : FileTree) (steps : List (Disk × Step)) : FileTree :=
  steps.foldl (fun t s => s.2.after s.1 t) t

/-- What a table compiles to is a whole script. -/
theorem Compile.isScript_of_compileTable {format : Table.Format} {input : Bytes} {c : Compiled}
    (h : compileTable format input = .ok c) (mode : Nat) : (Entry.file mode c.script).IsScript := by
  obtain ⟨rows, es, -, -, hne, hlength, rfl⟩ := compileTable_eq_ok_iff.mp h
  refine ⟨mode, _, Script.ofEvents es, rfl,
    Script.decode_eq_ok_iff.mpr ⟨Script.consistent_ofEvents hlength, rfl⟩, ?_⟩
  rw [Script.toNat_count_ofEvents hlength]
  exact List.length_pos_iff.mpr hne

theorem grows_runOn (disk : Disk) (t : FileTree) (job : Job) : Grows t (job.runOn disk t).2 := by
  rcases hrun : job.runOn disk t with ⟨fault | b, t'⟩
  · rw [Job.tree_eq_of_runOn_error hrun]
    exact .refl t
  · obtain ⟨c, hcompiled, ⟨-, front, dir, last, hdest, rfl⟩, -⟩ := Job.replaced_of_runOn hrun
    obtain ⟨-, content, -, hcompile⟩ := Job.compiled_eq_ok_iff.mp hcompiled
    exact .put FileTree.Destination.ne_nil hdest.free (Compile.isScript_of_compileTable hcompile _)

theorem grows_after (disk : Disk) (t : FileTree) (step : Step) : Grows t (step.after disk t) := by
  cases step with
  | build job => exact grows_runOn disk t job
  | inspect path =>
    rw [Step.after, inspectOn_eq]
    exact .refl t
  | readTable format path =>
    rw [Step.after, run_readRows]
    cases t.read path <;> exact .refl t
  | commandLine typed arguments =>
    rw [Step.after]
    rcases CommandLine.tree_runOnDisk disk t (typed.map Terminal.typedLine) arguments with h | ⟨job, h⟩
    · rw [h]
      exact .refl t
    · rw [h]
      exact grows_runOn disk t job

theorem grows_session (t : FileTree) (steps : List (Disk × Step)) : Grows t (session t steps) := by
  induction steps generalizing t with
  | nil => exact .refl t
  | cons s steps ih => exact (grows_after s.1 t s.2).trans (ih (s.2.after s.1 t))

/-- **Complete or absent.** Whatever a session does and whatever goes wrong in it, each entry of the tree after
it is the one that was there before or a file that holds a whole script with records. No place that had an entry
is without one, and the directories are the ones that were there before, with the permission bits they had. -/
theorem session_complete_or_absent (t : FileTree) (steps : List (Disk × Step)) :
    (∀ place e, (session t steps).find? place = some e →
      t.find? place = some e ∨
        ∃ mode content s, e = .file mode content ∧ Script.decode content = .ok s ∧
          1 ≤ s.header.count.toNat) ∧
    (∀ place, t.find? place ≠ none → (session t steps).find? place ≠ none) ∧
    ∀ place mode,
      (session t steps).find? place = some (.directory mode) ↔ t.find? place = some (.directory mode) := by
  have hgrows := grows_session t steps
  refine ⟨fun place e he => ?_, fun place => hgrows.find?_ne_none, hgrows.directory_iff⟩
  rcases hgrows.entry place with hsame | ⟨e', he', hscript⟩
  · exact .inl (hsame ▸ he)
  · rw [he'] at he
    cases he
    exact .inr hscript

end EventScript
