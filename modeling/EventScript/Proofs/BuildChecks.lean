import EventScript.Proofs.CommandLineRuns
import EventScript.Proofs.Utf8RoundTrip

/-!
# What decides about a build

A build is settled by the first reason there is against it, or else by its job.

* `judge_cases`: what the three kinds of answer come to.
* `settled_runOnDisk`: the reasons, each with what excludes the ones before it.
* `runOnDisk_in_order`: what each reason comes to, as a kind of fault and an exit code, and what becomes of the
  tree.
* `runOnDisk_entry_kept_iff`: without consent the entry that the output names is kept, unless it is a link that
  leads nowhere.
* `runOn_over_dangling_link`: such a link is replaced, and nobody is asked.
-/

namespace EventScript

open FileTree (Disk Found)

/-! ## Formats -/

/-- The extension of a path is the name of a format, in either case of letters. -/
def Table.Format.ToldBy (f : Table.Format) (path : Bytes) : Prop :=
  ∃ extension, Path.extension? path = some extension ∧
    String.ofList ((Utf8.lossyChars extension).map Char.toLower) = f.label

theorem Table.Format.ofPath_eq_ok_iff {f : Table.Format} {path : Bytes} :
    Table.Format.ofPath path = .ok f ↔ f.ToldBy path := by
  unfold ofPath ToldBy
  cases Path.extension? path with
  | none => simp
  | some extension =>
    simp only [Option.some.injEq, exists_eq_left', ofExtension]
    split_ifs with hcsv hjson hplanned
    · cases f <;> simp [hcsv, label]
    · cases f <;> simp [hjson, label]
    · cases f <;> simp [hcsv, hjson, label]
    · cases f <;> simp [hcsv, hjson, label]

namespace Job

/-- Neither the job nor its input tells a format. -/
def NoFormat (job : Job) : Prop :=
  job.format = none ∧ ∀ f : Table.Format, ¬ f.ToldBy job.input

theorem resolveFormat_cases (job : Job) :
    (job.NoFormat ∧ ∃ fault, job.resolveFormat = .error fault ∧ fault.kind = .format) ∨
      (¬ job.NoFormat ∧ ∃ f, job.resolveFormat = .ok f) := by
  unfold NoFormat resolveFormat
  simp only [← Table.Format.ofPath_eq_ok_iff]
  cases job.format with
  | some f => simp
  | none => cases Table.Format.ofPath job.input <;> simp [Except.mapError, Table.UnknownFormat.fault]

theorem exists_resolveFormat {job : Job} (known : ¬ job.NoFormat) : ∃ f, job.resolveFormat = .ok f := by
  rcases job.resolveFormat_cases with ⟨unknown, -⟩ | ⟨-, h⟩
  · exact absurd unknown known
  · exact h

/-- What a job that succeeds puts in place of an entry is a file. -/
theorem find?_of_runOn {disk : Disk} {job : Job} {t t' : FileTree} {b : Build}
    (h : job.runOn disk t = (.ok b, t')) {place : Place}
    (hplace : (t.resolve false job.output).map Found.place = .ok place) :
    ∃ mode content, t'.find? place = some (.file mode content) := by
  obtain ⟨c, -, ⟨hpath, front, dir, last, hdest, rfl⟩, -⟩ := Job.replaced_of_runOn h
  cases (hdest.place_resolve hpath).symm.trans hplace
  exact ⟨_, _, FileTree.find?_put_self FileTree.Destination.ne_nil t _⟩

end Job

namespace CommandLine

/-! ## Consent -/

/-- The line in answer to the question is a text that says yes. -/
def Consents (answer : Option Bytes) : Prop :=
  ∃ text, answer = some (Utf8.encode text) ∧ SaysYes text

/-- There is no terminal, or the line in answer to the question is a text that does not say yes. -/
def Declines (answer : Option Bytes) : Prop :=
  answer = none ∨ ∃ text, answer = some (Utf8.encode text) ∧ ¬ SaysYes text

/-- The line in answer to the question is no text. -/
def Unreadable (answer : Option Bytes) : Prop :=
  ∃ line, answer = some line ∧ ∀ text, line ≠ Utf8.encode text

theorem judge_cases (output : Bytes) (answer : Option Bytes) :
    (Declines answer ∧ judge output answer = .error (overwriteFault output)) ∨
      (Unreadable answer ∧ judge output answer = .error answerFault) ∨
      (Consents answer ∧ judge output answer = .ok ()) := by
  cases answer with
  | none => exact .inl ⟨.inl rfl, rfl⟩
  | some line =>
    rw [judge]
    cases hdecode : Utf8.decode? line with
    | none =>
      refine .inr (.inl ⟨⟨line, rfl, ?_⟩, rfl⟩)
      rintro text rfl
      rw [Utf8.decode?_encode] at hdecode
      cases hdecode
    | some text =>
      have hline : Utf8.encode text = line := Utf8.decode?_eq_some_iff.mp hdecode
      cases hyes : isYes text with
      | false => exact .inl ⟨.inr ⟨text, by rw [hline], by simp [← isYes_iff, hyes]⟩, by simp [hyes]⟩
      | true => exact .inr (.inr ⟨⟨text, by rw [hline], isYes_iff.mp hyes⟩, by simp [hyes]⟩)

theorem not_consents_of_declines {answer : Option Bytes} (h : Declines answer) : ¬ Consents answer := by
  rintro ⟨text, rfl, hyes⟩
  rcases h with hnone | ⟨text', hsame, hno⟩
  · cases hnone
  · rw [Utf8.encode_inj (Option.some.inj hsame)] at hyes
    exact hno hyes

theorem not_consents_of_unreadable {answer : Option Bytes} (h : Unreadable answer) : ¬ Consents answer := by
  rintro ⟨text, rfl, -⟩
  obtain ⟨line, hline, hnone⟩ := h
  exact hnone text (Option.some.inj hline).symm

theorem not_declines_of_unreadable {answer : Option Bytes} (h : Unreadable answer) : ¬ Declines answer := by
  obtain ⟨line, rfl, hnone⟩ := h
  rintro (hline | ⟨text, hline, -⟩)
  · cases hline
  · exact hnone text (Option.some.inj hline)

theorem judge_of_declines {answer : Option Bytes} (no : Declines answer) (output : Bytes) :
    judge output answer = .error (overwriteFault output) := by
  rcases judge_cases output answer with ⟨-, h⟩ | ⟨bad, -⟩ | ⟨yes, -⟩
  · exact h
  · exact absurd no (not_declines_of_unreadable bad)
  · exact absurd yes (not_consents_of_declines no)

/-! ## Outcomes -/

namespace Outcome

/-- The exit code of a job that is done. -/
def codeOf : Except Fault Build → Nat
  | .error fault => fault.kind.exitCode
  | .ok _ => 0

theorem code_ofBuild (inv : Invocation) (result : Except Fault Build) :
    (ofBuild inv result).code = codeOf result := by
  cases result <;> rfl

end Outcome

/-! ## Builds -/

section

variable (disk : Disk) (t : FileTree) (job : Job) (yes : Bool) (answer : Option Bytes)

/-- A build would replace what its output leads to, and has no leave to. -/
def NeedsConsent : Prop :=
  t.leadsSomewhere job.output = true ∧ yes = false

instance : Decidable (NeedsConsent t job yes) :=
  inferInstanceAs (Decidable (_ ∧ _))

/-- What a build whose format and input are there puts on the terminal: the question whether to overwrite, where
leave is needed and there is someone to ask. -/
def question : String :=
  if NeedsConsent t job yes ∧ answer.isSome = true then overwriteQuestion job.output else ""

/-- What is put on the terminal is that question at most. -/
def Asked (asked : String) : Prop :=
  asked = "" ∨ NeedsConsent t job yes ∧ answer.isSome = true ∧ asked = overwriteQuestion job.output

/-- How a build is settled: what it puts on the terminal, what it comes to, and the tree that it leaves. -/
inductive Settled : String → Except Fault Build × FileTree → Prop
  | format {fault : Fault} (unknown : job.NoFormat) (kind : fault.kind = .format) :
      Settled "" (.error fault, t)
  | input {fault : Fault} (known : ¬ job.NoFormat) (missing : t.leadsSomewhere job.input = false)
      (kind : fault.kind = .notFound) : Settled "" (.error fault, t)
  | declined {fault : Fault} (known : ¬ job.NoFormat) (present : t.leadsSomewhere job.input = true)
      (needs : NeedsConsent t job yes) (no : Declines answer) (kind : fault.kind = .alreadyExists) :
      Settled (question t job yes answer) (.error fault, t)
  | unreadable {fault : Fault} (known : ¬ job.NoFormat) (present : t.leadsSomewhere job.input = true)
      (needs : NeedsConsent t job yes) (no : Unreadable answer) (kind : fault.kind = .io) :
      Settled (question t job yes answer) (.error fault, t)
  | done (known : ¬ job.NoFormat) (present : t.leadsSomewhere job.input = true)
      (free : NeedsConsent t job yes → Consents answer) :
      Settled (question t job yes answer) (job.runOn disk t)

theorem asked_question : Asked t job yes answer (question t job yes answer) := by
  unfold Asked question
  split
  next h => exact .inr ⟨h.1, h.2, rfl⟩
  next => exact .inl rfl

theorem question_of_needs (needs : NeedsConsent t job yes) :
    question t job yes answer = if answer.isSome then overwriteQuestion job.output else "" := by
  simp only [question, needs, true_and]

theorem question_of_free (free : ¬ NeedsConsent t job yes) : question t job yes answer = "" :=
  if_neg fun h => free h.1

/-- A build puts the same question and is settled in the same way however it is reported. -/
theorem settled_runBuild :
    ∃ asked result, Settled disk t job yes answer asked result ∧
      ∀ inv, (@runBuild _ _ _ disk.store (fun _ => pure answer) inv job yes).run t =
        ({ Outcome.ofBuild inv result.1 with asked }, result.2) := by
  simp only [runBuild_eq]
  rcases job.resolveFormat_cases with ⟨hunknown, fault, hformat, hkind⟩ | ⟨hknown, f, hformat⟩
  · rw [hformat]
    exact ⟨"", (.error fault, t), .format hunknown hkind, fun _ => rfl⟩
  · rw [hformat]
    dsimp only
    cases hinput : t.leadsSomewhere job.input with
    | false => exact ⟨"", (.error (inputFault job.input), t), .input hknown hinput rfl, fun _ => rfl⟩
    | true =>
      cases hneeds : yes || !t.leadsSomewhere job.output with
      | true =>
        have hfree : ¬ NeedsConsent t job yes := by
          rintro ⟨hleads, rfl⟩
          simp [hleads] at hneeds
        refine ⟨_, job.runOn disk t, .done hknown hinput (fun h => absurd h hfree), fun _ => ?_⟩
        rw [question_of_free t job yes answer hfree]
        cases (job.runOn disk t).1 <;> rfl
      | false =>
        have hconsent : NeedsConsent t job yes := by
          simpa [NeedsConsent, and_comm] using hneeds
        have hasked (o : Outcome) :
            o.asking job.output answer = { o with asked := question t job yes answer } := by
          rw [question_of_needs t job yes answer hconsent]
          rfl
        simp only [hasked]
        rcases judge_cases job.output answer with ⟨hno, hjudge⟩ | ⟨hno, hjudge⟩ | ⟨hyes, hjudge⟩
        · rw [hjudge]
          exact ⟨_, (.error (overwriteFault job.output), t), .declined hknown hinput hconsent hno rfl, fun _ => rfl⟩
        · rw [hjudge]
          exact ⟨_, (.error answerFault, t), .unreadable hknown hinput hconsent hno rfl, fun _ => rfl⟩
        · rw [hjudge]
          exact ⟨_, job.runOn disk t, .done hknown hinput fun _ => hyes, fun _ => rfl⟩

end

namespace Settled

variable {disk : Disk} {t : FileTree} {job : Job} {yes : Bool} {answer : Option Bytes} {asked : String}
  {result : Except Fault Build × FileTree}

theorem asks (h : Settled disk t job yes answer asked result) : Asked t job yes answer asked := by
  cases h with
  | format => exact .inl rfl
  | input => exact .inl rfl
  | declined => exact asked_question t job yes answer
  | unreadable => exact asked_question t job yes answer
  | done => exact asked_question t job yes answer

theorem of_noFormat (h : Settled disk t job yes answer asked result) (unknown : job.NoFormat) :
    asked = "" ∧ ∃ fault, result = (.error fault, t) ∧ fault.kind = .format := by
  cases h with
  | format _ kind => exact ⟨rfl, _, rfl, kind⟩
  | input known => exact absurd unknown known
  | declined known => exact absurd unknown known
  | unreadable known => exact absurd unknown known
  | done known => exact absurd unknown known

theorem of_missing (h : Settled disk t job yes answer asked result) (known : ¬ job.NoFormat)
    (missing : t.leadsSomewhere job.input = false) :
    asked = "" ∧ ∃ fault, result = (.error fault, t) ∧ fault.kind = .notFound := by
  cases h with
  | format unknown => exact absurd unknown known
  | input _ _ kind => exact ⟨rfl, _, rfl, kind⟩
  | declined _ present => cases missing.symm.trans present
  | unreadable _ present => cases missing.symm.trans present
  | done _ present => cases missing.symm.trans present

section

variable (h : Settled disk t job yes answer asked result) (known : ¬ job.NoFormat)
  (present : t.leadsSomewhere job.input = true)

include h known present

theorem of_declines (needs : NeedsConsent t job yes) (no : Declines answer) :
    asked = question t job yes answer ∧
      ∃ fault, result = (.error fault, t) ∧ fault.kind = .alreadyExists := by
  cases h with
  | format unknown => exact absurd unknown known
  | input _ missing => cases missing.symm.trans present
  | declined _ _ _ _ kind => exact ⟨rfl, _, rfl, kind⟩
  | unreadable _ _ _ bad => exact absurd no (not_declines_of_unreadable bad)
  | done _ _ free => exact absurd (free needs) (not_consents_of_declines no)

theorem of_unreadable (needs : NeedsConsent t job yes) (bad : Unreadable answer) :
    asked = question t job yes answer ∧ ∃ fault, result = (.error fault, t) ∧ fault.kind = .io := by
  cases h with
  | format unknown => exact absurd unknown known
  | input _ missing => cases missing.symm.trans present
  | declined _ _ _ no => exact absurd no (not_declines_of_unreadable bad)
  | unreadable _ _ _ _ kind => exact ⟨rfl, _, rfl, kind⟩
  | done _ _ free => exact absurd (free needs) (not_consents_of_unreadable bad)

theorem of_free (free : NeedsConsent t job yes → Consents answer) :
    asked = question t job yes answer ∧ result = job.runOn disk t := by
  cases h with
  | format unknown => exact absurd unknown known
  | input _ missing => cases missing.symm.trans present
  | declined _ _ needs no => exact absurd (free needs) (not_consents_of_declines no)
  | unreadable _ _ needs bad => exact absurd (free needs) (not_consents_of_unreadable bad)
  | done => exact ⟨rfl, rfl⟩

end

/-- Only a job that succeeds changes the tree. -/
theorem tree (h : Settled disk t job yes answer asked result) :
    result.2 = t ∨ ∃ b, job.runOn disk t = (.ok b, result.2) := by
  cases h with
  | format => exact .inl rfl
  | input => exact .inl rfl
  | declined => exact .inl rfl
  | unreadable => exact .inl rfl
  | done =>
    rcases hrun : job.runOn disk t with ⟨fault | b, t'⟩
    · exact .inl (Job.tree_eq_of_runOn_error hrun)
    · exact .inr ⟨b, rfl⟩

/-- A build that asks and is given no leave changes nothing. -/
theorem unchanged (h : Settled disk t job yes answer asked result)
    (needs : NeedsConsent t job yes) (hno : ¬ Consents answer) : result.2 = t := by
  cases h with
  | format => rfl
  | input => rfl
  | declined => rfl
  | unreadable => rfl
  | done _ _ free => exact absurd (free needs) hno

/-- A job that succeeds has a format and an input. -/
theorem eq_of_runOn {t' : FileTree} {b : Build} (h : Settled disk t job yes answer asked result)
    (free : ¬ NeedsConsent t job yes) (hrun : job.runOn disk t = (.ok b, t')) : result = (.ok b, t') := by
  obtain ⟨c, hcompiled, -⟩ := Job.replaced_of_runOn hrun
  obtain ⟨hformat, content, hread, -⟩ := Job.compiled_eq_ok_iff.mp hcompiled
  have known : ¬ job.NoFormat := by
    rcases job.resolveFormat_cases with ⟨-, fault, herror, -⟩ | ⟨hknown, -⟩
    · cases herror.symm.trans hformat
    · exact hknown
  rw [(h.of_free known (FileTree.leadsSomewhere_of_read hread) fun needs => absurd needs free).2, hrun]

end Settled

/-- A command line that builds is settled in the same way as every other one with the same command. -/
theorem settled_runOnDisk (disk : Disk) (t : FileTree) (answer : Option Bytes) (input : Bytes)
    (output : Option Bytes) (format : Option Table.Format) (yes : Bool) :
    ∃ asked result, Settled disk t (jobOf input output format) yes answer asked result ∧
      ∀ arguments inv, parse arguments = .ok inv → inv.command = .build input output format yes →
        runOnDisk disk t answer arguments = ({ Outcome.ofBuild inv result.1 with asked }, result.2) := by
  obtain ⟨asked, result, hsettled, hrun⟩ := settled_runBuild disk t (jobOf input output format) yes answer
  refine ⟨asked, result, hsettled, fun arguments inv hparse hcommand => ?_⟩
  rw [runOnDisk_of_build hparse hcommand, hrun inv]

/-- A run fails with a fault of a kind after it has put `asked` on the terminal, and the tree is as it was. -/
def Fails (inv : Invocation) (t : FileTree) (asked : String) (kind : Fault.Kind) (run : Outcome × FileTree) :
    Prop :=
  ∃ fault, fault.kind = kind ∧ run = ({ Outcome.failure inv fault with asked }, t)

theorem fails_and_code {inv : Invocation} {t : FileTree} {kind : Fault.Kind} {asked put : String}
    {run : Outcome × FileTree} {result : Except Fault Build × FileTree}
    (hrun : run = ({ Outcome.ofBuild inv result.1 with asked }, result.2))
    (h : asked = put ∧ ∃ fault, result = (.error fault, t) ∧ fault.kind = kind) :
    Fails inv t put kind run ∧ run.1.code = kind.exitCode := by
  obtain ⟨rfl, fault, rfl, rfl⟩ := h
  rw [hrun]
  exact ⟨⟨fault, rfl, rfl⟩, rfl⟩

/-- **Checks in order.** A build on whatever disk and tree, with or without a terminal, is refused for want of a
format, whatever the tree; else for want of its input; else, if its output leads somewhere and it does not say to
overwrite, for want of an explicit yes, or because the answer is no text. Otherwise it is what its job is. The
question whether to overwrite is put only once format and input are there, leave is needed, and there is a terminal.
The tree changes only if the job succeeds, and then it is as the job leaves it. The exit code and the tree are the
same whether reports are in JSON or coloured. -/
theorem runOnDisk_in_order (disk : Disk) (t : FileTree) (answer : Option Bytes) {arguments : List Bytes}
    {inv : Invocation} {input : Bytes} {output : Option Bytes} {format : Option Table.Format} {yes : Bool}
    (hparse : parse arguments = .ok inv) (hcommand : inv.command = .build input output format yes) :
    let job := jobOf input output format
    let run := runOnDisk disk t answer arguments
    let asked := question t job yes answer
    (job.NoFormat → Fails inv t "" .format run ∧ run.1.code = 5) ∧
    (¬ job.NoFormat → t.leadsSomewhere input = false → Fails inv t "" .notFound run ∧ run.1.code = 3) ∧
    (¬ job.NoFormat → t.leadsSomewhere input = true →
      (NeedsConsent t job yes → Declines answer → Fails inv t asked .alreadyExists run ∧ run.1.code = 4) ∧
      (NeedsConsent t job yes → Unreadable answer → Fails inv t asked .io run ∧ run.1.code = 12) ∧
      ((NeedsConsent t job yes → Consents answer) →
        run.1.code = Outcome.codeOf (job.runOn disk t).1 ∧
        run = ({ Outcome.ofBuild inv (job.runOn disk t).1 with asked }, (job.runOn disk t).2))) ∧
    (run.2 = t ∨ ∃ b, job.runOn disk t = (.ok b, run.2)) ∧
    ∀ arguments' inv', parse arguments' = .ok inv' → inv'.command = inv.command →
      (runOnDisk disk t answer arguments').1.code = run.1.code ∧
        (runOnDisk disk t answer arguments').2 = run.2 := by
  intro job run asked
  obtain ⟨put, result, hsettled, hall⟩ := settled_runOnDisk disk t answer input output format yes
  have hrun : run = ({ Outcome.ofBuild inv result.1 with asked := put }, result.2) := hall _ _ hparse hcommand
  refine ⟨?_, ?_, ?_, ?_, ?_⟩
  · intro unknown
    exact fails_and_code hrun (hsettled.of_noFormat unknown)
  · intro known missing
    exact fails_and_code hrun (hsettled.of_missing known missing)
  · intro known present
    refine ⟨fun needs no => ?_, fun needs bad => ?_, fun free => ?_⟩
    · exact fails_and_code hrun (hsettled.of_declines known present needs no)
    · exact fails_and_code hrun (hsettled.of_unreadable known present needs bad)
    · obtain ⟨hput, hresult⟩ := hsettled.of_free known present free
      rw [hrun, hput, hresult]
      exact ⟨Outcome.code_ofBuild inv _, rfl⟩
  · rw [hrun]
    exact hsettled.tree
  · intro arguments' inv' hparse' hcommand'
    rw [hall _ _ hparse' (hcommand'.trans hcommand), hrun]
    exact ⟨(Outcome.code_ofBuild inv' _).trans (Outcome.code_ofBuild inv _).symm, rfl⟩

/-- The command line of a build that tells nothing but its input. -/
def plainBuild (input : Bytes) : List Bytes :=
  [Utf8.encode "build", input]

theorem parse_plainBuild :
    parse (plainBuild (Utf8.encode "a.csv")) =
      .ok ⟨.auto, false, .build (Utf8.encode "a.csv") none none false⟩ := by
  cbv

/-- A tree with a table and, in the place of its script, another file. -/
def occupied : FileTree :=
  (FileTree.fresh.write (Utf8.encode "a.csv") (Utf8.encode "0,a,b,c,d,e") none).write (Utf8.encode "a.sdf")
    (Utf8.encode "kept") none

theorem known_plain : ¬ (jobOf (Utf8.encode "a.csv") none none).NoFormat := by
  rintro ⟨-, hnone⟩
  exact hnone .csv ⟨_, rfl, by decide⟩

theorem present_occupied : occupied.leadsSomewhere (Utf8.encode "a.csv") = true := by
  cbv

theorem needsConsent_occupied : NeedsConsent occupied (jobOf (Utf8.encode "a.csv") none none) false := by
  have houtput : occupied.leadsSomewhere (jobOf (Utf8.encode "a.csv") none none).output = true := by
    cbv
  exact ⟨houtput, rfl⟩

/-- An answer that only starts like a yes is none. -/
theorem runOnDisk_in_order_declined :
    (runOnDisk .reliable occupied (some (Utf8.encode "yep\n")) (plainBuild (Utf8.encode "a.csv"))).1.code =
      4 := by
  have hno : Declines (some (Utf8.encode "yep\n")) :=
    .inr ⟨"yep\n", rfl, by rw [← isYes_iff]; decide⟩
  exact (((runOnDisk_in_order .reliable occupied _ parse_plainBuild rfl).2.2.1 known_plain
    present_occupied).1 needsConsent_occupied hno).2

/-! ## The entry that the output names -/

/-- **Consent.** Take a build that does not say to overwrite and is not answered by an explicit yes, and the entry
that its output names, the last link not followed. If it is no link, or a link that leads somewhere, the whole
tree stays as it is. The entry is kept also otherwise, except if the job succeeds. -/
theorem runOnDisk_entry_kept_iff (disk : Disk) (t : FileTree) {answer : Option Bytes}
    {arguments : List Bytes} {inv : Invocation} {input : Bytes} {output : Option Bytes}
    {format : Option Table.Format} (hparse : parse arguments = .ok inv)
    (hcommand : inv.command = .build input output format false) (hno : ¬ Consents answer) {place : Place}
    {e : Entry}
    (hplace : (t.resolve false (jobOf input output format).output).map Found.place = .ok place)
    (hentry : t.find? place = some e) :
    let job := jobOf input output format
    let t' := (runOnDisk disk t answer arguments).2
    ((∀ target, e ≠ .link target) ∨ t.leadsSomewhere job.output = true → t' = t) ∧
    (t'.find? place = some e ↔
      (∀ target, e ≠ .link target) ∨ t.leadsSomewhere job.output = true ∨
        ∀ b s, job.runOn disk t ≠ (.ok b, s)) := by
  intro job t'
  obtain ⟨asked, result, hsettled, hall⟩ := settled_runOnDisk disk t answer input output format false
  have ht' : t' = result.2 := congrArg Prod.snd (hall _ _ hparse hcommand)
  have hkept (hleads : t.leadsSomewhere job.output = true) : t' = t :=
    ht'.trans (hsettled.unchanged ⟨hleads, rfl⟩ hno)
  have hnoLink (hlink : ∀ target, e ≠ .link target) : t' = t :=
    hkept (FileTree.leadsSomewhere_of_find? hplace hentry hlink)
  refine ⟨fun h => h.elim hnoLink hkept, ?_, ?_⟩
  · intro hsame
    by_contra hnot
    simp only [not_or, not_forall, ne_eq, Classical.not_not] at hnot
    obtain ⟨⟨target, rfl⟩, hnowhere, b, s, hrun⟩ := hnot
    have hs : t' = s := by
      rw [ht', hsettled.eq_of_runOn (fun needs => hnowhere needs.1) hrun]
    obtain ⟨mode, content, hfile⟩ := Job.find?_of_runOn hrun hplace
    rw [hs, hfile] at hsame
    cases hsame
  · rintro (hlink | hleads | hfails)
    · rw [hnoLink hlink, hentry]
    · rw [hkept hleads, hentry]
    · rcases hsettled.tree with hsame | ⟨b, hrun⟩
      · rw [ht', hsame, hentry]
      · exact absurd hrun (hfails b _)

/-- A tree with a table, another file and, in the place of the table's script, a link. -/
def linked (target : Bytes) : FileTree :=
  ((FileTree.fresh.write (Utf8.encode "a.csv") (Utf8.encode "0,a,b,c,d,e") none).write (Utf8.encode "b.sdf")
    (Utf8.encode "kept") none).makeLink (Utf8.encode "a.sdf") target

theorem runOnDisk_entry_kept_iff_live_link :
    (runOnDisk .reliable (linked (Utf8.encode "b.sdf")) none (plainBuild (Utf8.encode "a.csv"))).2.find?
      [FileTree.unspoken, Utf8.encode "a.sdf"] = some (.link (Utf8.encode "b.sdf")) := by
  have hplace : ((linked (Utf8.encode "b.sdf")).resolve false
      (jobOf (Utf8.encode "a.csv") none none).output).map Found.place =
        .ok [FileTree.unspoken, Utf8.encode "a.sdf"] := by
    cbv
  have hentry : (linked (Utf8.encode "b.sdf")).find? [FileTree.unspoken, Utf8.encode "a.sdf"] =
      some (.link (Utf8.encode "b.sdf")) := by
    cbv
  have hleads : (linked (Utf8.encode "b.sdf")).leadsSomewhere
      (jobOf (Utf8.encode "a.csv") none none).output = true := by
    cbv
  have hno : ¬ Consents none := not_consents_of_declines (.inl rfl)
  exact (runOnDisk_entry_kept_iff .reliable _ parse_plainBuild rfl hno hplace hentry).2.mpr
    (.inr (.inl hleads))

/-- A link that leads nowhere is replaced by the script, though nobody was asked. -/
theorem runOn_over_dangling_link :
    ∃ place target,
      parse (plainBuild (Utf8.encode "a.csv")) =
        .ok ⟨.auto, false, .build (Utf8.encode "a.csv") none none false⟩ ∧
      ((linked (Utf8.encode "nowhere")).resolve false
        (jobOf (Utf8.encode "a.csv") none none).output).map Found.place = .ok place ∧
      (linked (Utf8.encode "nowhere")).find? place = some (.link target) ∧
      (runOn (linked (Utf8.encode "nowhere")) none (plainBuild (Utf8.encode "a.csv"))).2.find? place ≠
        some (.link target) := by
  refine ⟨[FileTree.unspoken, Utf8.encode "a.sdf"], Utf8.encode "nowhere", parse_plainBuild, by cbv, by cbv, ?_⟩
  have hfile : ∃ mode content,
      (runOn (linked (Utf8.encode "nowhere")) none (plainBuild (Utf8.encode "a.csv"))).2.find?
        [FileTree.unspoken, Utf8.encode "a.sdf"] = some (.file mode content) :=
    ⟨0o644, _, by cbv⟩
  obtain ⟨mode, content, hfile⟩ := hfile
  rw [hfile]
  simp

end CommandLine

end EventScript
