import EventScript.Proofs.BuildChecks
import EventScript.Proofs.CommandLineReading
import EventScript.Proofs.FaultReports

/-!
# Diagnostics that programs can read

A command line that asks for JSON, and is read, reports its fault as one line of JSON. The question whether to
overwrite a file is put all the same, before the report.

* `runOnDisk_eq_failure`: a command that does not succeed fails with a fault.
* `runOnDisk_eq_declined`: a build that is declined has put its question.
* `runOnDisk_reports_json`: what is shown of a fault where JSON is asked for.
* `unreported_question_and_refusal`: where more is shown than a report, or none.
-/

namespace EventScript.CommandLine

open FileTree (Disk)

/-- What is shown is one line: a JSON object that holds a fault of the kind that the exit code stands for. There is
such a kind, and the object names it and no other. -/
def ReportsFault (code : Nat) (shown : String) : Prop :=
  ∃ (line : String) (members : List (String × Json.Value)),
    shown = line ++ "\n" ∧ '\n' ∉ line.toList ∧
      Json.read (Utf8.encode line) = .ok (.object [("error", .object members)]) ∧
      (∃ kind : Fault.Kind, kind.exitCode = code) ∧
      ∀ kind : Fault.Kind, members.lookup "kind" = some (.string kind.label) ↔ kind.exitCode = code

theorem unlines_singleton (line : String) : unlines [line] = line ++ "\n" := by
  simp [unlines, String.join]

theorem reportsFault_failure {inv : Invocation} (hjson : inv.json = true) (fault : Fault) :
    ReportsFault (Outcome.failure inv fault).code (Outcome.failure inv fault).diagnostics := by
  refine ⟨fault.advise.json.text, fault.advise.members, ?_, fault.advise.newline_notMem_json,
    fault.advise.read_json, ⟨fault.advise.kind, rfl⟩, fun kind => ?_⟩
  · simp only [Outcome.failure, hjson, if_true, unlines_singleton]
  · rw [fault.advise.lookup_kind]
    constructor
    · intro hname
      rw [← Fault.Kind.label_inj (Json.Value.string.inj (Option.some.inj hname))]
      rfl
    · intro hcode
      rw [Fault.Kind.exitCode_inj (k := fault.advise.kind) hcode]

/-! ## What is no report -/

/-- What is no JSON from its first character is no report. -/
theorem not_reportsFault_of_head {code : Nat} {shown : String} {c : Char} {cs : List Char}
    (hshown : shown.toList = c :: cs) (hc : c ≠ '\n')
    (hread : ∀ bytes, ∃ e, Json.read (String.utf8EncodeChar c ++ bytes) = .error e) :
    ¬ ReportsFault code shown := by
  rintro ⟨line, members, rfl, -, hline, -⟩
  rw [String.toList_append] at hshown
  cases h : line.toList with
  | nil =>
    rw [h] at hshown
    cases hshown
    exact hc rfl
  | cons c' cs' =>
    rw [h] at hshown
    cases hshown
    obtain ⟨e, he⟩ := hread (cs'.flatMap String.utf8EncodeChar)
    rw [Utf8.encode, h, List.flatMap_cons, he] at hline
    cases hline

theorem not_reportsFault_question (code : Nat) (output : Bytes) (report : String) :
    ¬ ReportsFault code (overwriteQuestion output ++ report) := by
  have hshown : (overwriteQuestion output ++ report).toList =
      'O' :: ("utput file '" ++ Utf8.lossy output ++ "' exists, overwrite? [y/N] " ++ report).toList := by
    unfold overwriteQuestion
    simp
  exact not_reportsFault_of_head hshown (by decide) fun bytes => ⟨_, rfl⟩

theorem Refusal.lines_fault (r : Refusal) :
    r.fault.lines false = ["error:" ++ " " ++ "" ++ r.summary, "hint:" ++ " " ++ r.hint] :=
  rfl

theorem not_reportsFault_refused (code : Nat) (r : Refusal) :
    ¬ ReportsFault code (Outcome.ofStop (.refused r)).shown := by
  have hshown : (Outcome.ofStop (.refused r)).shown.toList =
      'e' :: ("rror: " ++ r.summary ++ "\nhint: " ++ r.hint ++ "\n").toList := by
    simp [Outcome.ofStop, Outcome.shown, unlines_singleton, Fault.text, Refusal.lines_fault]
  exact not_reportsFault_of_head hshown (by decide) fun bytes => ⟨_, rfl⟩

/-! ## Runs that fail -/

section

variable (disk : Disk) (t : FileTree)

/-- What a command puts on the terminal: at most the question of a build. -/
def Puts (answer : Option Bytes) (inv : Invocation) (asked : String) : Prop :=
  asked = "" ∨ ∃ input output format yes, inv.command = .build input output format yes ∧
    Asked t (jobOf input output format) yes answer asked

variable {arguments : List Bytes} {inv : Invocation}

/-- A command that does not succeed fails with a fault. -/
theorem runOnDisk_eq_failure (answer : Option Bytes) (hparse : parse arguments = .ok inv)
    (hcode : (runOnDisk disk t answer arguments).1.code ≠ 0) :
    ∃ fault asked, (runOnDisk disk t answer arguments).1 = { Outcome.failure inv fault with asked } ∧
      Puts t answer inv asked := by
  cases hcommand : inv.command with
  | build input output format yes =>
    obtain ⟨asked, ⟨result, t'⟩, hsettled, hall⟩ := settled_runOnDisk disk t answer input output format yes
    rw [hall _ _ hparse hcommand] at hcode ⊢
    cases result with
    | error fault => exact ⟨fault, asked, rfl, .inr ⟨_, _, _, _, hcommand, hsettled.asks⟩⟩
    | ok b => exact absurd rfl hcode
  | inspect file =>
    rw [runOnDisk_of_inspect hparse hcommand] at hcode ⊢
    cases hinspected : inspected file t with
    | error fault => exact ⟨fault, "", rfl, .inl rfl⟩
    | ok s =>
      rw [hinspected] at hcode
      exact absurd rfl hcode
  | completion shell =>
    rw [runOnDisk_of_completion hparse hcommand] at hcode
    exact absurd rfl hcode

/-- A build that is declined on a terminal has put its question, and says that its output is there. -/
theorem runOnDisk_eq_declined {line : Bytes} {input : Bytes} {output : Option Bytes}
    {format : Option Table.Format} {yes : Bool} (hparse : parse arguments = .ok inv)
    (hcommand : inv.command = .build input output format yes)
    (known : ¬ (jobOf input output format).NoFormat) (present : t.leadsSomewhere input = true)
    (needs : NeedsConsent t (jobOf input output format) yes) (no : Declines (some line)) :
    runOnDisk disk t (some line) arguments =
      ({ Outcome.failure inv (overwriteFault (jobOf input output format).output) with
          asked := overwriteQuestion (jobOf input output format).output }, t) := by
  obtain ⟨f, hformat⟩ := Job.exists_resolveFormat known
  have hinput : t.leadsSomewhere (jobOf input output format).input = true := present
  obtain ⟨hleads, rfl⟩ := needs
  rw [runOnDisk_of_build hparse hcommand, runBuild_eq, hformat]
  simp only [hinput, hleads, judge_of_declines no]
  rfl

end

/-! ## Faults in JSON -/

/-- **Diagnostics in JSON.** A command line that says `--json` before any two dashes and does not succeed either
is not read, and then has the exit code of a usage fault, or shows nothing but its report, after the question
whether to overwrite if that is put: one line, an object that names the kind of the exit code. -/
theorem runOnDisk_reports_json (disk : Disk) (t : FileTree) (answer : Option Bytes) {arguments : List Bytes}
    (hjson : SaysJson arguments) (hcode : (runOnDisk disk t answer arguments).1.code ≠ 0) :
    let o := (runOnDisk disk t answer arguments).1
    ((∃ stop, parse arguments = .error stop) ∧ o.code = Fault.Kind.usage.exitCode) ∨
      ∃ inv asked report, parse arguments = .ok inv ∧ o.shown = asked ++ report ∧ Puts t answer inv asked ∧
        ReportsFault o.code report := by
  intro o
  cases hparse : parse arguments with
  | error stop =>
    have ho : o = Outcome.ofStop stop := congrArg Prod.fst (runOnDisk_of_stop hparse)
    have hfails : o.code ≠ 0 := hcode
    refine .inl ⟨⟨stop, rfl⟩, ?_⟩
    rw [ho] at hfails ⊢
    cases stop with
    | help => exact absurd rfl hfails
    | version => exact absurd rfl hfails
    | overview => rfl
    | refused => rfl
  | ok inv =>
    obtain ⟨fault, asked, ho, hputs⟩ := runOnDisk_eq_failure disk t answer hparse hcode
    have ho : o = { Outcome.failure inv fault with asked } := ho
    rw [ho]
    exact .inr ⟨inv, asked, _, rfl, rfl, hputs, reportsFault_failure (json_of_parse hjson hparse) fault⟩

/-- The command line of a build that asks for JSON and tells nothing else but its input. -/
def jsonBuild (input : Bytes) : List Bytes :=
  jsonFlag :: plainBuild input

theorem saysJson_jsonBuild (input : Bytes) : SaysJson (jsonBuild input) :=
  ⟨[], plainBuild input, List.not_mem_nil, rfl⟩

theorem parse_jsonBuild :
    parse (jsonBuild (Utf8.encode "a.csv")) =
      .ok ⟨.auto, true, .build (Utf8.encode "a.csv") none none false⟩ := by
  cbv

theorem runOnDisk_jsonBuild :
    runOnDisk .reliable occupied (some (Utf8.encode "n")) (jsonBuild (Utf8.encode "a.csv")) =
      ({ Outcome.failure ⟨.auto, true, .build (Utf8.encode "a.csv") none none false⟩
            (overwriteFault (jobOf (Utf8.encode "a.csv") none none).output) with
          asked := overwriteQuestion (jobOf (Utf8.encode "a.csv") none none).output }, occupied) := by
  have hno : Declines (some (Utf8.encode "n")) := .inr ⟨"n", rfl, by rw [← isYes_iff]; decide⟩
  exact runOnDisk_eq_declined .reliable occupied parse_jsonBuild rfl known_plain present_occupied
    needsConsent_occupied hno

/-- The report of a build that is declined stands after its question. -/
theorem runOnDisk_reports_json_declined :
    ∃ asked report,
      (runOnDisk .reliable occupied (some (Utf8.encode "n")) (jsonBuild (Utf8.encode "a.csv"))).1.shown =
        asked ++ report ∧ ReportsFault 4 report := by
  have hcode : (runOnDisk .reliable occupied (some (Utf8.encode "n"))
      (jsonBuild (Utf8.encode "a.csv"))).1.code = 4 := by
    rw [runOnDisk_jsonBuild]
    rfl
  have hfails : (runOnDisk .reliable occupied (some (Utf8.encode "n"))
      (jsonBuild (Utf8.encode "a.csv"))).1.code ≠ 0 := by
    rw [hcode]
    decide
  rcases runOnDisk_reports_json .reliable occupied (some (Utf8.encode "n")) (saysJson_jsonBuild _) hfails
    with ⟨⟨stop, hstop⟩, -⟩ | ⟨inv, asked, report, -, hshown, -, hreport⟩
  · cases parse_jsonBuild.symm.trans hstop
  · rw [hcode] at hreport
    exact ⟨asked, report, hshown, hreport⟩

/-- A command line that asks for JSON fails, and what it shows is not its report alone. -/
def Unreported (t : FileTree) (typed : Option Bytes) (arguments : List Bytes) : Prop :=
  SaysJson arguments ∧ (runOn t typed arguments).1.code ≠ 0 ∧
    ¬ ReportsFault (runOn t typed arguments).1.code (runOn t typed arguments).1.shown

/-- More than a report is shown where a question is put, and none where no command is named. -/
theorem unreported_question_and_refusal :
    Unreported occupied (some (Utf8.encode "n")) (jsonBuild (Utf8.encode "a.csv")) ∧
      Unreported .fresh none [jsonFlag, Utf8.encode "bogus"] := by
  constructor
  · have htyped : Terminal.typedLine (Utf8.encode "n") = Utf8.encode "n" := by decide
    have hrun : runOn occupied (some (Utf8.encode "n")) (jsonBuild (Utf8.encode "a.csv")) =
        runOnDisk .reliable occupied (some (Utf8.encode "n")) (jsonBuild (Utf8.encode "a.csv")) :=
      congrArg (fun line => runOnDisk .reliable occupied (some line) (jsonBuild (Utf8.encode "a.csv"))) htyped
    rw [Unreported, hrun, runOnDisk_jsonBuild]
    exact ⟨saysJson_jsonBuild _, by decide, not_reportsFault_question _ _ _⟩
  · have hrefused : parse [jsonFlag, Utf8.encode "bogus"] =
        .error (.refused (.unknownCommand (Utf8.encode "bogus") .top)) := by
      cbv
    have hrun : runOnDisk .reliable .fresh none [jsonFlag, Utf8.encode "bogus"] =
        (.ofStop (.refused (.unknownCommand (Utf8.encode "bogus") .top)), .fresh) :=
      runOnDisk_of_stop hrefused
    have hrun : runOn .fresh none [jsonFlag, Utf8.encode "bogus"] =
        (.ofStop (.refused (.unknownCommand (Utf8.encode "bogus") .top)), .fresh) := hrun
    rw [Unreported, hrun]
    exact ⟨⟨[], _, List.not_mem_nil, rfl⟩, by decide, not_reportsFault_refused _ _⟩

end EventScript.CommandLine
