import EventScript.CommandLine.Help
import EventScript.CommandLine.Parser
import EventScript.Fault.Report
import EventScript.FileTree.Disk
import EventScript.Report
import EventScript.Terminal

/-!
# Running command lines

A command line is read, done, and reported. Reports go to the output and faults to the diagnostics; the
exit code is that of the fault, or zero. A command line that cannot be read is reported as plain text
whatever it asks for.

A build settles its doubts in a fixed order before it touches anything: the format, whether the input is
there, and whether an output that is there may be overwritten. Only an explicit yes on a terminal
counts as leave to overwrite.

Reports and diagnostics are taken to go to files, not to a terminal: JSON is compact, and `--color auto` colours
nothing. Log lines and the text of completion scripts are left out, and so are failures to print.

* `isYes_iff`: the answers that are an explicit yes.
-/

namespace EventScript.CommandLine

/-- What a run leaves to be seen (`RunOutcome`). -/
structure Outcome where
  code : Nat
  /-- The question put on the terminal, empty if none was. -/
  asked : String := ""
  output : String := ""
  /-- The shell for which a completion script goes to the output. The script itself is left out: its text is
  no business of this library. -/
  completes : Option Shell := none
  diagnostics : String := ""
  deriving DecidableEq, Repr

/-- Lines with a line feed after each. -/
def unlines (lines : List String) : String :=
  String.join (lines.map fun line => line ++ "\n")

namespace Outcome

/-- All that the user sees beside the output. -/
def shown (o : Outcome) : String :=
  o.asked ++ o.diagnostics

/-- A run that succeeds (`emit_json`). -/
def success (inv : Invocation) (json : Json.Value) (lines : List String) : Outcome :=
  { code := 0, output := unlines (if inv.json then [json.text] else lines) }

/-- A run that fails (`emit_error`). The diagnostics do not go to a terminal. -/
def failure (inv : Invocation) (fault : Fault) : Outcome :=
  let fault := fault.advise
  { code := fault.exitCode
    diagnostics := unlines
      [if inv.json then fault.json.text else fault.text (inv.color.colored false)] }

/-- A run that ends with the reading of its command line. -/
def ofStop : Stop → Outcome
  | .help l => { code := 0, output := unlines l.page.lines }
  | .version => { code := 0, output := unlines [versionLine] }
  | .overview => { code := 2, diagnostics := unlines Level.top.page.lines }
  | .refused r => { code := r.fault.exitCode, diagnostics := unlines [r.fault.text false] }

end Outcome

/-! ## Consent -/

/-- Whether an answer is an explicit yes (`parse_answer`). -/
def isYes (answer : String) : Bool :=
  let word := String.ofList ((Text.trim answer.toList).map Char.toLower)
  word = "y" ∨ word = "yes"

/-- The words that say yes, in small letters or capitals. -/
inductive YesWord : List Char → Prop
  | short {y : Char} (hy : y = 'y' ∨ y = 'Y') : YesWord [y]
  | long {y e s : Char} (hy : y = 'y' ∨ y = 'Y') (he : e = 'e' ∨ e = 'E') (hs : s = 's' ∨ s = 'S') :
      YesWord [y, e, s]

/-- An answer says yes: it is a word that does, with any white space around it. -/
def SaysYes (answer : String) : Prop :=
  ∃ before word after, answer.toList = before ++ word ++ after ∧ Text.IsBlank before ∧ YesWord word ∧
    Text.IsBlank after

/-- A small letter comes of itself and of its capital. -/
theorem toLower_eq_iff {c lower : Char} (h : lower = 'y' ∨ lower = 'e' ∨ lower = 's') :
    c.toLower = lower ↔ c = lower ∨ c = lower.toUpper := by
  unfold Char.toLower
  split
  next hc =>
    have hleast : 65 ≤ c.toNat := hc.1
    have hmost : c.toNat ≤ 90 := hc.2
    rcases h with rfl | rfl | rfl <;> simp [Char.ext_iff, ← UInt32.toNat_inj] <;> omega
  next hc =>
    constructor
    · exact .inl
    · rintro (rfl | rfl)
      · rfl
      · rcases h with rfl | rfl | rfl <;> exact absurd (by decide) hc

theorem map_toLower_eq_iff {word : List Char} :
    word.map Char.toLower = ['y'] ∨ word.map Char.toLower = ['y', 'e', 's'] ↔ YesWord word := by
  have hy {c : Char} : c.toLower = 'y' ↔ c = 'y' ∨ c = 'Y' := toLower_eq_iff (.inl rfl)
  have he {c : Char} : c.toLower = 'e' ↔ c = 'e' ∨ c = 'E' := toLower_eq_iff (.inr (.inl rfl))
  have hs {c : Char} : c.toLower = 's' ↔ c = 's' ∨ c = 'S' := toLower_eq_iff (.inr (.inr rfl))
  simp only [List.map_eq_cons_iff, List.map_eq_nil_iff, hy, he, hs]
  constructor
  · rintro (⟨y, _, rfl, hy, rfl⟩ | ⟨y, _, rfl, hy, e, _, rfl, he, s, _, rfl, hs, rfl⟩)
    · exact .short hy
    · exact .long hy he hs
  · intro h
    cases h with
    | short hy => exact .inl ⟨_, _, rfl, hy, rfl⟩
    | long hy he hs => exact .inr ⟨_, _, rfl, hy, _, _, rfl, he, _, _, rfl, hs, rfl⟩

theorem YesWord.isWhiteSpace {word : List Char} (h : YesWord word) :
    ∀ c ∈ word, Text.isWhiteSpace c = false := by
  cases h with
  | @short y hy =>
    have hy : Text.isWhiteSpace y = false := by rcases hy with rfl | rfl <;> decide
    simp [hy]
  | @long y e s hy he hs =>
    have hy : Text.isWhiteSpace y = false := by rcases hy with rfl | rfl <;> decide
    have he : Text.isWhiteSpace e = false := by rcases he with rfl | rfl <;> decide
    have hs : Text.isWhiteSpace s = false := by rcases hs with rfl | rfl <;> decide
    simp [hy, he, hs]

theorem YesWord.ne_nil {word : List Char} (h : YesWord word) : word ≠ [] := by
  cases h <;> simp

/-- The answers that are an explicit yes are those that say yes, and no others. -/
theorem isYes_iff {answer : String} : isYes answer = true ↔ SaysYes answer := by
  have hword : isYes answer = true ↔ YesWord (Text.trim answer.toList) := by
    rw [← map_toLower_eq_iff]
    simp [isYes, ← String.toList_inj]
  rw [hword]
  constructor
  · intro h
    obtain ⟨before, after, hbefore, hafter, hsplit⟩ := Text.exists_trim answer.toList
    exact ⟨before, _, after, hsplit, hbefore, h, hafter⟩
  · rintro ⟨before, word, after, hsplit, hbefore, h, hafter⟩
    rwa [hsplit, Text.trim_eq hbefore hafter h.isWhiteSpace h.ne_nil]

/-- The question whether to overwrite a file. -/
def overwriteQuestion (output : Bytes) : String :=
  "Output file '" ++ Utf8.lossy output ++ "' exists, overwrite? [y/N] "

/-- The fault that an output is which may not be overwritten. -/
def overwriteFault (output : Bytes) : Fault where
  kind := .alreadyExists
  message := some ("output file '" ++ Utf8.lossy output ++ "' already exists")
  path := some output
  hint := some "Pass --yes to overwrite, or choose another output path."

/-- The fault that an answer is which is no text. -/
def answerFault : Fault where
  kind := .io
  message := some "failed to read confirmation"
  causes := ["stream did not contain valid UTF-8"]

/-- The fault that an input is which is not there. -/
def inputFault (input : Bytes) : Fault where
  kind := .notFound
  message := some ("input file '" ++ Utf8.lossy input ++ "' does not exist")
  path := some input

/-- What an answer to the question means; without a terminal there is none. -/
def judge (output : Bytes) : (answer : Option Bytes) → Except Fault Unit
  | none => .error (overwriteFault output)
  | some line =>
    match Utf8.decode? line with
    | none => .error answerFault
    | some text => if isYes text then .ok () else .error (overwriteFault output)

/-! ## Commands -/

/-- The job of a build. -/
def jobOf (input : Bytes) (output : Option Bytes) (format : Option Table.Format) : Job :=
  { input, output := output.getD (Job.defaultOutput input), format }

section

variable {m : Type → Type} {T : Type} [Monad m] [FileStore m T]

/-- Does a job and reports it. -/
def runJob (inv : Invocation) (job : Job) : m Outcome := do
  match ← (job.run : ExceptT Fault m Build).run with
  | .error fault => return .failure inv fault
  | .ok b => return .success inv b.json b.lines

/-- Builds a script file. The question, if there is one (`confirm_overwrite`), is put by `ask`, which gives
the line typed in answer, or nothing if there is no terminal. -/
def runBuild (ask : String → m (Option Bytes)) (inv : Invocation) (job : Job) (yes : Bool) :
    m Outcome := do
  match job.resolveFormat with
  | .error fault => return .failure inv fault
  | .ok _ =>
    if !(← FileStore.exists? job.input) then return .failure inv (inputFault job.input)
    if yes || !(← FileStore.exists? job.output) then runJob inv job
    else
      let question := overwriteQuestion job.output
      let answer ← ask question
      let asked := if answer.isSome then question else ""
      match judge job.output answer with
      | .error fault => return { Outcome.failure inv fault with asked }
      | .ok () => return { ← runJob inv job with asked }

/-- Lists a script file. -/
def runInspect (inv : Invocation) (file : Bytes) : m Outcome := do
  match ← (inspectFile file : ExceptT Fault m Script).run with
  | .error fault => return .failure inv fault
  | .ok s => return .success inv (s.json file) (s.lines file)

/-- Runs a command line that has been read (`dispatch_command`). -/
def perform (ask : String → m (Option Bytes)) (inv : Invocation) : m Outcome :=
  match inv.command with
  | .build input output format yes => runBuild ask inv (jobOf input output format) yes
  | .inspect file => runInspect inv file
  | .completion shell => return { code := 0, completes := some shell }

/-- Runs a command line (`run`). -/
def run (ask : String → m (Option Bytes)) (arguments : List Bytes) : m Outcome :=
  match parse arguments with
  | .error stop => return .ofStop stop
  | .ok inv => perform ask inv

end

/-! ## On a file tree -/

/-- Runs a command line on a file tree. What is typed in answer to a question is given beforehand; without
it there is no terminal. -/
def runOn (t : FileTree) (typed : Option Bytes) (arguments : List Bytes) : Outcome × FileTree :=
  (run (fun _ => pure (typed.map Terminal.typedLine)) arguments : StateM FileTree Outcome).run t

end EventScript.CommandLine
