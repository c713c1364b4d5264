import EventScript.Compile
import EventScript.FileStore

/-!
# Building script files

A job names a table file, the script file to make of it, and possibly the table's format. The table is
read, every row is checked and the whole script assembled before the script file is touched, so a job
that fails leaves the files as they were.
-/

namespace EventScript

/-- What to build (`CompileConfig`). -/
structure Job where
  input : Bytes
  output : Bytes
  /-- The format of the table, unless its extension tells. -/
  format : Option Table.Format
  deriving DecidableEq, Repr

/-- What was built (`CompileReport`). -/
structure Build where
  input : Bytes
  output : Bytes
  format : Table.Format
  records : Nat
  /-- The length of the script. -/
  bytes : Nat
  deriving DecidableEq, Repr

/-- A script file that was written (`WriteReport`). -/
structure Written where
  path : Bytes
  records : Nat
  /-- The length of the script. -/
  bytes : Nat
  deriving DecidableEq, Repr

namespace Job

/-- The extension of script files (`SCRIPT_EXTENSION`). -/
def scriptExtension : Bytes := Utf8.encode "sdf"

/-- Where the script of a table goes if no place is given: next to it (`default_output_path`). -/
def defaultOutput (input : Bytes) : Bytes :=
  Path.withExtension scriptExtension input

/-- The job of building a table's script next to it (`CompileConfig.new`). -/
def ofInput (input : Bytes) : Job :=
  ⟨input, defaultOutput input, none⟩

/-- The format of the job's table (`resolve_format`). -/
def resolveFormat (job : Job) : Except Fault Table.Format :=
  match job.format with
  | some format => .ok format
  | none => (Table.Format.ofPath job.input).mapError fun u => u.fault job.input

end Job

/-- The fault that a failure to read a file is (`read_error`). -/
def FileError.readFault (what : String) (path : Bytes) (e : FileError) : Fault :=
  { kind := if e = .notFound then .notFound else .io
    message := some ("failed to read " ++ what ++ " file")
    path := some path, causes := [e.message] }

/-- The fault that a failure to write a script file is (`write_error`). -/
def FileError.writeFault (path : Bytes) (e : FileError) : Fault :=
  { kind := .write, message := some "failed to write script file"
    path := some path, causes := [e.message] }

section

variable {m : Type → Type} {T : Type} [Monad m] [FileStore m T]

/-- The rows of a table file (`read_rows`). -/
def readRows (format : Table.Format) (path : Bytes) : ExceptT Fault m (List Table.Row) := do
  let content ← ExceptT.mk (FileStore.read path)
    |>.adapt (FileError.readFault "input" path)
  ExceptT.mk (pure ((Table.rows format content).mapError (·.orInFile path)))

/-- Writes a script file that holds `records` records (`write_script`). -/
def writeScript (path script : Bytes) (records : Nat) : ExceptT Fault m Written := do
  (FileStore.replace path script).adapt (FileError.writeFault path)
  return ⟨path, records, script.length⟩

/-- Does a job (`compile`). -/
def Job.run (job : Job) : ExceptT Fault m Build := do
  let format ← ExceptT.mk (pure job.resolveFormat)
  let rows ← readRows format job.input
  let compiled ← ExceptT.mk (pure ((Compile.compileRows rows).mapError (·.inFile job.input)))
  let written ← writeScript job.output compiled.script compiled.records
  return ⟨job.input, written.path, format, written.records, written.bytes⟩

/-- The script that a file holds (`inspect_file`). -/
def inspectFile (path : Bytes) : ExceptT Fault m Script := do
  let content ← ExceptT.mk (FileStore.read path)
    |>.adapt (FileError.readFault "script" path)
  ExceptT.mk (pure ((Script.decode content).mapError fun c => c.fault.inFile path))

end

end EventScript
