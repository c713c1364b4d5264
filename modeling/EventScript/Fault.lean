import EventScript.Decimal
import EventScript.Text.Utf8

/-!
# Faults

A fault says why a run gave nothing: its kind, and whatever is known of the place and the reason. The
kind alone decides the exit code. Each stage reports what went wrong in a type of its own and turns it
into a fault in one place.
-/

namespace EventScript

/-- The kinds of fault (`ErrorKind`). -/
inductive Fault.Kind
  | internal
  | usage
  | notFound
  | alreadyExists
  | format
  | parse
  | rowArity
  | fieldType
  | embeddedTerminator
  | noData
  | write
  | io
  | corrupt
  deriving DecidableEq, Repr

namespace Fault.Kind

/-- Every kind, in the order of the exit codes. -/
def all : List Fault.Kind :=
  [.internal, .usage, .notFound, .alreadyExists, .format, .parse, .rowArity, .fieldType,
    .embeddedTerminator, .noData, .write, .io, .corrupt]

/-- The stable name of a kind (`ErrorKind.label`). -/
def label : Fault.Kind → String
  | .internal => "Internal"
  | .usage => "Usage"
  | .notFound => "NotFound"
  | .alreadyExists => "AlreadyExists"
  | .format => "Format"
  | .parse => "Parse"
  | .rowArity => "RowArity"
  | .fieldType => "FieldType"
  | .embeddedTerminator => "EmbeddedTerminator"
  | .noData => "NoData"
  | .write => "Write"
  | .io => "Io"
  | .corrupt => "Corrupt"

/-- The exit code of a kind (`to_exit_code`). -/
def exitCode : Fault.Kind → Nat
  | .internal => 1
  | .usage => 2
  | .notFound => 3
  | .alreadyExists => 4
  | .format => 5
  | .parse => 6
  | .rowArity => 7
  | .fieldType => 8
  | .embeddedTerminator => 9
  | .noData => 10
  | .write => 11
  | .io => 12
  | .corrupt => 13

/-- What is said of a fault that has no message of its own (`error_message`). -/
def summary : Fault.Kind → String
  | .internal => "internal error"
  | .usage => "usage error"
  | .notFound => "not found"
  | .alreadyExists => "already exists"
  | .format => "unsupported input format"
  | .parse => "malformed input"
  | .rowArity => "incorrect row length"
  | .fieldType => "invalid field type"
  | .embeddedTerminator => "field contains a NUL byte"
  | .noData => "no data generated"
  | .write => "write failed"
  | .io => "i/o error"
  | .corrupt => "corrupt script data"

/-- A name is that of one kind only. -/
theorem label_inj {j k : Fault.Kind} (h : j.label = k.label) : j = k := by
  revert h
  cases j <;> cases k <;> decide

/-- So is an exit code. -/
theorem exitCode_inj {j k : Fault.Kind} (h : j.exitCode = k.exitCode) : j = k := by
  revert h
  cases j <;> cases k <;> decide

end Fault.Kind

/-- A fault (`Error`). -/
structure Fault where
  kind : Fault.Kind
  message : Option String := none
  /-- The file concerned. -/
  path : Option Bytes := none
  /-- The input row concerned, counted from 1. -/
  row : Option Nat := none
  /-- The column concerned, by name. -/
  field : Option String := none
  /-- The place in a script, in octets from its start. -/
  offset : Option Nat := none
  hint : Option String := none
  /-- The chain of causes, outermost first. -/
  causes : List String := []
  deriving DecidableEq, Repr

namespace Fault

/-- The fault with the file concerned (`Error.with_path`). -/
def inFile (f : Fault) (path : Bytes) : Fault :=
  { f with path := some path }

/-- The fault with the file concerned, unless it names one already. -/
def orInFile (f : Fault) (path : Bytes) : Fault :=
  if f.path.isSome then f else f.inFile path

/-- What is said of the fault (`error_message`). -/
def statement (f : Fault) : String :=
  f.message.getD f.kind.summary

/-- The exit code of a run that ends with the fault. -/
def exitCode (f : Fault) : Nat :=
  f.kind.exitCode

/-- The fault on one line, with its kind and place. -/
def display (f : Fault) : String :=
  let part (before : String) (value : Option String) (after : String) : String :=
    value.elim "" fun v => before ++ v ++ after
  f.kind.label ++ part ": " f.message "" ++ part " (row: " (f.row.map Decimal.nat) ")" ++
    part " (field: " f.field ")" ++ part " (path: " (f.path.map Utf8.lossy) ")" ++
    part " (offset: " (f.offset.map Decimal.nat) ")"

end Fault

end EventScript
