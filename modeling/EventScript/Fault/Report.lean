import EventScript.Fault
import EventScript.Json.Writer

/-!
# Reporting faults

A fault is reported as lines of text, one part a line and each part labelled, or as one JSON object.
The text shows only the outermost cause; the object holds the whole chain.
-/

namespace EventScript.Fault

/-- General advice for kinds of fault that come from the file system. -/
def Kind.advice? : Kind → Option String
  | .write =>
    some "Check that the output directory exists and is writable, and that the disk has space."
  | .io => some "I/O error. Check the path and file permissions."
  | .notFound => some "Check the input path."
  | _ => none

/-- The fault with general advice, unless it has a hint already (`add_io_hint`). -/
def advise (f : Fault) : Fault :=
  { f with hint := f.hint <|> f.kind.advice? }

/-! ## Text -/

/-- The colours of labels (`AnsiColor`). -/
inductive Color
  | red
  | yellow
  deriving DecidableEq, Repr

/-- The terminal code of a colour. -/
def Color.code : Color → String
  | .red => "31"
  | .yellow => "33"

/-- A label, coloured or not (`colorize_label`). -/
def label (colored : Bool) (color : Color) (text : String) : String :=
  if colored then "\x1b[" ++ color.code ++ "m" ++ text ++ "\x1b[0m" else text

/-- The lines that report the fault. -/
def lines (colored : Bool) (f : Fault) : List String :=
  let row := f.row.elim "" fun n => "row " ++ Decimal.nat n ++ ": "
  let part (name : String) (value : Option String) : List String :=
    value.toList.map fun v => label colored .yellow name ++ " " ++ v
  (label colored .red "error:" ++ " " ++ row ++ f.statement) ::
    (part "field:" f.field ++ part "path:" (f.path.map Utf8.lossy) ++
      part "offset:" (f.offset.map Decimal.nat) ++ part "hint:" f.hint ++
      part "caused by:" f.causes.head?)

/-- The report of the fault as text (`error_text`). -/
def text (colored : Bool) (f : Fault) : String :=
  "\n".intercalate (f.lines colored)

/-! ## JSON -/

/-- The members that describe the fault: the kind and the statement, then each part that is set. -/
def members (f : Fault) : List (String × Json.Value) :=
  let part (name : String) (value : Option Json.Value) : List (String × Json.Value) :=
    value.toList.map fun v => (name, v)
  [("kind", .string f.kind.label), ("message", .string f.statement)] ++
    part "hint" (f.hint.map .string) ++
    part "path" (f.path.map fun p => .string (Utf8.lossy p)) ++
    part "row" (f.row.map .count) ++
    part "field" (f.field.map .string) ++
    part "offset" (f.offset.map .count) ++
    part "causes" (if f.causes.isEmpty then none else some (.array (f.causes.map .string)))

/-- The report of the fault as a JSON object (`error_json`). -/
def json (f : Fault) : Json.Value :=
  .object [("error", .object f.members)]

end EventScript.Fault
