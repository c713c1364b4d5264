import EventScript.Fault
import EventScript.Path

/-!
# Table formats

A table is written as CSV or as JSON. Unless the format is given, the extension of the file tells it, in
either case of letters.
-/

namespace EventScript.Table

/-- The formats that tables are written in (`InputFormat`). -/
inductive Format
  | csv
  | json
  deriving DecidableEq, Repr

/-- Why an extension tells no format. -/
inductive UnknownFormat
  /-- There is no extension. -/
  | noExtension
  /-- The extension belongs to a format that may be read one day. -/
  | planned (extension : Bytes)
  /-- The extension belongs to another format. -/
  | unsupported (extension : Bytes)
  deriving DecidableEq, Repr

namespace Format

/-- The name of a format (`InputFormat.label`). -/
def label : Format → String
  | .csv => "csv"
  | .json => "json"

/-- The format with a given name. -/
def ofLabel? (name : Bytes) : Option Format :=
  [csv, json].find? fun f => Utf8.encode f.label == name

/-- The format that an extension tells. -/
def ofExtension (extension : Bytes) : Except UnknownFormat Format :=
  let lower := String.ofList ((Utf8.lossyChars extension).map Char.toLower)
  if lower = "csv" then .ok .csv
  else if lower = "json" then .ok .json
  else if lower = "yml" ∨ lower = "yaml" then .error (.planned extension)
  else .error (.unsupported extension)

/-- The format that the extension of a path tells (`InputFormat.from_path`). -/
def ofPath (path : Bytes) : Except UnknownFormat Format :=
  match Path.extension? path with
  | none => .error .noExtension
  | some extension => ofExtension extension

end Format

namespace UnknownFormat

/-- The words for a format that is not known. -/
def message : UnknownFormat → String
  | .noExtension => "input file has no extension"
  | .planned extension => "file format '" ++ Utf8.lossy extension ++ "' not yet supported"
  | .unsupported extension => "file format '" ++ Utf8.lossy extension ++ "' not supported"

/-- What to do about a format that is not known. -/
def hint : UnknownFormat → String
  | .planned _ => "Convert the table to .csv or .json."
  | _ => "Use a .csv or .json input file, or pass --in csv|json."

/-- The fault that an unknown format is, for the file at `path`. -/
def fault (u : UnknownFormat) (path : Bytes) : Fault :=
  { kind := .format, message := some u.message, path := some path, hint := some u.hint }

end UnknownFormat

end EventScript.Table
