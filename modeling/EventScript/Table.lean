import EventScript.Csv
import EventScript.Json.Reader
import EventScript.Table.Format

/-!
# Event tables

Whatever its format, a table is a list of rows of cells, numbered from 1 with no gaps. Reading a table
checks neither how many cells a row has nor what they hold.

A CSV table has a row for each record, except those whose only field is empty; every cell is text. A JSON
table is an array of rows or an object whose values are the rows; a row that is no array is kept as a
row without cells.
-/

namespace EventScript.Table

/-- A cell (`RawValue`). -/
inductive Cell
  | text (octets : Bytes)
  | number (n : Json.Number)
  | bool (b : Bool)
  | null
  /-- A list or an object. -/
  | nested
  deriving DecidableEq, Repr

/-- A row (`RawRow`). -/
structure Row where
  /-- Its number, counted from 1. -/
  index : Nat
  /-- The line on which reading it began, if the format has lines. -/
  line : Option Nat
  /-- Its cells, if it is a list of cells at all. -/
  cells : Option (List Cell)
  deriving DecidableEq, Repr

/-- Why an octet string is no table. -/
inductive Malformed
  | json (e : Json.SyntaxError)
  /-- The JSON value is neither an array nor an object. -/
  | noRows
  deriving DecidableEq, Repr

/-- The fault that a malformed table is. -/
def Malformed.fault : Malformed → Fault
  | .json e =>
    { kind := .parse, message := some ("malformed json: " ++ e.text), causes := [e.text] }
  | .noRows =>
    { kind := .parse, message := some "json input must be a mapping of rows"
      hint := some "Use an object whose values are 6-element arrays." }

/-! ## CSV -/

/-- The row of a CSV record, by its position among the rows. -/
def rowOfRecord (position : Nat) (r : Csv.Record) : Row :=
  ⟨position + 1, some r.line, some (r.fields.map .text)⟩

/-- The rows of a CSV table (`parse_csv`). -/
def ofCsv (input : Bytes) : List Row :=
  ((Csv.read input).filter fun r => r.fields != [[]]).mapIdx rowOfRecord

/-! ## JSON -/

/-- The cell of a JSON value (`json_scalar`). -/
def cellOfValue : Json.Value → Cell
  | .string s => .text (Utf8.encode s)
  | .number n => .number n
  | .bool b => .bool b
  | .null => .null
  | .array _ | .object _ => .nested

/-- The cells of a JSON value. -/
def cellsOfValue : Json.Value → Option (List Cell)
  | .array items => some (items.map cellOfValue)
  | _ => none

/-- The row of a JSON value, by its position among the rows. -/
def rowOfValue (position : Nat) (v : Json.Value) : Row :=
  ⟨position + 1, none, cellsOfValue v⟩

/-- The values that are the rows of a JSON document. -/
def rowValues : Json.Value → Except Malformed (List Json.Value)
  | .array items => .ok items
  | .object members => .ok (members.map Prod.snd)
  | _ => .error .noRows

/-- The rows of a JSON table (`parse_json`). -/
def ofJson (input : Bytes) : Except Malformed (List Row) := do
  let document ← (Json.read input).mapError Malformed.json
  let values ← rowValues document
  return values.mapIdx rowOfValue

/-! ## Either format -/

/-- The rows of a table (`parse_rows`). -/
def read (format : Format) (input : Bytes) : Except Malformed (List Row) :=
  match format with
  | .csv => .ok (ofCsv input)
  | .json => ofJson input

end EventScript.Table
