import EventScript.Event.OfRow
import EventScript.Script

/-!
# Compiling tables

A table compiles to the script of its rows' events. Rows are turned into events one at a time and each
event goes to the builder at once, so the earliest row at fault decides the fault.
-/

namespace EventScript

namespace Table

/-- The event of a row (`validate_row`). -/
def Row.event (row : Row) : Except Fault Event :=
  (Event.ofRow row).mapError (RowDefect.fault row.index)

/-- The events of all rows (`validate_rows`). -/
def events (rows : List Row) : Except Fault (List Event) :=
  rows.mapM Row.event

/-- The rows of a table, with the fault that a malformed table is. -/
def rows (format : Format) (input : Bytes) : Except Fault (List Row) :=
  (read format input).mapError Malformed.fault

end Table

/-- A compiled table: the octets of its script, and how many records they hold. -/
structure Compiled where
  script : Bytes
  records : Nat
  deriving DecidableEq, Repr

namespace Compile

open Table (Format Row)

/-- Gives a builder the events of rows, up to the first row that has none. -/
def pushRows (b : Script.Builder) : List Row → Except Fault Script.Builder
  | [] => .ok b
  | row :: rest =>
    match row.event with
    | .error fault => .error fault
    | .ok e => pushRows (b.push e) rest

/-- The script of some rows (`encode_rows`). -/
def compileRows (rows : List Row) : Except Fault Compiled := do
  let b ← pushRows .empty rows
  let script ← b.finish.mapError Script.Refusal.fault
  return ⟨script, b.count⟩

/-- The script of a table (`compile_bytes`). -/
def compileTable (format : Format) (input : Bytes) : Except Fault Compiled := do
  let rows ← Table.rows format input
  compileRows rows

end Compile

end EventScript
