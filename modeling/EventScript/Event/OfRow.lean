import EventScript.Event
import EventScript.Table
import EventScript.Text.Quoted
import EventScript.Text.WhiteSpace

/-!
# Events of table rows

A row gives an event when it has six cells, the first holds a timer, and the others have text forms
without a NUL. A row that gives none is refused for its leftmost fault.

A timer is a signed 64-bit integer: the value of a number cell, or the numeral in a text cell with any white
space around it. A number that no signed word holds is tried as the binary64 number nearest to it.

* `timerOfInt?_toInt`, `timerOfNumber?_ofInt64`: a timer is read back as an integer and as a number.
-/

namespace EventScript

open Table (Cell Row)

/-! ## Timers -/

/-- Why a cell holds no timer. -/
inductive TimerDefect
  /-- A number that is no signed 64-bit integer. -/
  | number (n : Json.Number)
  /-- A text, white space apart, that is no numeral of one. -/
  | text (trimmed : List Char)
  /-- Octets that are no text. -/
  | notUtf8
  /-- A cell of another kind. -/
  | otherKind
  deriving DecidableEq, Repr

/-- The words for a cell that holds no timer (`parse_timer`). -/
def TimerDefect.message : TimerDefect → String
  | .number n => "timer " ++ n.text ++ " is not a 64-bit signed integer"
  | .text trimmed => "timer " ++ Text.quote trimmed ++ " is not a 64-bit signed integer"
  | .notUtf8 => "timer is not valid utf-8"
  | .otherKind => "timer is not a 64-bit signed integer"

/-- The timer of an integer in range. -/
def timerOfInt? (z : Int) : Option Int64 :=
  if (Int64.ofInt z).toInt = z then some (Int64.ofInt z) else none

/-- One more than the greatest timer. The least one is the negative of it. -/
def timerLimit : Int := 0x8000000000000000

/-- The timer of a binary64 number that is whole and in range (`integral_f64`). -/
def timerOfBinary64? (x : Binary64) : Option Int64 :=
  match x.toInt? with
  | some z => if -timerLimit ≤ z ∧ z < timerLimit then some (Int64.ofIntClamp z) else none
  | none => none

/-- The timer of a number: its signed word, or else what the binary64 number nearest to it gives. -/
def timerOfNumber? (n : Json.Number) : Option Int64 :=
  n.toInt64?.or (n.toBinary64?.bind timerOfBinary64?)

/-- The timer that a cell holds (`parse_timer`). -/
def timerOfCell : Cell → Except TimerDefect Int64
  | .number n => (timerOfNumber? n).elim (.error (.number n)) .ok
  | .text octets =>
    match Utf8.decode? octets with
    | none => .error .notUtf8
    | some text =>
      let trimmed := Text.trim text.toList
      ((Decimal.int? trimmed).bind timerOfInt?).elim (.error (.text trimmed)) .ok
  | .bool _ | .null | .nested => .error .otherKind

@[simp]
theorem timerOfInt?_toInt (timer : Int64) : timerOfInt? timer.toInt = some timer := by
  rw [timerOfInt?, Int64.ofInt_toInt, if_pos rfl]

@[simp]
theorem timerOfNumber?_ofInt64 (timer : Int64) : timerOfNumber? (.whole (.ofInt64 timer)) = some timer := by
  rw [timerOfNumber?, Json.Number.toInt64?_ofInt64, Option.some_or]

/-! ## Texts -/

/-- The text form of a cell; a list or an object has none (`string_field`). -/
def textOfCell? : Cell → Option Bytes
  | .text octets => some octets
  | .number n => some (Utf8.encode n.text)
  | .bool b => some (Utf8.encode (if b then "true" else "false"))
  | .null => some (Utf8.encode "null")
  | .nested => none

/-! ## Rows -/

/-- Why a row gives no event. -/
inductive RowDefect
  /-- It is no list of cells. -/
  | noCells
  /-- It has another number of cells than there are columns. -/
  | arity (found : Nat) (line : Option Nat)
  /-- Its first cell holds no timer. -/
  | timer (d : TimerDefect)
  /-- The cell of a column that holds text is a list or an object. -/
  | nested (column : Column)
  /-- The text form of a cell has a NUL. -/
  | embeddedNul (d : EmbeddedNul)
  deriving DecidableEq, Repr

/-- The fault that a defect of row number `index` is. -/
def RowDefect.fault (index : Nat) : RowDefect → Fault
  | .noCells =>
    { kind := .rowArity, message := some "row is not a list of fields", row := some index }
  | .arity found line =>
    { kind := .rowArity
      message := some ("incorrect length: expected " ++ Decimal.nat Column.count ++
        " fields, found " ++ Decimal.nat found)
      row := some index
      hint := line.map fun n => "See input line " ++ Decimal.nat n ++ "." }
  | .timer d =>
    { kind := .fieldType, message := some d.message, row := some index
      field := some Column.timer.name }
  | .nested column =>
    { kind := .fieldType
      message := some "expected a scalar value, found a nested list or object"
      row := some index, field := some column.name }
  | .embeddedNul d => { d.fault with row := some index }

/-- The text that the cell of a column holds. -/
def fieldOfCell (column : Column) (cell : Cell) : Except RowDefect Field :=
  match textOfCell? cell with
  | none => .error (.nested column)
  | some octets => (Event.field column octets).mapError .embeddedNul

/-- The event of a list of cells; `line` is where they stand, if that is known. -/
def Event.ofCells (line : Option Nat) (cells : List Cell) : Except RowDefect Event :=
  match cells with
  | [timer, system, target, source, command, arguments] => do
    let timer ← (timerOfCell timer).mapError .timer
    let fields ← Texts.traverse fieldOfCell ⟨system, target, source, command, arguments⟩
    return { fields with timer }
  | _ => .error (.arity cells.length line)

/-- The event that a row gives (`validate_row`). -/
def Event.ofRow (row : Row) : Except RowDefect Event :=
  match row.cells with
  | none => .error .noCells
  | some cells => Event.ofCells row.line cells

end EventScript
