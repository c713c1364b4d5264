import EventScript.Fault

/-!
# Events

An event is one command of a game script: when it happens, and five texts that say what. In a table it
is a row of six columns, the timer first. The texts are octet strings without a NUL, because NUL ends
them in a script.

* `Field.ofBytes?_eq_none_iff`: the octets that are no text are those with a NUL.
-/

namespace EventScript

/-! ## Columns -/

/-- The columns of an event table, in order. -/
inductive Column
  | timer
  | system
  | target
  | source
  | command
  | arguments
  deriving DecidableEq, Repr

namespace Column

/-- The name of a column (`FIELD_NAMES`). -/
def name : Column → String
  | .timer => "timer"
  | .system => "system"
  | .target => "to"
  | .source => "from"
  | .command => "command"
  | .arguments => "arguments"

/-- How many columns there are (`ROW_ARITY`). -/
def count : Nat := 6

/-- The columns that hold text, in order. -/
def texts : List Column := [.system, .target, .source, .command, .arguments]

end Column

/-- Something for each of the columns that hold text. -/
structure Texts (α : Type) where
  system : α
  target : α
  source : α
  command : α
  arguments : α
  deriving DecidableEq, Repr

namespace Texts

/-- The parts, in the order of the columns. -/
def toList {α : Type} (t : Texts α) : List α :=
  [t.system, t.target, t.source, t.command, t.arguments]

/-- Transforms each part, in the order of the columns; the first error ends it. -/
def traverse {ε α β : Type} (f : Column → α → Except ε β) (t : Texts α) : Except ε (Texts β) := do
  let system ← f .system t.system
  let target ← f .target t.target
  let source ← f .source t.source
  let command ← f .command t.command
  let arguments ← f .arguments t.arguments
  return ⟨system, target, source, command, arguments⟩

end Texts

/-! ## Fields -/

/-- A text of an event: octets without a NUL. -/
structure Field where
  octets : Bytes
  nulFree : Ascii.nul ∉ octets
  deriving DecidableEq, Repr

namespace Field

/-- Octets as a text, if none of them is NUL. -/
def ofBytes? (octets : Bytes) : Option Field :=
  if h : Ascii.nul ∈ octets then none else some ⟨octets, h⟩

theorem ofBytes?_eq_none_iff {octets : Bytes} : ofBytes? octets = none ↔ Ascii.nul ∈ octets := by
  unfold ofBytes?
  split <;> simp_all

@[simp]
theorem ofBytes?_octets (f : Field) : ofBytes? f.octets = some f := by
  simp [ofBytes?, f.nulFree]

end Field

/-! ## Events -/

/-- An event (`ScriptRow`). -/
structure Event extends Texts Field where
  timer : Int64
  deriving DecidableEq, Repr

/-- A NUL inside a text: its column, and how many octets come before it. -/
structure EmbeddedNul where
  column : Column
  position : Nat
  deriving DecidableEq, Repr

namespace EmbeddedNul

/-- The words for a NUL inside a text. -/
def message (d : EmbeddedNul) : String :=
  "field contains a NUL byte at position " ++ Decimal.nat d.position

/-- The fault that a NUL inside a text is. -/
def fault (d : EmbeddedNul) : Fault :=
  { kind := .embeddedTerminator, message := some d.message, field := some d.column.name }

end EmbeddedNul

namespace Event

/-- Octets as the text of a column (`check_terminator`). -/
def field (column : Column) (octets : Bytes) : Except EmbeddedNul Field :=
  match Field.ofBytes? octets with
  | some f => .ok f
  | none => .error ⟨column, octets.idxOf Ascii.nul⟩

/-- An event with given texts (`ScriptRow.new`). The leftmost text with a NUL is refused. -/
def make (timer : Int64) (texts : Texts Bytes) : Except EmbeddedNul Event := do
  let fields ← texts.traverse field
  return { fields with timer }

/-- The octets of the texts (`string_fields`). -/
def octets (e : Event) : Texts Bytes where
  system := e.system.octets
  target := e.target.octets
  source := e.source.octets
  command := e.command.octets
  arguments := e.arguments.octets

/-- The separate arguments: the parts of the arguments text between semicolons (`argument_list`). An empty
text is one empty argument. -/
def argumentList (e : Event) : List Bytes :=
  e.arguments.octets.splitOn Ascii.semicolon

end Event

end EventScript
