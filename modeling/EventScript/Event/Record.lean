import EventScript.Event

/-!
# Records

In a script an event is a record: the timer as eight octets, least significant first, and then each
text followed by a NUL. A record holds no length; its end is where the fifth NUL after the timer
stands.

* `length_encode`: a record is as long as `encodedLength` says.
-/

namespace EventScript

namespace Field

/-- The text up to the first NUL, with the octets after that NUL. -/
def read (s : Bytes) : Option (Field × Bytes) :=
  match s.dropWhile (· != Ascii.nul) with
  | [] => none
  | _ :: rest =>
    some (⟨s.takeWhile (· != Ascii.nul), fun h => by
      have := List.all_eq_true.mp List.all_takeWhile _ h
      simp at this⟩, rest)

end Field

/-- What a truncated record lacks. -/
inductive Truncation
  /-- The eight octets of the timer. -/
  | timer
  /-- The NUL after a text, which starts `offset` octets into the record. -/
  | text (column : Column) (offset : Nat)
  deriving DecidableEq, Repr

namespace Truncation

/-- The words for a truncated record. -/
def message : Truncation → String
  | .timer => "record truncated before timer"
  | .text column _ => "record truncated in field " ++ column.name

/-- The column that a truncated record breaks off in, past its timer. -/
def column? : Truncation → Option Column
  | .timer => none
  | .text column _ => some column

/-- Where what is lacking starts, in octets from the start of the record. -/
def offset : Truncation → Nat
  | .timer => 0
  | .text _ offset => offset

/-- The fault that a truncated record is, where the record starts `start` octets into its input. -/
def fault (t : Truncation) (start : Nat) : Fault :=
  { kind := .corrupt, message := some t.message, field := t.column?.map Column.name
    offset := some (start + t.offset) }

end Truncation

namespace Event

/-- How many octets a timer takes (`TIMER_LEN`). -/
def timerLength : Nat := 8

/-- The octets of a timer. -/
def timerOctets (timer : Int64) : Bytes :=
  LittleEndian.encode timerLength timer.toUInt64.toNat

/-- The timer with given octets (`read_i64`). -/
def timerOfOctets (bs : Bytes) : Int64 :=
  (UInt64.ofNat (LittleEndian.decode bs)).toInt64

/-- The record of an event (`encode_into`). -/
def encode (e : Event) : Bytes :=
  timerOctets e.timer ++ e.toTexts.toList.flatMap fun f => f.octets ++ [Ascii.nul]

/-- How long the record of an event is (`encoded_len`). -/
def encodedLength (e : Event) : Nat :=
  e.toTexts.toList.foldr (fun f n => f.octets.length + 1 + n) timerLength

/-- The text of a column at the front of what is left of a record. -/
def readField (record : Bytes) (column : Column) (s : Bytes) : Except Truncation (Field × Bytes) :=
  match Field.read s with
  | some found => .ok found
  | none => .error (.text column (record.length - s.length))

/-- The event at the front of some octets, with the octets after its record (`decode`). -/
def decode (record : Bytes) : Except Truncation (Event × Bytes) := do
  let front := record.take timerLength
  if front.length < timerLength then throw .timer
  let (system, s) ← readField record .system (record.drop timerLength)
  let (target, s) ← readField record .target s
  let (source, s) ← readField record .source s
  let (command, s) ← readField record .command s
  let (arguments, s) ← readField record .arguments s
  return (⟨⟨system, target, source, command, arguments⟩, timerOfOctets front⟩, s)

theorem length_encode (e : Event) : e.encode.length = e.encodedLength := by
  simp only [encode, encodedLength, timerOctets, Texts.toList, List.length_append,
    LittleEndian.length_encode, List.flatMap_cons, List.flatMap_nil, List.length_nil, List.length_cons,
    List.foldr_cons, List.foldr_nil]
  omega

end Event

end EventScript
