import EventScript.Bytes

/-!
# Comma-separated values

A CSV text is a sequence of records, each ended by a line feed, a carriage return or the end of the
text; fields are separated by commas. A field whose first octet is a quote runs to the next quote that
is not doubled, whatever lies between; anywhere else a quote is an octet like any other. Line ends
where a record could start are skipped, so blank lines hold no record, and every record has a field.

The line of a record is where reading it began: just after the octet that ended the record before.

The reader looks at one octet at a time, so its work on a text is a fold over the octets.
-/

namespace EventScript.Csv

/-- A record: its fields and the line on which reading it began. -/
structure Record where
  line : Nat
  fields : List Bytes
  deriving DecidableEq, Repr

/-- Where a reader stands. -/
inductive Place
  /-- Before the first octet of a record. -/
  | recordStart
  /-- After a comma. -/
  | fieldStart
  /-- Inside a field, or the part of one, that is not quoted. -/
  | bare
  /-- Between quotes. -/
  | quoted
  /-- After a quote between quotes: it closes them, or is the first of a pair. -/
  | quoteInQuotes
  deriving DecidableEq, Repr

/-- What a reader has seen. Lists grow at the front. -/
structure State where
  place : Place
  /-- The line of the next octet. -/
  line : Nat
  /-- The line of the record being read. -/
  recordLine : Nat
  /-- The octets of the field being read. -/
  field : Bytes
  /-- The finished fields of the record being read. -/
  fields : List Bytes
  /-- The finished records. -/
  records : List Record
  deriving DecidableEq, Repr

namespace State

/-- A reader before a text. -/
def initial : State :=
  ⟨.recordStart, 1, 1, [], [], []⟩

/-- Takes an octet into the field. -/
def take (s : State) (place : Place) (b : UInt8) : State :=
  { s with place, field := b :: s.field }

/-- Ends the field. -/
def endField (s : State) : State :=
  { s with place := .fieldStart, field := [], fields := s.field.reverse :: s.fields }

/-- Ends the field and the record. -/
def endRecord (s : State) : State :=
  let fields := (s.field.reverse :: s.fields).reverse
  { s with
    place := .recordStart, recordLine := s.line, field := [], fields := []
    records := ⟨s.recordLine, fields⟩ :: s.records }

/-- Whether an octet ends a record outside quotes. -/
def isLineEnd (b : UInt8) : Bool :=
  b == Ascii.lineFeed || b == Ascii.carriageReturn

/-- What an octet does where a field may start. -/
def startField (s : State) (b : UInt8) : State :=
  if b = Ascii.quote then { s with place := .quoted }
  else if b = Ascii.comma then s.endField
  else if isLineEnd b then s.endRecord
  else s.take .bare b

/-- What an octet does inside a field that is not between quotes. -/
def continueField (s : State) (b : UInt8) : State :=
  if b = Ascii.comma then s.endField
  else if isLineEnd b then s.endRecord
  else s.take .bare b

/-- What an octet does, the count of lines apart. -/
def act (s : State) (b : UInt8) : State :=
  match s.place with
  | .recordStart => if isLineEnd b then s else s.startField b
  | .fieldStart => s.startField b
  | .bare => s.continueField b
  | .quoted => if b = Ascii.quote then { s with place := .quoteInQuotes } else s.take .quoted b
  | .quoteInQuotes => if b = Ascii.quote then s.take .quoted b else s.continueField b

/-- Counts the lines that an octet ends. -/
def countLine (s : State) (b : UInt8) : State :=
  if b = Ascii.lineFeed then { s with line := s.line + 1 } else s

/-- What an octet does. -/
def step (s : State) (b : UInt8) : State :=
  (s.countLine b).act b

/-- The records when the text ends: a record that has begun ends with it. -/
def finish (s : State) : List Record :=
  match s.place with
  | .recordStart => s.records.reverse
  | _ => s.endRecord.records.reverse

end State

/-- The octets that mark a text as UTF-8. -/
def byteOrderMark : Bytes := [0xEF, 0xBB, 0xBF]

/-- A text without the mark at its start. -/
def dropMark (text : Bytes) : Bytes :=
  if byteOrderMark.isPrefixOf text then text.drop byteOrderMark.length else text

/-- The records of a text. -/
def read (text : Bytes) : List Record :=
  ((dropMark text).foldl State.step .initial).finish

end EventScript.Csv
