import EventScript.Bytes

/-!
# Lines typed on a terminal

A terminal hands over what is typed a line at a time. Until a line is handed over some keys edit it, some
discard it, and one lets the next octet in as it is. The end-of-input key hands over what there is of a
line without ending it; with nothing to hand over it means that no more will come.
-/

namespace EventScript.Terminal

/-! ## Keys -/

/-- What a key does that adds no octet to the line. -/
inductive Key
  /-- Ends the line and hands it over. -/
  | enter
  /-- Hands over the line without ending it. -/
  | endOfInput
  /-- Takes back an octet. -/
  | erase
  /-- Takes back a word, with what follows it. -/
  | eraseWord
  /-- Takes back the line. -/
  | eraseLine
  /-- Lets the next octet in as it is. -/
  | literal
  /-- Discards all that has not been read. -/
  | interrupt
  /-- Changes what the terminal shows, but not the line. -/
  | display
  deriving DecidableEq, Repr

/-- The key that an octet is. -/
def key? (b : UInt8) : Option Key :=
  if b = Ascii.lineFeed ∨ b = Ascii.carriageReturn then some .enter
  else if b = 0x04 then some .endOfInput
  else if b = 0x7F then some .erase
  else if b = 0x17 then some .eraseWord
  else if b = 0x15 then some .eraseLine
  else if b = 0x16 then some .literal
  else if b = 0x03 ∨ b = 0x1A ∨ b = 0x1C then some .interrupt
  else if b = 0x11 ∨ b = 0x12 ∨ b = 0x13 then some .display
  else none

/-- Whether an octet belongs to a word: a letter of Latin-1, a digit or an underscore. -/
def isWordOctet (b : UInt8) : Bool :=
  (0x30 ≤ b && b ≤ 0x39) || (0x41 ≤ b && b ≤ 0x5A) || b == 0x5F || (0x61 ≤ b && b ≤ 0x7A) ||
    (0xC0 ≤ b && b != 0xD7 && b != 0xF7)

/-! ## Typing -/

/-- How many octets a line can hold. -/
def lineCapacity : Nat := 4095

/-- What has been typed and not been read. -/
structure Typing where
  /-- What has been handed over, last first. -/
  handed : List Bytes
  /-- The octets of the line that is being typed, last first. -/
  line : Bytes
  /-- Whether the next octet is let in as it is. -/
  literal : Bool
  deriving DecidableEq, Repr

namespace Typing

/-- Nothing typed. -/
def nothing : Typing := ⟨[], [], false⟩

/-- Adds an octet to the line, if there is room. -/
def add (t : Typing) (b : UInt8) : Typing :=
  { t with line := if t.line.length < lineCapacity then b :: t.line else t.line, literal := false }

/-- Hands over the line, with what ends it. -/
def handOver (t : Typing) (ending : Bytes) : Typing :=
  { t with handed := (t.line.reverse ++ ending) :: t.handed, line := [] }

/-- What a key does. -/
def press (t : Typing) : Key → Typing
  | .enter => t.handOver [Ascii.lineFeed]
  | .endOfInput => t.handOver []
  | .erase => { t with line := t.line.tail }
  | .eraseWord =>
    { t with line := (t.line.dropWhile fun b => !isWordOctet b).dropWhile isWordOctet }
  | .eraseLine => { t with line := [] }
  | .literal => { t with literal := true }
  | .interrupt => nothing
  | .display => t

/-- What an octet does. -/
def step (t : Typing) (b : UInt8) : Typing :=
  match if t.literal then none else key? b with
  | none => t.add b
  | some k => t.press k

end Typing

/-! ## Reading -/

/-- The octets before the first line feed. -/
def firstLine (bs : Bytes) : Bytes :=
  bs.takeWhile (· != Ascii.lineFeed)

/-- What is read of what was handed over, up to a line feed or the end of input. -/
def gather : List Bytes → Bytes
  | [] => []
  | bs :: rest =>
    if bs = [] then []
    else if Ascii.lineFeed ∈ bs then firstLine bs
    else bs ++ gather rest

/-- The line that is read when something is typed and then the line is ended. -/
def typedLine (typed : Bytes) : Bytes :=
  gather ((typed.foldl Typing.step .nothing).press .enter).handed.reverse

end EventScript.Terminal
