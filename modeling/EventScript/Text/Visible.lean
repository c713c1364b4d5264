/-!
# Control sequences

A terminal acts on control characters and control sequences instead of showing them. What is visible of a
text is the rest: text that is quoted in a message must not move the cursor or change the colours.

A sequence starts with the escape character. White space inside one breaks it off and is visible, as it
is outside; so does a character beyond ASCII.
-/

namespace EventScript.Text

/-- Where a reader stands with respect to control sequences. -/
inductive Control
  /-- Outside of them. -/
  | outside
  /-- After the escape character. -/
  | escape
  /-- In an escape sequence of more than two characters. -/
  | intermediate
  /-- In a sequence with parameters, which a letter ends. -/
  | parameters
  /-- In a string for the terminal; the bell character ends some of them. -/
  | string (endsAtBell : Bool)
  deriving DecidableEq, Repr

/-- Whether a character is an ASCII control character. -/
def isControl (c : Char) : Bool :=
  c.toNat < 0x20 || c.toNat == 0x7F

/-- Whether a control character is white space. -/
def isControlSpace (c : Char) : Bool :=
  c == '\t' || c == '\n' || c == '\x0c' || c == '\r'

namespace Control

/-- Where a sequence stands after a printable ASCII character. -/
def advance : Control → Char → Control
  | .outside, _ => .outside
  | .escape, c =>
    if c = '[' then .parameters
    else if c = ']' then .string true
    else if c = 'P' ∨ c = 'X' ∨ c = '^' ∨ c = '_' then .string false
    else if c.toNat < 0x30 then .intermediate
    else .outside
  | .intermediate, c => if c.toNat < 0x30 then .intermediate else .outside
  | .parameters, c => if c.toNat < 0x40 then .parameters else .outside
  | .string endsAtBell, _ => .string endsAtBell

/-- Where a reader stands after a character, and whether that character is visible. -/
def step (s : Control) (c : Char) : Control × Bool :=
  if c = '\x1b' then (.escape, false)
  else if c = '\x18' ∨ c = '\x1a' then (.outside, false)
  else if 0x80 ≤ c.toNat then (.outside, true)
  else if isControl c then
    match s with
    | .string endsAtBell => (if endsAtBell ∧ c = '\x07' then .outside else s, false)
    | _ => if isControlSpace c then (.outside, true) else (s, false)
  else (s.advance c, s = .outside)

end Control

/-- The visible characters of a text, from where a reader stands. -/
def visibleFrom : Control → List Char → List Char
  | _, [] => []
  | s, c :: rest =>
    match s.step c with
    | (s, true) => c :: visibleFrom s rest
    | (s, false) => visibleFrom s rest

/-- The visible characters of a text. -/
def visible (cs : List Char) : List Char :=
  visibleFrom .outside cs

end EventScript.Text
