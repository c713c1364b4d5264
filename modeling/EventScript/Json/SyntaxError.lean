import EventScript.Bytes
import EventScript.Decimal

/-!
# What can be wrong with JSON text

A reader stops at the first octet that fits no JSON text. It reports what is wrong and how much of the
input it has consumed; the line and column are worked out from that once, for the whole input.
-/

namespace EventScript.Json

/-- What is wrong with a JSON text. -/
inductive Problem
  | endInValue
  | endInList
  | endInObject
  | endInString
  | noValue
  | noIdent
  | noColon
  | noListEnd
  | noObjectEnd
  | keyNotString
  | trailingComma
  | trailingCharacters
  | tooDeep
  | controlCharacter
  | invalidEscape
  | loneSurrogate
  | unfinishedSurrogate
  | invalidCodePoint
  | invalidNumber
  | outOfRange
  deriving DecidableEq, Repr

/-- The words for a problem. -/
def Problem.text : Problem → String
  | .endInValue => "EOF while parsing a value"
  | .endInList => "EOF while parsing a list"
  | .endInObject => "EOF while parsing an object"
  | .endInString => "EOF while parsing a string"
  | .noValue => "expected value"
  | .noIdent => "expected ident"
  | .noColon => "expected `:`"
  | .noListEnd => "expected `,` or `]`"
  | .noObjectEnd => "expected `,` or `\x7d`"
  | .keyNotString => "key must be a string"
  | .trailingComma => "trailing comma"
  | .trailingCharacters => "trailing characters"
  | .tooDeep => "recursion limit exceeded"
  | .controlCharacter => "control character (\\u0000-\\u001F) found while parsing a string"
  | .invalidEscape => "invalid escape"
  | .loneSurrogate => "lone leading surrogate in hex escape"
  | .unfinishedSurrogate => "unexpected end of hex escape"
  | .invalidCodePoint => "invalid unicode code point"
  | .invalidNumber => "invalid number"
  | .outOfRange => "number out of range"

/-- Where a reader stopped and why. -/
structure Stop where
  problem : Problem
  /-- How many octets of the input were not consumed. -/
  left : Nat
  /-- How many columns before that place the problem lies. -/
  back : Nat
  deriving DecidableEq, Repr

namespace Stop

/-- A problem just before the octets that are left. -/
def before (rest : Bytes) (problem : Problem) : Stop :=
  ⟨problem, rest.length, 0⟩

/-- A problem with the first of the octets that are left, or with their lack. -/
def within (rest : Bytes) (problem : Problem) : Stop :=
  ⟨problem, rest.length - 1, 0⟩

end Stop

/-- A problem at its place in the text. Lines count from 1; the column counts the octets of the line up
to and including the one at fault. -/
structure SyntaxError where
  problem : Problem
  line : Nat
  column : Nat
  deriving DecidableEq, Repr

namespace SyntaxError

/-- The place at which a reader of `input` stopped. -/
def ofStop (input : Bytes) (stop : Stop) : SyntaxError :=
  let consumed := input.take (input.length - stop.left)
  { problem := stop.problem
    line := 1 + consumed.count Ascii.lineFeed
    column := (consumed.reverse.takeWhile (· != Ascii.lineFeed)).length - stop.back }

/-- The words for a problem at its place. -/
def text (e : SyntaxError) : String :=
  e.problem.text ++ " at line " ++ Decimal.nat e.line ++ " column " ++ Decimal.nat e.column

end SyntaxError

/-! ## Readers -/

/-- What a reader found, with the octets after it: fewer than `limit`. -/
structure Read (limit : Nat) (α : Type) where
  value : α
  rest : Bytes
  shorter : rest.length < limit

namespace Read

/-- The same result against a larger limit. -/
def weaken {limit larger : Nat} {α : Type} (r : Read limit α) (h : limit ≤ larger) :
    Read larger α :=
  ⟨r.value, r.rest, Nat.lt_of_lt_of_le r.shorter h⟩

/-- The result with its value transformed. -/
def map {limit : Nat} {α β : Type} (f : α → β) (r : Read limit α) : Read limit β :=
  ⟨f r.value, r.rest, r.shorter⟩

end Read

/-- The octets after leading JSON white space. -/
def skipBlank (s : Bytes) : Bytes :=
  s.dropWhile fun b =>
    b == Ascii.space || b == Ascii.tab || b == Ascii.lineFeed || b == Ascii.carriageReturn

theorem length_skipBlank_le (s : Bytes) : (skipBlank s).length ≤ s.length :=
  (List.dropWhile_sublist _).length_le

end EventScript.Json
