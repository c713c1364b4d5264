import EventScript.Decimal
import EventScript.Number.Shortest

/-!
# JSON values

Objects keep their members in order. An integer literal that 64 bits hold stays an integer; every other
number is the binary64 number that its literal denotes.
-/

namespace EventScript.Json

/-- An integer that 64 bits hold, with or without a sign bit. -/
structure Whole where
  value : Int
  lower : -0x8000000000000000 ≤ value
  upper : value < 0x10000000000000000
  deriving DecidableEq, Repr

/-- A JSON number. -/
inductive Number
  | whole (n : Whole)
  | float (x : Binary64)
  deriving DecidableEq, Repr

/-- A JSON value. -/
inductive Value
  | null
  | bool (b : Bool)
  | number (n : Number)
  | string (s : String)
  | array (items : List Value)
  | object (members : List (String × Value))

namespace Whole

/-- An integer as a number, if it is in range. -/
def ofInt? (value : Int) : Option Whole :=
  if h : -0x8000000000000000 ≤ value ∧ value < 0x10000000000000000 then some ⟨value, h.1, h.2⟩
  else none

/-- A signed word. -/
def ofInt64 (n : Int64) : Whole where
  value := n.toInt
  lower := n.le_toInt
  upper := Int.lt_trans n.toInt_lt (by decide)

/-- A count that fits an unsigned word. -/
def ofUInt64 (n : UInt64) : Whole where
  value := n.toNat
  lower := by omega
  upper := by have := n.toNat_lt; omega

end Whole

namespace Number

/-- The numeral of a number. -/
def chars : Number → List Char
  | .whole n => Decimal.intChars n.value
  | .float x => x.chars

/-- The numeral of a number. -/
def text (n : Number) : String :=
  String.ofList n.chars

/-- The signed word of a whole number, if there is one. -/
def toInt64? : Number → Option Int64
  | .whole n => if n.value < 0x8000000000000000 then some (Int64.ofInt n.value) else none
  | .float _ => none

/-- The binary64 number nearest to a number. -/
def toBinary64? : Number → Option Binary64
  | .whole n => Binary64.ofInt? n.value
  | .float x => some x

theorem toInt64?_ofInt64 (n : Int64) : toInt64? (.whole (.ofInt64 n)) = some n := by
  have hlt : n.toInt < 0x8000000000000000 := n.toInt_lt
  rw [toInt64?, Whole.ofInt64, if_pos hlt, Int64.ofInt_toInt]

end Number

namespace Value

/-- A count as a value. Counts beyond 64 bits wrap. -/
def count (n : Nat) : Value :=
  .number (.whole (.ofUInt64 (UInt64.ofNat n)))

/-- Puts a member into an object: a key that is there keeps its place and takes the new value. -/
def putMember (key : String) (value : Value) : List (String × Value) → List (String × Value)
  | [] => [(key, value)]
  | m :: rest => if m.1 = key then (key, value) :: rest else m :: putMember key value rest

end Value

end EventScript.Json
