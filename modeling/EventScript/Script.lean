import EventScript.Script.Header

/-!
# Scripts

A script is a header followed by the records of its events, as many as the header declares and nothing
after them. Scripts are assembled by a builder, which counts the events it is given, so that the count
in the header is theirs; a script without events is never made.
-/

namespace EventScript

/-- A script (`ScriptFile`): what its header says, and its events. -/
structure Script where
  header : Script.Header
  events : List Event
  deriving DecidableEq, Repr

namespace Script

/-! ## Assembling -/

/-- The greatest number of events that one script can hold. -/
def maxCount : Nat := 4294967295

/-- Why a builder makes no script. -/
inductive Refusal
  /-- It was given no event. -/
  | empty
  /-- It was given more events than a header can count. -/
  | tooMany (count : Nat)
  deriving DecidableEq, Repr

/-- The fault that a refusal is. -/
def Refusal.fault : Refusal → Fault
  | .empty =>
    { kind := .noData, message := some "no data generated"
      hint := some "The input contained no rows." }
  | .tooMany count =>
    { kind := .usage
      message := some ("too many records for one script (" ++ Decimal.nat count ++ " > " ++
        Decimal.nat maxCount ++ ")")
      hint := some "Split the input into several scripts." }

/-- The records of the events given so far, and how many there are (`ScriptBuilder`). -/
structure Builder where
  count : Nat
  records : Array UInt8
  deriving DecidableEq, Repr

namespace Builder

/-- A builder that was given no event. -/
def empty : Builder := ⟨0, #[]⟩

/-- Gives the builder an event (`ScriptBuilder.push`). -/
def push (b : Builder) (e : Event) : Builder :=
  ⟨b.count + 1, b.records ++ e.encode⟩

/-- Gives the builder several events in order. -/
def pushAll (b : Builder) (es : List Event) : Builder :=
  es.foldl push b

/-- The script of the events given (`ScriptBuilder.finish`). -/
def finish (b : Builder) : Except Refusal Bytes :=
  if b.count = 0 ∨ b.records.isEmpty then .error .empty
  else if maxCount < b.count then .error (.tooMany b.count)
  else .ok ((Header.ofCount (UInt32.ofNat b.count)).encode ++ b.records.toList)

end Builder

/-- The script of some events (`assemble`). -/
def assemble (events : List Event) : Except Refusal Bytes :=
  (Builder.empty.pushAll events).finish

/-! ## Reading -/

/-- Why fewer records could be read than were asked for. -/
structure Shortfall where
  /-- How many could be read. -/
  present : Nat
  /-- How many octets were left after them. -/
  left : Nat
  /-- What the next record lacks, unless nothing is left at all. -/
  lack : Option Truncation
  deriving DecidableEq, Repr

/-- The first `count` events of a sequence of records, with the octets after them. -/
def readEvents : (count : Nat) → (s : Bytes) → Except Shortfall (List Event × Bytes)
  | 0, s => .ok ([], s)
  | count + 1, s =>
    if s.isEmpty then .error ⟨0, 0, none⟩
    else
      match Event.decode s with
      | .error lack => .error ⟨0, s.length, some lack⟩
      | .ok (e, rest) =>
        match readEvents count rest with
        | .error short => .error { short with present := short.present + 1 }
        | .ok (es, rest) => .ok (e :: es, rest)

/-- The corruption that a shortfall is, in a script of `length` octets. -/
def Shortfall.corruption (short : Shortfall) (declared length : Nat) : Corruption :=
  match short.lack with
  | none => .missingRecords declared short.present (length - short.left)
  | some lack => .truncatedRecord (short.present + 1) (length - short.left) lack

/-- The script that some octets are (`ScriptFile.decode`). -/
def decode (script : Bytes) : Except Corruption Script := do
  let (header, records) ← Header.decode script
  let declared := header.count.toNat
  match readEvents declared records with
  | .error short => throw (short.corruption declared script.length)
  | .ok (events, rest) =>
    if rest.isEmpty then return ⟨header, events⟩
    else throw (.trailing rest.length declared (script.length - rest.length))

end Script

end EventScript
