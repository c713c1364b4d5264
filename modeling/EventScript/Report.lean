import EventScript.Build
import EventScript.Json.Writer

/-!
# Reports

What a run tells on success, as text or as one JSON object. Octet strings are shown as text, with U+FFFD
for what is not UTF-8.
-/

namespace EventScript

/-! ## Builds -/

namespace Build

/-- The lines that report a build. -/
def lines (b : Build) : List String :=
  ["Wrote data file '" ++ Utf8.lossy b.output ++ "'",
    Decimal.nat b.records ++ " total commands.",
    "Size: " ++ Decimal.nat b.bytes ++ " bytes."]

/-- The JSON object that reports a build (`compile_report_json`). -/
def json (b : Build) : Json.Value :=
  .object
    [("input", .string (Utf8.lossy b.input)),
      ("output", .string (Utf8.lossy b.output)),
      ("format", .string b.format.label),
      ("records", .count b.records),
      ("bytes", .count b.bytes)]

end Build

/-! ## Scripts -/

/-- The JSON object of a header (`header_json`). -/
def Script.Header.json (h : Script.Header) : Json.Value :=
  .object [("version", .string h.version), ("records", .count h.count.toNat)]

namespace Event

/-- The JSON object of an event, with its number (`record_json`). -/
def json (index : Nat) (e : Event) : Json.Value :=
  .object
    [("index", .count index),
      ("timer", .number (.whole (.ofInt64 e.timer))),
      ("system", .string (Utf8.lossy e.system.octets)),
      ("to", .string (Utf8.lossy e.target.octets)),
      ("from", .string (Utf8.lossy e.source.octets)),
      ("command", .string (Utf8.lossy e.command.octets)),
      ("arguments", .string (Utf8.lossy e.arguments.octets)),
      ("args", .array (e.argumentList.map fun a => .string (Utf8.lossy a)))]

/-- A text with spaces before it, at least `width` characters long. -/
def padLeft (width : Nat) (text : String) : String :=
  String.ofList (List.replicate (width - text.length) ' ') ++ text

/-- The line that lists an event, with its number. -/
def line (index : Nat) (e : Event) : String :=
  padLeft 5 (Decimal.nat index) ++ "  " ++ padLeft 12 (Decimal.int e.timer.toInt) ++
    "  system=" ++ Utf8.lossy e.system.octets ++ " to=" ++ Utf8.lossy e.target.octets ++
    " from=" ++ Utf8.lossy e.source.octets ++ " command=" ++ Utf8.lossy e.command.octets ++
    " args=" ++ Utf8.lossy e.arguments.octets

end Event

namespace Script

/-- The JSON objects of the events of a script, numbered from 1. -/
def recordsJson (s : Script) : List Json.Value :=
  s.events.mapIdx fun i e => e.json (i + 1)

/-- The JSON object of the script file at `path`. -/
def json (path : Bytes) (s : Script) : Json.Value :=
  .object
    [("path", .string (Utf8.lossy path)), ("header", s.header.json),
      ("records", .array s.recordsJson)]

/-- The lines that list the script file at `path`. -/
def lines (path : Bytes) (s : Script) : List String :=
  (Utf8.lossy path ++ " " ++ s.header.version ++ " (" ++ Decimal.nat s.header.count.toNat ++
    " records)") :: s.events.mapIdx fun i e => e.line (i + 1)

end Script

end EventScript
