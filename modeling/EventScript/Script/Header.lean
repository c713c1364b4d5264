import EventScript.Event.Record
import EventScript.Text.Quoted

/-!
# Script headers

A script starts with four octets that mark it, a version tag, and the number of its records as four
octets, least significant first. The tag has no length of its own: it is one of the tags that this
version of the library knows.
-/

namespace EventScript.Script

/-- The octets that every script starts with (`SCRIPT_MAGIC`). -/
def magic : Bytes := [0x46, 0x44, 0x53, 0x00]

/-- The version tag of the scripts that are written (`SCRIPT_VERSION`). -/
def currentVersion : String := "v0.9.0"

/-- The version tags of the scripts that are read (`SUPPORTED_SCRIPT_VERSIONS`). -/
def supportedVersions : List String := [currentVersion]

/-- How many octets a record count takes (`COUNT_LEN`). -/
def countLength : Nat := 4

/-- What a script says of itself before its records (`ScriptHeader`). -/
structure Header where
  version : String
  count : UInt32
  deriving DecidableEq, Repr

/-- Why octets are no script. Offsets count octets from the start. -/
inductive Corruption
  /-- There is no room for the mark. -/
  | tooShort
  /-- The mark is another one. -/
  | badMagic
  /-- No known version tag follows the mark; this follows it. -/
  | unsupportedVersion (found : Bytes)
  /-- There is no room for the record count, which would start at `offset`. -/
  | noCount (offset : Nat)
  /-- The octets end, at `offset`, after fewer records than declared. -/
  | missingRecords (declared present offset : Nat)
  /-- The record of a row, counted from 1, starts at `offset` and is truncated. -/
  | truncatedRecord (row offset : Nat) (lack : Truncation)
  /-- Octets follow the last record declared, which ends at `offset`. -/
  | trailing (extra declared offset : Nat)
  deriving DecidableEq, Repr

/-- The fault that an unknown version tag is, its place apart (`script_version_error`). -/
def unsupportedVersionFault (found : Bytes) : Fault where
  kind := .corrupt
  message := some ("unsupported script version " ++ Text.quoteOctets found ++ " (supported: " ++
    ", ".intercalate supportedVersions ++ ")")
  hint := some "Rebuild the script with this version of mkscript."

namespace Corruption

/-- A fault at a place in a script. -/
def faultAt (offset : Nat) (message : String) : Fault :=
  { kind := .corrupt, message := some message, offset := some offset }

/-- The fault that a corruption is. -/
def fault : Corruption → Fault
  | .tooShort => { kind := .corrupt, message := some "script header too small" }
  | .badMagic => faultAt 0 "bad script magic"
  | .unsupportedVersion found => { unsupportedVersionFault found with offset := some magic.length }
  | .noCount offset => faultAt offset "script header truncated before record count"
  | .missingRecords declared present offset =>
    faultAt offset ("header declares " ++ Decimal.nat declared ++ " records but only " ++
      Decimal.nat present ++ " present")
  | .truncatedRecord row offset lack => { lack.fault offset with row := some row }
  | .trailing extra declared offset =>
    faultAt offset (Decimal.nat extra ++ " trailing bytes after " ++ Decimal.nat declared ++
      " records")

end Corruption

namespace Header

/-- The header of a script with `count` records (`ScriptHeader.new`). -/
def ofCount (count : UInt32) : Header :=
  ⟨currentVersion, count⟩

/-- The octets of a header (`ScriptHeader.encode`). -/
def encode (h : Header) : Bytes :=
  magic ++ Utf8.encode h.version ++ LittleEndian.encode countLength h.count.toNat

/-- The header at the front of some octets, with the octets after it (`ScriptHeader.decode`). -/
def decode (script : Bytes) : Except Corruption (Header × Bytes) :=
  if (script.take magic.length).length < magic.length then .error .tooShort
  else if script.take magic.length ≠ magic then .error .badMagic
  else
    let tagged := script.drop magic.length
    match supportedVersions.find? fun v => (Utf8.encode v).isPrefixOf tagged with
    | none =>
      .error (.unsupportedVersion (tagged.take (Utf8.encode currentVersion).length))
    | some version =>
      let tagLength := (Utf8.encode version).length
      let counted := tagged.drop tagLength
      if (counted.take countLength).length < countLength then
        .error (.noCount (magic.length + tagLength))
      else
        .ok (⟨version, UInt32.ofNat (LittleEndian.decode (counted.take countLength))⟩,
          counted.drop countLength)

end Header

end EventScript.Script
