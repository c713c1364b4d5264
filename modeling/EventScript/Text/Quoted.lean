import EventScript.Text.Printable
import EventScript.Text.Utf8

/-!
# Quoted text

Input that appears in a message stands between double quotes, with everything that a reader could
mistake or not see escaped. Text is quoted by characters; octets that may not be text are quoted with
`\x` escapes for those that spell no character.
-/

namespace EventScript.Text

/-- The hexadecimal digits of `n`, in lower case and with no leading zeros. -/
def hex (n : Nat) : List Char :=
  Nat.toDigits 16 n

/-- The escape of a character by its code point. -/
def unicodeEscape (c : Char) : List Char :=
  ['\\', 'u', '\x7b'] ++ hex c.toNat ++ ['\x7d']

/-- The letter that follows the backslash in a short escape. -/
def shortEscape? (c : Char) : Option Char :=
  if c = '\x00' then some '0'
  else if c = '\t' then some 't'
  else if c = '\n' then some 'n'
  else if c = '\r' then some 'r'
  else if c = '\x22' ∨ c = '\\' then some c
  else none

/-- A character as it stands inside quotes. -/
def escapeChar (c : Char) : List Char :=
  match shortEscape? c with
  | some letter => ['\\', letter]
  | none => if isHidden c then unicodeEscape c else [c]

/-- Text between double quotes. -/
def quote (cs : List Char) : String :=
  String.ofList ('\x22' :: cs.flatMap escapeChar ++ ['\x22'])

/-! ## Octets -/

/-- The escape of an octet by its value. -/
def octetEscape (b : UInt8) : List Char :=
  ['\\', 'x'] ++ [Nat.digitChar (b.toNat / 16), Nat.digitChar (b.toNat % 16)]

/-- A piece of an octet string as it stands inside quotes. ASCII that has no short escape is escaped
by its octet, and so is each octet that spells no character; the single quote is escaped too. -/
def escapePiece : Utf8.Piece → List Char
  | .invalid octets => octets.flatMap octetEscape
  | .char c =>
    if c = '\x27' then ['\\', c]
    else if c.toNat < 0x80 ∧ shortEscape? c = none ∧ (c.toNat < 0x20 ∨ c.toNat = 0x7F) then
      octetEscape (UInt8.ofNat c.toNat)
    else escapeChar c

/-- Octets between double quotes. -/
def quoteOctets (bs : Bytes) : String :=
  String.ofList ('\x22' :: (Utf8.pieces bs).flatMap escapePiece ++ ['\x22'])

end EventScript.Text
