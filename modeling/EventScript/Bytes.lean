/-!
# Octet strings

Tables, scripts and paths are strings of octets; only what is shown to a reader is text. This module
names the type and the little-endian numerals that scripts hold.

* `LittleEndian.length_encode`: a numeral takes as many octets as it is asked to.
* `LittleEndian.decode_encode`: reading it back gives the number modulo `span width`.
* `LittleEndian.encode_decode`: every octet string is the numeral of the number it reads as.
-/

namespace EventScript

/-- A string of octets. -/
abbrev Bytes := List UInt8

/-! ## ASCII -/

namespace Ascii

abbrev nul : UInt8 := 0x00
abbrev tab : UInt8 := 0x09
abbrev lineFeed : UInt8 := 0x0A
abbrev carriageReturn : UInt8 := 0x0D
abbrev space : UInt8 := 0x20
abbrev quote : UInt8 := 0x22
abbrev plus : UInt8 := 0x2B
abbrev comma : UInt8 := 0x2C
abbrev minus : UInt8 := 0x2D
abbrev dot : UInt8 := 0x2E
abbrev slash : UInt8 := 0x2F
abbrev zero : UInt8 := 0x30
abbrev colon : UInt8 := 0x3A
abbrev semicolon : UInt8 := 0x3B
abbrev equals : UInt8 := 0x3D
abbrev bracketOpen : UInt8 := 0x5B
abbrev backslash : UInt8 := 0x5C
abbrev bracketClose : UInt8 := 0x5D
abbrev braceOpen : UInt8 := 0x7B
abbrev braceClose : UInt8 := 0x7D

/-- The digit that an octet stands for. -/
def digit? (b : UInt8) : Option Nat :=
  if 0x30 ≤ b ∧ b ≤ 0x39 then some (b.toNat - 0x30) else none

/-- The hexadecimal digit that an octet stands for, in either case. -/
def hexDigit? (b : UInt8) : Option Nat :=
  if 0x30 ≤ b ∧ b ≤ 0x39 then some (b.toNat - 0x30)
  else if 0x41 ≤ b ∧ b ≤ 0x46 then some (b.toNat - 0x41 + 10)
  else if 0x61 ≤ b ∧ b ≤ 0x66 then some (b.toNat - 0x61 + 10)
  else none

end Ascii

/-! ## Little-endian numerals -/

namespace LittleEndian

/-- How many numbers have a numeral of `width` octets. -/
def span : (width : Nat) → Nat
  | 0 => 1
  | width + 1 => 256 * span width

/-- The `width` low octets of `n`, least significant first. -/
def encode : (width : Nat) → (n : Nat) → Bytes
  | 0, _ => []
  | width + 1, n => UInt8.ofNat n :: encode width (n / 256)

/-- The number whose octets, least significant first, are `bs`. -/
def decode : Bytes → Nat
  | [] => 0
  | b :: bs => b.toNat + 256 * decode bs

@[simp]
theorem length_encode (width n : Nat) : (encode width n).length = width := by
  induction width generalizing n with
  | zero => rfl
  | succ width ih => simp [encode, ih]

theorem decode_encode (width n : Nat) : decode (encode width n) = n % span width := by
  induction width generalizing n with
  | zero => simp [encode, decode, span, Nat.mod_one]
  | succ width ih =>
    have hsplit : n % (256 * span width) = n % 256 + 256 * (n / 256 % span width) := Nat.mod_mul
    simp only [encode, decode, span, ih, hsplit, UInt8.toNat_ofNat', Nat.reducePow]

theorem decode_lt (bs : Bytes) : decode bs < span bs.length := by
  induction bs with
  | nil => simp [decode, span]
  | cons b bs ih =>
    have hb : b.toNat < 256 := b.toNat_lt
    simp only [decode, List.length_cons, span]
    omega

theorem encode_decode (bs : Bytes) : encode bs.length (decode bs) = bs := by
  induction bs with
  | nil => rfl
  | cons b bs ih =>
    have hb : b.toNat < 256 := b.toNat_lt
    have hdiv : (b.toNat + 256 * decode bs) / 256 = decode bs := by omega
    have hmod : UInt8.ofNat (b.toNat + 256 * decode bs) = b := by
      apply UInt8.toNat_inj.mp
      rw [UInt8.toNat_ofNat']
      omega
    simp only [decode, List.length_cons, encode, hdiv, hmod, ih]

end LittleEndian

end EventScript
