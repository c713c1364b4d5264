import EventScript.Json.SyntaxError
import EventScript.Json.Value

/-!
# Number literals

A literal is first read as it stands, sign and digits, and then given its value. An integer literal that
64 bits hold denotes itself. Any other literal is scaled: as many leading digits as an unsigned 64-bit
word holds are kept exactly, and that word is multiplied or divided by a power of ten, every step
rounded to binary64.

* `absorb_append`: absorbing digits splits them into those kept and those left.
-/

namespace EventScript.Json

/-- A number literal as it stands. -/
structure Literal where
  negative : Bool
  /-- The digits before the point. -/
  whole : List Nat
  /-- The digits after the point, if there is one. -/
  fraction : Option (List Nat)
  /-- The digits of the exponent, if there is one, and whether its sign is minus. -/
  exponent : Option (Bool × List Nat)
  deriving DecidableEq, Repr

/-! ## Reading -/

/-- The digits at the front, with the octets after them. -/
def takeDigits : Bytes → List Nat × Bytes
  | [] => ([], [])
  | b :: rest =>
    match Ascii.digit? b with
    | some d => let (ds, after) := takeDigits rest; (d :: ds, after)
    | none => ([], b :: rest)

theorem length_takeDigits (s : Bytes) : (takeDigits s).1.length + (takeDigits s).2.length = s.length := by
  induction s with
  | nil => rfl
  | cons b rest ih =>
    unfold takeDigits
    split
    · simp only [List.length_cons]; omega
    · simp

/-- The digits before the point: one zero, or any digits that start with another. -/
def readWhole (s : Bytes) : Except Stop (Read s.length (List Nat)) :=
  match s with
  | [] => .error (.before [] .endInValue)
  | b :: rest =>
    match Ascii.digit? b with
    | none => .error (.before rest .invalidNumber)
    | some 0 =>
      if (takeDigits rest).1.isEmpty then .ok ⟨[0], rest, by simp⟩
      else .error (.within rest .invalidNumber)
    | some d =>
      .ok ⟨d :: (takeDigits rest).1, (takeDigits rest).2, by
        have := length_takeDigits rest
        simp only [List.length_cons]; omega⟩

/-- The point and the digits after it, if there is a point. -/
def readFraction (s : Bytes) : Except Stop (Read (s.length + 1) (Option (List Nat))) :=
  match s with
  | [] => .ok ⟨none, [], by simp⟩
  | b :: rest =>
    if b = Ascii.dot then
      if (takeDigits rest).1.isEmpty then
        .error (.within rest (if rest.isEmpty then .endInValue else .invalidNumber))
      else
        .ok ⟨some (takeDigits rest).1, (takeDigits rest).2, by
          have := length_takeDigits rest
          simp only [List.length_cons]; omega⟩
    else .ok ⟨none, b :: rest, by simp⟩

/-- The sign at the front of an exponent: whether it is minus, with the octets after it. -/
def takeSign : Bytes → Bool × Bytes
  | [] => (false, [])
  | b :: rest =>
    if b = Ascii.plus then (false, rest)
    else if b = Ascii.minus then (true, rest)
    else (false, b :: rest)

theorem length_takeSign_le (s : Bytes) : (takeSign s).2.length ≤ s.length := by
  unfold takeSign
  split
  · simp
  · split
    · simp
    · split <;> simp

/-- The mark, sign and digits of an exponent, if there is a mark. -/
def readExponent (s : Bytes) : Except Stop (Read (s.length + 1) (Option (Bool × List Nat))) :=
  match s with
  | [] => .ok ⟨none, [], by simp⟩
  | b :: rest =>
    if b = 0x65 ∨ b = 0x45 then
      match h : takeDigits (takeSign rest).2 with
      | ([], []) => .error (.before [] .endInValue)
      | ([], _ :: after) => .error (.before after .invalidNumber)
      | (d :: ds, after) =>
        .ok ⟨some ((takeSign rest).1, d :: ds), after, by
          have h1 := length_takeSign_le rest
          have h2 := length_takeDigits (takeSign rest).2
          rw [h] at h2
          simp only [List.length_cons] at h2 ⊢
          omega⟩
    else .ok ⟨none, b :: rest, by simp⟩

/-- The literal at the front, past its sign. -/
def readUnsigned (negative : Bool) (s : Bytes) : Except Stop (Read s.length Literal) :=
  match readWhole s with
  | .error stop => .error stop
  | .ok whole =>
    match readFraction whole.rest with
    | .error stop => .error stop
    | .ok fraction =>
      match readExponent fraction.rest with
      | .error stop => .error stop
      | .ok exponent =>
        .ok ⟨⟨negative, whole.value, fraction.value, exponent.value⟩, exponent.rest, by
          have h1 := whole.shorter
          have h2 := fraction.shorter
          have h3 := exponent.shorter
          omega⟩

/-! ## Values -/

/-- Appends digits to a number while it stays below `limit`; gives the number and the digits from the
first that did not fit. -/
def absorb (limit : Nat) : (n : Nat) → (ds : List Nat) → Nat × List Nat
  | n, [] => (n, [])
  | n, d :: ds => if 10 * n + d < limit then absorb limit (10 * n + d) ds else (n, d :: ds)

theorem absorb_append (limit n : Nat) (ds : List Nat) :
    ∃ taken, ds = taken ++ (absorb limit n ds).2 ∧
      (absorb limit n ds).1 = taken.foldl (fun n d => 10 * n + d) n := by
  induction ds generalizing n with
  | nil => exact ⟨[], rfl, rfl⟩
  | cons d ds ih =>
    unfold absorb
    split
    · obtain ⟨taken, hds, hn⟩ := ih (10 * n + d)
      exact ⟨d :: taken, by rw [List.cons_append, ← hds], hn⟩
    · exact ⟨[], rfl, rfl⟩

/-- The binary64 number nearest to `10 ^ k`, unless that is infinite. -/
def powerOfTen? (k : Nat) : Option Binary64 :=
  Binary64.ofNat? (Nat.pow 10 k)

/-- The largest power of ten that one step of scaling uses. -/
def scaleStep : Nat := 308

/-- A magnitude times `10 ^ exponent`, one rounding for each power of ten used. Zero stays zero; an
infinite product is no number. -/
def scale? (x : Binary64) (exponent : Int) : Option Binary64 :=
  if exponent < -scaleStep then
    if x.units = 0 then some x
    else do
      let y ← (powerOfTen? scaleStep).bind x.div?
      scale? y (exponent + scaleStep)
  else if exponent < 0 then (powerOfTen? (-exponent).toNat).bind x.div?
  else if exponent ≤ scaleStep then (powerOfTen? exponent.toNat).bind x.mul?
  else if x.units = 0 then some x
  else none
termination_by (-exponent).toNat
decreasing_by
  have : (scaleStep : Int) = 308 := rfl
  omega

namespace Literal

/-- The bound on the digits that are kept: an unsigned 64-bit word. -/
def wordLimit : Nat := 0x10000000000000000

/-- The bound on the exponent that is written: a signed 32-bit word. -/
def exponentLimit : Nat := 0x80000000

/-- An exponent kept within a signed 32-bit word. -/
def clampExponent (e : Int) : Int :=
  max (-0x80000000) (min e 0x7FFFFFFF)

/-- A magnitude with the literal's sign. -/
def signed (l : Literal) (x : Binary64) : Number :=
  .float (if l.negative then x.neg else x)

/-- The digits that are kept and the exponent of the last of them, the written exponent apart. Digits
before the point that do not fit count as zeros; digits after it that do not fit are dropped. -/
def kept (l : Literal) : Nat × Int :=
  let (front, dropped) := absorb wordLimit 0 l.whole
  let fraction := l.fraction.getD []
  let (word, ignored) := absorb wordLimit front fraction
  (word, dropped.length - (fraction.length - ignored.length : Nat))

/-- The integer that a literal with neither point nor exponent denotes, if 64 bits hold it. Minus zero
is none. -/
def whole? (l : Literal) : Option Whole :=
  match l.fraction, l.exponent, absorb wordLimit 0 l.whole with
  | none, none, (word, []) =>
    if l.negative then if word = 0 then none else Whole.ofInt? (-(word : Int)) else Whole.ofInt? word
  | _, _, _ => none

/-- The number that a literal denotes. A literal whose number would be infinite has none; the count is
then of the digits at the literal's end that need not be looked at to see that. -/
def number (l : Literal) : Except Nat Number :=
  match l.whole? with
  | some n => .ok (.whole n)
  | none =>
    let (word, shift) := l.kept
    let (minus, digits) := l.exponent.getD (false, [])
    match absorb exponentLimit 0 digits with
    | (written, []) =>
      let exponent := clampExponent (if minus then shift - written else shift + written)
      match (Binary64.ofNat? word).bind fun x => scale? x exponent with
      | some x => .ok (l.signed x)
      | none => .error 0
    | (_, _ :: unread) =>
      if word ≠ 0 ∧ minus = false then .error unread.length else .ok (l.signed Binary64.zero)

end Literal

end EventScript.Json
