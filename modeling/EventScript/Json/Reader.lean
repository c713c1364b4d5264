import EventScript.Json.Literal
import EventScript.Text.Utf8

/-!
# Reading JSON

One value is read from an octet string, with nothing but white space around it. Strings must be UTF-8
once their escapes are undone; arrays and objects nest at most `maxDepth` deep. Every reader leaves
fewer octets than it was given, which is why reading ends.
-/

namespace EventScript.Json

/-! ## Strings -/

/-- The octet that a short escape stands for, by its letter. -/
def unescape? (b : UInt8) : Option UInt8 :=
  if b = Ascii.quote ∨ b = Ascii.backslash ∨ b = Ascii.slash then some b
  else if b = 0x62 then some 0x08
  else if b = 0x66 then some 0x0C
  else if b = 0x6E then some Ascii.lineFeed
  else if b = 0x72 then some Ascii.carriageReturn
  else if b = 0x74 then some Ascii.tab
  else none

/-- The number that four hexadecimal digits write. -/
def readHex (s : Bytes) : Except Stop (Read s.length Nat) :=
  match s with
  | a :: b :: c :: d :: rest =>
    match Ascii.hexDigit? a, Ascii.hexDigit? b, Ascii.hexDigit? c, Ascii.hexDigit? d with
    | some a, some b, some c, some d =>
      .ok ⟨((a * 16 + b) * 16 + c) * 16 + d, rest, by simp only [List.length_cons]; omega⟩
    | _, _, _, _ => .error (.before rest .invalidEscape)
  | _ => .error (.before [] .endInString)

/-- Whether a code unit is the first half of a surrogate pair. -/
def isHighSurrogate (n : Nat) : Bool :=
  0xD800 ≤ n && n ≤ 0xDBFF

/-- Whether a code unit is the second half of a surrogate pair. -/
def isLowSurrogate (n : Nat) : Bool :=
  0xDC00 ≤ n && n ≤ 0xDFFF

/-- The octets of the character with a given code point. -/
def codePoint (n : Nat) : Bytes :=
  String.utf8EncodeChar (Char.ofNat n)

/-- The second half of a surrogate pair: a whole escape whose code unit is a low surrogate. -/
def readLowSurrogate (s : Bytes) : Except Stop (Read s.length Nat) :=
  match s with
  | [] => .error (.before [] .endInString)
  | b :: rest =>
    if b ≠ Ascii.backslash then .error (.before rest .unfinishedSurrogate)
    else
      match rest with
      | [] => .error (.before [] .endInString)
      | c :: rest' =>
        if c ≠ 0x75 then .error (.before rest' .unfinishedSurrogate)
        else
          match readHex rest' with
          | .error stop => .error stop
          | .ok low =>
            if isLowSurrogate low.value then .ok (low.weaken (by simp only [List.length_cons]; omega))
            else .error (.before low.rest .loneSurrogate)

/-- The character of a code point escape, past its `u`, as octets. -/
def readCodePoint (s : Bytes) : Except Stop (Read s.length Bytes) :=
  match readHex s with
  | .error stop => .error stop
  | .ok unit =>
    if isLowSurrogate unit.value then .error (.before unit.rest .loneSurrogate)
    else if isHighSurrogate unit.value then
      match readLowSurrogate unit.rest with
      | .error stop => .error stop
      | .ok low =>
        let point := 0x10000 + (unit.value - 0xD800) * 0x400 + (low.value - 0xDC00)
        .ok ((low.map fun _ => codePoint point).weaken (Nat.le_of_lt unit.shorter))
    else .ok (unit.map codePoint)

/-- What an escape stands for, past its backslash, as octets. -/
def readEscape (s : Bytes) : Except Stop (Read s.length Bytes) :=
  match s with
  | [] => .error (.before [] .endInString)
  | b :: rest =>
    match unescape? b with
    | some octet => .ok ⟨[octet], rest, Nat.lt_succ_self _⟩
    | none =>
      if b = 0x75 then
        match readCodePoint rest with
        | .error stop => .error stop
        | .ok point => .ok (point.weaken (Nat.le_succ _))
      else .error (.before rest .invalidEscape)

/-- The next part of a string: its octets, or none at the closing quote. -/
def readPart (s : Bytes) : Except Stop (Read s.length (Option Bytes)) :=
  match s with
  | [] => .error (.before [] .endInString)
  | b :: rest =>
    if b = Ascii.quote then .ok ⟨none, rest, Nat.lt_succ_self _⟩
    else if b = Ascii.backslash then
      match readEscape rest with
      | .error stop => .error stop
      | .ok part => .ok ((part.map some).weaken (Nat.le_succ _))
    else if b < 0x20 then .error (.before rest .controlCharacter)
    else .ok ⟨some [b], rest, Nat.lt_succ_self _⟩

/-- The octets of a string up to its closing quote, after those already read, which are reversed. -/
def readOctets {limit : Nat} (seen : Bytes) (s : Bytes) (h : s.length ≤ limit) :
    Except Stop (Read limit Bytes) :=
  match readPart s with
  | .error stop => .error stop
  | .ok ⟨none, rest, shorter⟩ => .ok ⟨seen.reverse, rest, Nat.lt_of_lt_of_le shorter h⟩
  | .ok ⟨some part, rest, shorter⟩ =>
    readOctets (part.reverse ++ seen) rest (Nat.le_trans (Nat.le_of_lt shorter) h)
termination_by s.length

/-- A string, past its opening quote. -/
def readString (s : Bytes) : Except Stop (Read s.length String) :=
  match readOctets [] s (Nat.le_refl _) with
  | .error stop => .error stop
  | .ok octets =>
    match Utf8.decode? octets.value with
    | some text => .ok (octets.map fun _ => text)
    | none =>
      .error ⟨.invalidCodePoint, octets.rest.length,
        octets.value.length - Utf8.validLength octets.value⟩

/-! ## Values -/

/-- A reader of values. -/
abbrev ValueReader := (s : Bytes) → Except Stop (Read s.length Value)

/-- The rest of a word whose first letter is past. -/
def readWord (value : Value) : (word : Bytes) → (s : Bytes) → Except Stop (Read (s.length + 1) Value)
  | [], s => .ok ⟨value, s, Nat.lt_succ_self _⟩
  | _ :: _, [] => .error (.before [] .endInValue)
  | w :: word, b :: rest =>
    if b = w then
      match readWord value word rest with
      | .error stop => .error stop
      | .ok r => .ok (r.weaken (Nat.le_succ _))
    else .error (.before rest .noIdent)

/-- A number, past its sign. -/
def readNumber (negative : Bool) : ValueReader := fun s =>
  match readUnsigned negative s with
  | .error stop => .error stop
  | .ok literal =>
    match literal.value.number with
    | .ok n => .ok (literal.map fun _ => .number n)
    | .error unread => .error ⟨.outOfRange, literal.rest.length + unread, 0⟩

/-- What follows an opening bracket or an element: the closing bracket, or another element. -/
inductive Next (limit : Nat)
  | close (rest : Bytes) (shorter : rest.length < limit)
  | element (start : Bytes) (le : start.length ≤ limit)

theorem length_of_skipBlank {s rest : Bytes} {b : UInt8} (h : skipBlank s = b :: rest) :
    rest.length < s.length := by
  have := length_skipBlank_le s
  rw [h, List.length_cons] at this
  omega

/-- What follows in an array: its end, or where the next item starts. -/
def nextItem (first : Bool) (s : Bytes) : Except Stop (Next s.length) :=
  match h : skipBlank s with
  | [] => .error (.within [] .endInList)
  | b :: rest =>
    if b = Ascii.bracketClose then .ok (.close rest (length_of_skipBlank h))
    else if first then .ok (.element (b :: rest) (h ▸ length_skipBlank_le s))
    else if b = Ascii.comma then
      match h' : skipBlank rest with
      | [] => .error (.within [] .endInValue)
      | c :: rest' =>
        if c = Ascii.bracketClose then .error (.within (c :: rest') .trailingComma)
        else .ok (.element (c :: rest') (by
          have h1 := length_of_skipBlank h
          have h2 := length_of_skipBlank h'
          simp only [List.length_cons]; omega))
    else .error (.within (b :: rest) .noListEnd)

/-- What follows in an object: its end, or where the next key starts, past its opening quote. -/
def nextMember (first : Bool) (s : Bytes) : Except Stop (Next s.length) :=
  match h : skipBlank s with
  | [] => .error (.within [] .endInObject)
  | b :: rest =>
    if b = Ascii.braceClose then .ok (.close rest (length_of_skipBlank h))
    else if first then
      if b = Ascii.quote then .ok (.element rest (Nat.le_of_lt (length_of_skipBlank h)))
      else .error (.within (b :: rest) .keyNotString)
    else if b = Ascii.comma then
      match h' : skipBlank rest with
      | [] => .error (.within [] .endInValue)
      | c :: rest' =>
        if c = Ascii.quote then
          .ok (.element rest' (by
            have h1 := length_of_skipBlank h
            have h2 := length_of_skipBlank h'
            omega))
        else if c = Ascii.braceClose then .error (.within (c :: rest') .trailingComma)
        else .error (.within (c :: rest') .keyNotString)
    else .error (.within (b :: rest) .noObjectEnd)

/-- The colon after a key. -/
def readColon (s : Bytes) : Except Stop (Read s.length Unit) :=
  match h : skipBlank s with
  | [] => .error (.within [] .endInObject)
  | b :: rest =>
    if b = Ascii.colon then .ok ⟨(), rest, length_of_skipBlank h⟩
    else .error (.within (b :: rest) .noColon)

/-- The items of an array, past its bracket, after those already read, which are reversed. -/
def readItems (item : ValueReader) {limit : Nat} (done : List Value) (s : Bytes)
    (h : s.length ≤ limit) : Except Stop (Read limit (List Value)) :=
  match nextItem done.isEmpty s with
  | .error stop => .error stop
  | .ok (.close rest shorter) => .ok ⟨done.reverse, rest, Nat.lt_of_lt_of_le shorter h⟩
  | .ok (.element start le) =>
    match item start with
    | .error stop => .error stop
    | .ok ⟨value, rest, shorter⟩ =>
      readItems item (value :: done) rest
        (Nat.le_trans (Nat.le_trans (Nat.le_of_lt shorter) le) h)
termination_by s.length
decreasing_by omega

/-- The members of an object, past its brace, after those already read. -/
def readMembers (item : ValueReader) {limit : Nat} (done : List (String × Value)) (s : Bytes)
    (h : s.length ≤ limit) : Except Stop (Read limit (List (String × Value))) :=
  match nextMember done.isEmpty s with
  | .error stop => .error stop
  | .ok (.close rest shorter) => .ok ⟨done, rest, Nat.lt_of_lt_of_le shorter h⟩
  | .ok (.element start le) =>
    match readString start with
    | .error stop => .error stop
    | .ok ⟨key, afterKey, shorter⟩ =>
      match readColon afterKey with
      | .error stop => .error stop
      | .ok ⟨(), afterColon, shorter'⟩ =>
        match item afterColon with
        | .error stop => .error stop
        | .ok ⟨value, rest, shorter''⟩ =>
          readMembers item (Value.putMember key value done) rest (by omega)
termination_by s.length
decreasing_by omega

/-- A value that nests at most `depth` deep, with white space before it. -/
def readValue (depth : Nat) : ValueReader := fun s =>
  match h : skipBlank s with
  | [] => .error (.within [] .endInValue)
  | b :: rest =>
    have shorter : rest.length < s.length := length_of_skipBlank h
    let finish (r : Except Stop (Read (rest.length + 1) Value)) : Except Stop (Read s.length Value) :=
      r.map fun r => r.weaken shorter
    if b = 0x6E then finish (readWord .null [0x75, 0x6C, 0x6C] rest)
    else if b = 0x74 then finish (readWord (.bool true) [0x72, 0x75, 0x65] rest)
    else if b = 0x66 then finish (readWord (.bool false) [0x61, 0x6C, 0x73, 0x65] rest)
    else if b = Ascii.minus then
      finish ((readNumber true rest).map fun r => r.weaken (Nat.le_succ _))
    else if (Ascii.digit? b).isSome then
      (readNumber false (b :: rest)).map fun r => r.weaken (h ▸ length_skipBlank_le s)
    else if b = Ascii.quote then
      finish ((readString rest).map fun r => (r.map .string).weaken (Nat.le_succ _))
    else if b = Ascii.bracketOpen then
      match depth with
      | 0 => .error (.within (b :: rest) .tooDeep)
      | depth + 1 =>
        (readItems (readValue depth) [] rest (Nat.le_of_lt shorter)).map fun r => r.map .array
    else if b = Ascii.braceOpen then
      match depth with
      | 0 => .error (.within (b :: rest) .tooDeep)
      | depth + 1 =>
        (readMembers (readValue depth) [] rest (Nat.le_of_lt shorter)).map fun r => r.map .object
    else .error (.within (b :: rest) .noValue)

/-! ## Whole texts -/

/-- How deep arrays and objects may nest. -/
def maxDepth : Nat := 127

/-- The value of a JSON text, or where it stops being one. -/
def readText (s : Bytes) : Except Stop Value :=
  match readValue maxDepth s with
  | .error stop => .error stop
  | .ok r =>
    match skipBlank r.rest with
    | [] => .ok r.value
    | b :: rest => .error (.within (b :: rest) .trailingCharacters)

/-- The value of a JSON text. -/
def read (s : Bytes) : Except SyntaxError Value :=
  (readText s).mapError (SyntaxError.ofStop s)

end EventScript.Json
