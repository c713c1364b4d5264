import EventScript.Json.Reader

/-!
# The grammar of JSON

Which octet strings spell a value, said apart from how they are read. White space may stand around every
token, every character of a string may be escaped in any way there is, and a number may be any literal
for it. An object whose text repeats a key has the key once, at its first place and with its last value.

* `Spells`: the texts of a value whose arrays and objects nest at most so deep.
* `SpellsText`: the texts that are read as a whole.
* `IsJson`: the texts of all values, however large their numbers are and however deep they nest.
-/

namespace EventScript.Json

/-! ## Strings -/

/-- The letters of short escapes and the characters that they stand for. -/
def shortEscapes : List (UInt8 × Char) :=
  [(Ascii.quote, '\x22'), (Ascii.backslash, '\\'), (Ascii.slash, '/'), (0x62, '\x08'), (0x66, '\x0c'),
    (0x6E, '\n'), (0x72, '\r'), (0x74, '\t')]

/-- Four hexadecimal digits, in either case. -/
inductive SpellsHex : Nat → Bytes → Prop
  | digits {a b c d : UInt8} {i j k l : Nat} (ha : Ascii.hexDigit? a = some i)
      (hb : Ascii.hexDigit? b = some j) (hc : Ascii.hexDigit? c = some k)
      (hd : Ascii.hexDigit? d = some l) :
      SpellsHex (((i * 16 + j) * 16 + k) * 16 + l) [a, b, c, d]

/-- A code point escape. -/
inductive SpellsUnit : Nat → Bytes → Prop
  | escape {n : Nat} {digits : Bytes} (h : SpellsHex n digits) :
      SpellsUnit n (Ascii.backslash :: 0x75 :: digits)

/-- A character inside a string. -/
inductive SpellsChar (c : Char) : Bytes → Prop
  | plain (printed : 0x20 ≤ c.toNat) (noQuote : c ≠ '\x22') (noBackslash : c ≠ '\\') :
      SpellsChar c (String.utf8EncodeChar c)
  | short {letter : UInt8} (h : (letter, c) ∈ shortEscapes) : SpellsChar c [Ascii.backslash, letter]
  | unit {s : Bytes} (h : SpellsUnit c.toNat s) : SpellsChar c s
  | pair {high low : Nat} {s t : Bytes} (hs : SpellsUnit high s) (ht : SpellsUnit low t)
      (isHigh : 0xD800 ≤ high ∧ high ≤ 0xDBFF) (isLow : 0xDC00 ≤ low ∧ low ≤ 0xDFFF)
      (hc : c.toNat = 0x10000 + (high - 0xD800) * 0x400 + (low - 0xDC00)) : SpellsChar c (s ++ t)

/-- Characters one after the other inside a string. -/
inductive SpellsChars : List Char → Bytes → Prop
  | nil : SpellsChars [] []
  | cons {c : Char} {cs : List Char} {s t : Bytes} (h : SpellsChar c s) (hs : SpellsChars cs t) :
      SpellsChars (c :: cs) (s ++ t)

/-- A string with its quotes. -/
inductive SpellsString (text : String) : Bytes → Prop
  | quoted {body : Bytes} (h : SpellsChars text.toList body) :
      SpellsString text (Ascii.quote :: (body ++ [Ascii.quote]))

/-! ## Numbers -/

/-- A run of digits. -/
def SpellsDigits (ds : List Nat) (s : Bytes) : Prop :=
  s.map Ascii.digit? = ds.map some

/-- A whole number with no leading zero. -/
inductive SpellsWhole : List Nat → Bytes → Prop
  | zero : SpellsWhole [0] [Ascii.zero]
  | digits {d : Nat} {ds : List Nat} {s : Bytes} (h : SpellsDigits (d :: ds) s) (positive : d ≠ 0) :
      SpellsWhole (d :: ds) s

/-- A fraction, or none. -/
inductive SpellsFraction : Option (List Nat) → Bytes → Prop
  | absent : SpellsFraction none []
  | digits {ds : List Nat} {s : Bytes} (h : SpellsDigits ds s) (hne : ds ≠ []) :
      SpellsFraction (some ds) (Ascii.dot :: s)

/-- The sign of an exponent, by whether it is minus. -/
inductive SpellsSign : Bool → Bytes → Prop
  | absent : SpellsSign false []
  | plus : SpellsSign false [Ascii.plus]
  | minus : SpellsSign true [Ascii.minus]

/-- An exponent, or none. -/
inductive SpellsExponent : Option (Bool × List Nat) → Bytes → Prop
  | absent : SpellsExponent none []
  | digits {mark : UInt8} {minus : Bool} {ds : List Nat} {sign s : Bytes}
      (hmark : mark = 0x65 ∨ mark = 0x45) (hsign : SpellsSign minus sign) (h : SpellsDigits ds s)
      (hne : ds ≠ []) : SpellsExponent (some (minus, ds)) (mark :: (sign ++ s))

/-- A number literal without its sign. -/
inductive SpellsUnsigned (l : Literal) : Bytes → Prop
  | parts {s t u : Bytes} (hs : SpellsWhole l.whole s) (ht : SpellsFraction l.fraction t)
      (hu : SpellsExponent l.exponent u) : SpellsUnsigned l (s ++ (t ++ u))

/-- A number literal. -/
inductive SpellsLiteral (l : Literal) : Bytes → Prop
  | plus {s : Bytes} (hl : l.negative = false) (h : SpellsUnsigned l s) : SpellsLiteral l s
  | minus {s : Bytes} (hl : l.negative = true) (h : SpellsUnsigned l s) :
      SpellsLiteral l (Ascii.minus :: s)

/-! ## Lists -/

/-- White space, or nothing. -/
def Blank (s : Bytes) : Prop :=
  ∀ b ∈ s, b = Ascii.space ∨ b = Ascii.tab ∨ b = Ascii.lineFeed ∨ b = Ascii.carriageReturn

/-- Things separated by commas. -/
inductive Separated {α : Type} (spells : α → Bytes → Prop) : List α → Bytes → Prop
  | last {a : α} {w s w' : Bytes} (hw : Blank w) (h : spells a s) (hw' : Blank w') :
      Separated spells [a] (w ++ (s ++ w'))
  | comma {a : α} {as : List α} {w s w' t : Bytes} (hw : Blank w) (h : spells a s) (hw' : Blank w')
      (hs : Separated spells as t) : Separated spells (a :: as) (w ++ (s ++ (w' ++ Ascii.comma :: t)))

/-- Things separated by commas, or none. -/
inductive Listed {α : Type} (spells : α → Bytes → Prop) : List α → Bytes → Prop
  | empty {w : Bytes} (hw : Blank w) : Listed spells [] w
  | items {as : List α} {s : Bytes} (hs : Separated spells as s) : Listed spells as s

/-! ## Values -/

/-- A value that is no array and no object. -/
inductive SpellsScalar : Value → Bytes → Prop
  | null : SpellsScalar .null [0x6E, 0x75, 0x6C, 0x6C]
  | true : SpellsScalar (.bool true) [0x74, 0x72, 0x75, 0x65]
  | false : SpellsScalar (.bool false) [0x66, 0x61, 0x6C, 0x73, 0x65]
  | number {l : Literal} {n : Number} {s : Bytes} (h : SpellsLiteral l s) (hn : l.number = .ok n) :
      SpellsScalar (.number n) s
  | string {text : String} {s : Bytes} (h : SpellsString text s) : SpellsScalar (.string text) s

/-- A member of an object. -/
inductive SpellsMember (spells : Value → Bytes → Prop) : String × Value → Bytes → Prop
  | pair {key : String} {v : Value} {s w w' t : Bytes} (hs : SpellsString key s) (hw : Blank w)
      (hw' : Blank w') (ht : spells v t) :
      SpellsMember spells (key, v) (s ++ (w ++ Ascii.colon :: (w' ++ t)))

/-- Puts members into an object, one after the other. -/
def Value.putMembers (done members : List (String × Value)) : List (String × Value) :=
  members.foldl (fun done m => putMember m.1 m.2 done) done

/-- An array or an object of values that are spelled in a given way. -/
inductive SpellsNested (spells : Value → Bytes → Prop) : Value → Bytes → Prop
  | array {items : List Value} {s : Bytes} (h : Listed spells items s) :
      SpellsNested spells (.array items) (Ascii.bracketOpen :: (s ++ [Ascii.bracketClose]))
  | object {members : List (String × Value)} {s : Bytes} (h : Listed (SpellsMember spells) members s) :
      SpellsNested spells (.object (Value.putMembers [] members))
        (Ascii.braceOpen :: (s ++ [Ascii.braceClose]))

/-- A value whose arrays and objects nest at most `depth` deep. -/
def Spells : (depth : Nat) → Value → Bytes → Prop
  | 0, v, s => SpellsScalar v s
  | depth + 1, v, s => SpellsScalar v s ∨ SpellsNested (Spells depth) v s

/-- A text that holds one value and nothing else. -/
inductive SpellsText (v : Value) : Bytes → Prop
  | text {w s w' : Bytes} (hw : Blank w) (h : Spells maxDepth v s) (hw' : Blank w') :
      SpellsText v (w ++ (s ++ w'))

/-! ## Values without bounds

What follows bounds neither numbers nor nesting, so a text may be of no value that is read. -/

/-- A text of a value that is no array and no object. -/
inductive IsScalar : Bytes → Prop
  | null : IsScalar [0x6E, 0x75, 0x6C, 0x6C]
  | true : IsScalar [0x74, 0x72, 0x75, 0x65]
  | false : IsScalar [0x66, 0x61, 0x6C, 0x73, 0x65]
  | number {l : Literal} {s : Bytes} (h : SpellsLiteral l s) : IsScalar s
  | string {text : String} {s : Bytes} (h : SpellsString text s) : IsScalar s

/-- An item of an array, by its text. -/
inductive ItemText (value : Bytes → Prop) : Bytes → Bytes → Prop
  | text {t : Bytes} (h : value t) : ItemText value t t

/-- A member of an object, by its key and the text of its value. -/
inductive MemberText (value : Bytes → Prop) : String × Bytes → Bytes → Prop
  | pair {key : String} {s w w' t : Bytes} (hs : SpellsString key s) (hw : Blank w) (hw' : Blank w')
      (ht : value t) : MemberText value (key, t) (s ++ (w ++ Ascii.colon :: (w' ++ t)))

/-- A text of an array, by the texts of its items. -/
inductive ArrayText (value : Bytes → Prop) (items : List Bytes) : Bytes → Prop
  | items {s : Bytes} (h : Listed (ItemText value) items s) :
      ArrayText value items (Ascii.bracketOpen :: (s ++ [Ascii.bracketClose]))

/-- A text of an object, by the keys and the texts of the values of its members. -/
inductive ObjectText (value : Bytes → Prop) (members : List (String × Bytes)) : Bytes → Prop
  | members {s : Bytes} (h : Listed (MemberText value) members s) :
      ObjectText value members (Ascii.braceOpen :: (s ++ [Ascii.braceClose]))

/-- A text of a value whose arrays and objects nest at most `depth` deep. -/
def IsValue : (depth : Nat) → Bytes → Prop
  | 0, s => IsScalar s
  | depth + 1, s =>
    IsScalar s ∨ (∃ items, ArrayText (IsValue depth) items s) ∨
      ∃ members, ObjectText (IsValue depth) members s

/-- A text of a value. -/
def IsJson (s : Bytes) : Prop :=
  ∃ depth, IsValue depth s

/-- What has white space around it, if any. -/
inductive Padded (p : Bytes → Prop) : Bytes → Prop
  | pad {w s w' : Bytes} (hw : Blank w) (h : p s) (hw' : Blank w') : Padded p (w ++ (s ++ w'))

end EventScript.Json
