import EventScript.Bytes

/-!
# UTF-8 over octets that may be anything

An octet string is read one octet at a time, and falls into characters and stretches that are no part
of well-formed UTF-8. A stretch is as long as it can be while it could still have begun a character,
so each stretch is one maximal ill-formed subpart. Strict decoding, lossy rendering and the length of
the well-formed front are all read off the same pieces.

* `pieces_append_ascii`: an ASCII octet always ends what came before it, so reading what lies on both
  sides of it apart gives the same pieces.
-/

namespace EventScript.Utf8

/-- The octets of a text. -/
def encode (text : String) : Bytes :=
  text.toList.flatMap String.utf8EncodeChar

theorem encode_append (s t : String) : encode (s ++ t) = encode s ++ encode t := by
  simp [encode]

/-! ## Pieces -/

/-- A stretch of an octet string: a character, or octets that belong to none. -/
inductive Piece
  | char (c : Char)
  | invalid (octets : Bytes)
  deriving DecidableEq, Repr

/-- A character begun but not complete. -/
structure Begun where
  /-- The octets read so far. -/
  octets : Bytes
  /-- The value of their payload bits. -/
  bits : Nat
  /-- The least octet that may come next. -/
  low : UInt8
  /-- The greatest octet that may come next. -/
  high : UInt8
  /-- How many octets are due after the next one. -/
  due : Nat
  deriving DecidableEq, Repr

/-- Where a reader stands: between characters, or inside one. -/
inductive State
  | between
  | inside (begun : Begun)
  deriving DecidableEq, Repr

/-- What an octet gives when no character is open. -/
def start (b : UInt8) : List Piece × State :=
  let opened (bits : UInt8) (low high : UInt8) (due : Nat) : List Piece × State :=
    ([], .inside ⟨[b], bits.toNat, low, high, due⟩)
  if b < 0x80 then ([.char (Char.ofNat b.toNat)], .between)
  else if b < 0xC2 then ([.invalid [b]], .between)
  else if b < 0xE0 then opened (b - 0xC0) 0x80 0xBF 0
  else if b = 0xE0 then opened 0 0xA0 0xBF 1
  else if b = 0xED then opened 0xD 0x80 0x9F 1
  else if b < 0xF0 then opened (b - 0xE0) 0x80 0xBF 1
  else if b = 0xF0 then opened 0 0x90 0xBF 2
  else if b < 0xF4 then opened (b - 0xF0) 0x80 0xBF 2
  else if b = 0xF4 then opened 4 0x80 0x8F 2
  else ([.invalid [b]], .between)

/-- What an octet gives. One that cannot continue the open character ends it and is read afresh. -/
def step : State → UInt8 → List Piece × State
  | .between, b => start b
  | .inside p, b =>
    if p.low ≤ b ∧ b ≤ p.high then
      let bits := p.bits * 64 + (b.toNat - 0x80)
      match p.due with
      | 0 => ([.char (Char.ofNat bits)], .between)
      | due + 1 => ([], .inside ⟨p.octets ++ [b], bits, 0x80, 0xBF, due⟩)
    else
      let (found, state) := start b
      (.invalid p.octets :: found, state)

/-- What the end of the octets gives. -/
def finish : State → List Piece
  | .between => []
  | .inside p => [.invalid p.octets]

/-- The pieces of an octet string read from a given state. -/
def piecesFrom : State → Bytes → List Piece
  | s, [] => finish s
  | s, b :: rest =>
    let (found, next) := step s b
    found ++ piecesFrom next rest

/-- The pieces of an octet string. -/
def pieces (bs : Bytes) : List Piece :=
  piecesFrom .between bs

/-! ## Text -/

/-- The character of a piece, if it is one. -/
def Piece.char? : Piece → Option Char
  | .char c => some c
  | .invalid _ => none

/-- The text that the octets spell, if they are UTF-8 throughout. -/
def decode? (bs : Bytes) : Option String :=
  ((pieces bs).mapM Piece.char?).map String.ofList

/-- The character shown for a piece: U+FFFD stands for what is no character. -/
def Piece.shown : Piece → Char
  | .char c => c
  | .invalid _ => '\uFFFD'

/-- The characters of an octet string, with one U+FFFD for each stretch that is not UTF-8. -/
def lossyChars (bs : Bytes) : List Char :=
  (pieces bs).map Piece.shown

/-- The text of an octet string, with one U+FFFD for each stretch that is not UTF-8. -/
def lossy (bs : Bytes) : String :=
  String.ofList (lossyChars bs)

/-- How many octets at the front are UTF-8: those before the first stretch that is not. -/
def validLength (bs : Bytes) : Nat :=
  (((pieces bs).map Piece.char?).takeWhile Option.isSome).foldl
    (fun n c => n + (c.elim 0 fun c => (String.utf8EncodeChar c).length)) 0

/-! ## ASCII octets separate -/

theorem start_ascii {b : UInt8} (h : b < 0x80) :
    start b = ([.char (Char.ofNat b.toNat)], .between) := by
  simp [start, h]

/-- Every octet that continues a character lies above ASCII. -/
def State.Open : State → Prop
  | .between => True
  | .inside p => 0x80 ≤ p.low

theorem open_start (b : UInt8) : (start b).2.Open := by
  unfold start
  dsimp only
  repeat' split
  all_goals simp [State.Open]

theorem open_step {s : State} (_ : s.Open) (b : UInt8) : (step s b).2.Open := by
  cases s with
  | between => exact open_start b
  | inside p =>
    unfold step
    dsimp only
    split
    · split <;> simp [State.Open]
    · exact open_start b

theorem step_ascii {s : State} (hs : s.Open) {b : UInt8} (hb : b < 0x80) :
    step s b = (finish s ++ [.char (Char.ofNat b.toNat)], .between) := by
  cases s with
  | between => simp [step, start_ascii hb, finish]
  | inside p =>
    have hlow : ¬ p.low ≤ b := by
      intro hle
      exact absurd (UInt8.le_trans hs hle) (UInt8.not_le.mpr hb)
    simp [step, hlow, start_ascii hb, finish]

theorem piecesFrom_append_ascii {s : State} (hs : s.Open) (xs : Bytes) {b : UInt8} (hb : b < 0x80)
    (ys : Bytes) :
    piecesFrom s (xs ++ b :: ys) = piecesFrom s xs ++ .char (Char.ofNat b.toNat) :: pieces ys := by
  induction xs generalizing s with
  | nil => simp [piecesFrom, step_ascii hs hb, pieces]
  | cons x xs ih => simp [piecesFrom, ih (open_step hs x)]

/-- An ASCII octet ends what came before it, so its two sides can be read apart. -/
theorem pieces_append_ascii (xs : Bytes) {b : UInt8} (hb : b < 0x80) (ys : Bytes) :
    pieces (xs ++ b :: ys) = pieces xs ++ .char (Char.ofNat b.toNat) :: pieces ys :=
  piecesFrom_append_ascii (s := .between) trivial xs hb ys

end EventScript.Utf8
