import EventScript.Json.Grammar
import EventScript.Proofs.Utf8RoundTrip

/-!
# Strings, numbers and white space are read from each of their texts

Each reader is given a text of its thing with anything after it, and gives the thing with what is after it.
A number is the only thing that its own text does not end, so what comes after one must not go on with it
(`EndsNumber`).

* `readString_append`: a string is read from each of its spellings.
* `readNumber_append`: so is a number.
* `skipBlank_append`: white space is skipped and nothing else.
-/

namespace EventScript.Json

/-! ## Results -/

/-- A reader gives a value and the octets after it. -/
def Gives {limit : Nat} {α : Type} (result : Except Stop (Read limit α)) (value : α) (rest : Bytes) :
    Prop :=
  ∃ shorter, result = .ok ⟨value, rest, shorter⟩

theorem gives_ok {limit : Nat} {α : Type} (r : Read limit α) : Gives (.ok r) r.value r.rest :=
  ⟨r.shorter, rfl⟩

theorem Gives.weaken {limit larger : Nat} {α : Type} {result : Except Stop (Read limit α)} {value : α}
    {rest : Bytes} (h : Gives result value rest) (hle : limit ≤ larger) :
    Gives (result.map fun r => r.weaken hle) value rest := by
  obtain ⟨_, rfl⟩ := h
  exact gives_ok _

/-! ## Strings -/

theorem readHex_append {n : Nat} {s : Bytes} (h : SpellsHex n s) (rest : Bytes) :
    Gives (readHex (s ++ rest)) n rest := by
  cases h with
  | digits ha hb hc hd =>
    simp only [readHex, List.cons_append, List.nil_append, ha, hb, hc, hd]
    exact gives_ok _

theorem readLowSurrogate_append {n : Nat} {s : Bytes} (h : SpellsUnit n s)
    (hlow : isLowSurrogate n = true) (rest : Bytes) : Gives (readLowSurrogate (s ++ rest)) n rest := by
  cases h with
  | escape h =>
    obtain ⟨shorter, hhex⟩ := readHex_append h rest
    simp only [readLowSurrogate, List.cons_append, ne_eq, not_true_eq_false, if_false, hhex, hlow,
      if_true]
    exact gives_ok _

theorem readEscape_short {letter : UInt8} {c : Char} (h : (letter, c) ∈ shortEscapes) (rest : Bytes) :
    Gives (readEscape (letter :: rest)) (String.utf8EncodeChar c) rest := by
  have hoctet : ∃ octet, unescape? letter = some octet ∧ String.utf8EncodeChar c = [octet] := by
    simp only [shortEscapes, List.mem_cons, Prod.mk.injEq, List.not_mem_nil, or_false] at h
    rcases h with ⟨rfl, rfl⟩ | ⟨rfl, rfl⟩ | ⟨rfl, rfl⟩ | ⟨rfl, rfl⟩ | ⟨rfl, rfl⟩ | ⟨rfl, rfl⟩ |
      ⟨rfl, rfl⟩ | ⟨rfl, rfl⟩ <;> exact ⟨_, rfl, rfl⟩
  obtain ⟨octet, hletter, hc⟩ := hoctet
  simp only [readEscape, hletter, hc]
  exact gives_ok _

theorem readEscape_codePoint {s after octets : Bytes} (h : Gives (readCodePoint s) octets after) :
    Gives (readEscape (0x75 :: s)) octets after := by
  obtain ⟨shorter, h⟩ := h
  have hnone : unescape? 0x75 = none := rfl
  simp only [readEscape, hnone, if_true, h]
  exact gives_ok _

theorem isHighSurrogate_iff {n : Nat} : isHighSurrogate n = true ↔ 0xD800 ≤ n ∧ n ≤ 0xDBFF := by
  rw [isHighSurrogate, Bool.and_eq_true, decide_eq_true_eq, decide_eq_true_eq]

theorem isLowSurrogate_iff {n : Nat} : isLowSurrogate n = true ↔ 0xDC00 ≤ n ∧ n ≤ 0xDFFF := by
  rw [isLowSurrogate, Bool.and_eq_true, decide_eq_true_eq, decide_eq_true_eq]

theorem readCodePoint_unit {c : Char} {digits : Bytes} (h : SpellsHex c.toNat digits) (rest : Bytes) :
    Gives (readCodePoint (digits ++ rest)) (String.utf8EncodeChar c) rest := by
  have hvalid : c.toNat < 0xD800 ∨ 0xDFFF < c.toNat ∧ c.toNat < 0x110000 := c.valid
  have hlow : ¬ isLowSurrogate c.toNat = true := by
    rw [isLowSurrogate_iff]
    omega
  have hhigh : ¬ isHighSurrogate c.toNat = true := by
    rw [isHighSurrogate_iff]
    omega
  have hpoint : codePoint c.toNat = String.utf8EncodeChar c := by
    rw [codePoint, Char.ofNat_toNat]
  obtain ⟨shorter, hhex⟩ := readHex_append h rest
  rw [← hpoint]
  simp only [readCodePoint, hhex, if_neg hlow, if_neg hhigh]
  exact gives_ok _

theorem readCodePoint_pair {c : Char} {high low : Nat} {digits s : Bytes} (h : SpellsHex high digits)
    (hs : SpellsUnit low s) (isHigh : 0xD800 ≤ high ∧ high ≤ 0xDBFF)
    (isLow : 0xDC00 ≤ low ∧ low ≤ 0xDFFF)
    (hc : c.toNat = 0x10000 + (high - 0xD800) * 0x400 + (low - 0xDC00)) (rest : Bytes) :
    Gives (readCodePoint (digits ++ (s ++ rest))) (String.utf8EncodeChar c) rest := by
  have hnotLow : ¬ isLowSurrogate high = true := by
    rw [isLowSurrogate_iff]
    omega
  have hhigh := isHighSurrogate_iff.mpr isHigh
  have hlow := isLowSurrogate_iff.mpr isLow
  obtain ⟨shorter, hhex⟩ := readHex_append h (s ++ rest)
  obtain ⟨shorter', hsecond⟩ := readLowSurrogate_append hs hlow rest
  have hpoint : codePoint (0x10000 + (high - 0xD800) * 0x400 + (low - 0xDC00)) =
      String.utf8EncodeChar c := by
    rw [← hc, codePoint, Char.ofNat_toNat]
  simp only [readCodePoint, hhex, if_neg hnotLow, if_pos hhigh, hsecond]
  rw [← hpoint]
  generalize 0x10000 + (high - 0xD800) * 0x400 + (low - 0xDC00) = point
  exact gives_ok _

/-- Reading goes on after a part of a string. -/
theorem readOctets_of_part {limit : Nat} {seen s part t octets rest : Bytes} (h : s.length ≤ limit)
    (hpart : Gives (readPart s) (some part) t)
    (hrest : ∀ h', Gives (@readOctets limit (part.reverse ++ seen) t h') octets rest) :
    Gives (readOctets seen s h) octets rest := by
  obtain ⟨shorter, hpart⟩ := hpart
  rw [readOctets, hpart]
  exact hrest _

theorem readPart_escape {s part t : Bytes} (h : Gives (readEscape s) part t) :
    Gives (readPart (Ascii.backslash :: s)) (some part) t := by
  obtain ⟨shorter, h⟩ := h
  have hne : Ascii.backslash ≠ Ascii.quote := by decide
  simp only [readPart, hne, if_false, if_true, h]
  exact gives_ok _

/-- An octet that is no quote, no backslash and no control character stands for itself. -/
theorem readPart_plain {b : UInt8} (hquote : b ≠ Ascii.quote) (hbackslash : b ≠ Ascii.backslash)
    (hprinted : ¬ b < 0x20) (rest : Bytes) : Gives (readPart (b :: rest)) (some [b]) rest := by
  simp only [readPart, hquote, hbackslash, hprinted, if_false]
  exact gives_ok _

theorem readOctets_plain {limit : Nat} {os : Bytes}
    (hos : ∀ b ∈ os, b ≠ Ascii.quote ∧ b ≠ Ascii.backslash ∧ ¬ b < 0x20) {seen s octets rest : Bytes}
    (h : (os ++ s).length ≤ limit)
    (hrest : ∀ h', Gives (@readOctets limit (os.reverse ++ seen) s h') octets rest) :
    Gives (readOctets seen (os ++ s) h) octets rest := by
  induction os generalizing seen with
  | nil => exact hrest h
  | cons b os ih =>
    obtain ⟨hquote, hbackslash, hprinted⟩ := hos b List.mem_cons_self
    apply readOctets_of_part h (readPart_plain hquote hbackslash hprinted _)
    intro h'
    apply ih fun b' hb' => hos b' (List.mem_cons_of_mem b hb')
    simpa only [List.reverse_cons, List.reverse_nil, List.nil_append, List.append_assoc] using hrest

/-- A character is read from each of its spellings. -/
theorem readOctets_char {limit : Nat} {c : Char} {s : Bytes} (hs : SpellsChar c s)
    {seen t octets rest : Bytes} (h : (s ++ t).length ≤ limit)
    (hrest : ∀ h', Gives (@readOctets limit ((String.utf8EncodeChar c).reverse ++ seen) t h') octets rest) :
    Gives (readOctets seen (s ++ t) h) octets rest := by
  cases hs with
  | plain printed noQuote noBackslash =>
    apply readOctets_plain _ h hrest
    intro b hb
    have hb := Utf8.toNat_of_mem_utf8EncodeChar hb
    have hne {n : Nat} (hc : c ≠ Char.ofNat n) : c.toNat ≠ n := by
      rintro rfl
      exact hc (Char.ofNat_toNat c).symm
    have hquote : c.toNat ≠ 0x22 := hne noQuote
    have hbackslash : c.toNat ≠ 0x5C := hne noBackslash
    simp only [ne_eq, ← UInt8.toNat_inj, UInt8.lt_iff_toNat_lt, Ascii.quote, Ascii.backslash,
      UInt8.reduceToNat]
    omega
  | short hletter =>
    exact readOctets_of_part h (readPart_escape (readEscape_short hletter t)) hrest
  | unit hunit =>
    cases hunit with
    | escape hhex =>
      exact readOctets_of_part h (readPart_escape (readEscape_codePoint (readCodePoint_unit hhex t))) hrest
  | pair hhigh hlow isHigh isLow hc =>
    cases hhigh with
    | escape hhex =>
      simp only [List.cons_append, List.append_assoc] at h ⊢
      exact readOctets_of_part h
        (readPart_escape (readEscape_codePoint (readCodePoint_pair hhex hlow isHigh isLow hc t))) hrest

/-- The characters of a string are read up to the quote that ends it. -/
theorem readOctets_append {limit : Nat} {cs : List Char} {s : Bytes} (hs : SpellsChars cs s)
    (seen rest : Bytes) (h : (s ++ Ascii.quote :: rest).length ≤ limit) :
    Gives (readOctets seen (s ++ Ascii.quote :: rest) h)
      (seen.reverse ++ cs.flatMap String.utf8EncodeChar) rest := by
  induction hs generalizing seen with
  | nil =>
    have hend : readPart (Ascii.quote :: rest) = .ok ⟨none, rest, Nat.lt_succ_self _⟩ := rfl
    rw [List.nil_append] at h
    rw [List.flatMap_nil, List.append_nil]
    simp only [List.nil_append]
    rw [readOctets, hend]
    exact gives_ok _
  | @cons c cs s t hc _ ih =>
    have hlength : (s ++ (t ++ Ascii.quote :: rest)).length ≤ limit := by
      rwa [← List.append_assoc]
    simp only [List.append_assoc]
    apply readOctets_char hc hlength
    intro h'
    have htail := ih ((String.utf8EncodeChar c).reverse ++ seen) h'
    simpa only [List.reverse_append, List.reverse_reverse, List.append_assoc, List.flatMap_cons] using htail

/-- A string is read from each of its spellings. -/
theorem readString_append {text : String} {s : Bytes} (h : SpellsChars text.toList s) (rest : Bytes) :
    Gives (readString (s ++ Ascii.quote :: rest)) text rest := by
  obtain ⟨shorter, hoctets⟩ := readOctets_append h [] rest (Nat.le_refl _)
  have htext : Utf8.decode? ([].reverse ++ text.toList.flatMap String.utf8EncodeChar) = some text :=
    Utf8.decode?_encode text
  rw [readString, hoctets]
  simp only [htext]
  exact gives_ok _

/-! ## Numbers -/

/-- What comes after a number and is no part of it. -/
def EndsNumber (rest : Bytes) : Prop :=
  ∀ b ∈ rest.head?, Ascii.digit? b = none ∧ b ≠ Ascii.dot ∧ b ≠ 0x65 ∧ b ≠ 0x45

/-- The digits at the front are taken, and no more. -/
theorem takeDigits_append {ds : List Nat} {s rest : Bytes} (h : SpellsDigits ds s)
    (hrest : ∀ b ∈ rest.head?, Ascii.digit? b = none) : takeDigits (s ++ rest) = (ds, rest) := by
  induction s generalizing ds with
  | nil =>
    have hds : ds = [] := List.map_eq_nil_iff.mp h.symm
    subst hds
    cases rest with
    | nil => rfl
    | cons b after => simp only [List.nil_append, takeDigits, hrest b rfl]
  | cons b s ih =>
    cases ds with
    | nil => cases h
    | cons d ds =>
      obtain ⟨hb, hs⟩ := List.cons_eq_cons.mp h
      simp only [List.cons_append, takeDigits, hb, ih hs]

theorem takeDigits_of_none {rest : Bytes} (hrest : ∀ b ∈ rest.head?, Ascii.digit? b = none) :
    takeDigits rest = ([], rest) :=
  takeDigits_append (s := []) rfl hrest

theorem readWhole_append {ds : List Nat} {s rest : Bytes} (h : SpellsWhole ds s)
    (hrest : ∀ b ∈ rest.head?, Ascii.digit? b = none) : Gives (readWhole (s ++ rest)) ds rest := by
  cases h with
  | zero =>
    have hzero : Ascii.digit? Ascii.zero = some 0 := rfl
    simp only [readWhole, List.singleton_append, hzero, takeDigits_of_none hrest, List.isEmpty_nil,
      if_true]
    exact gives_ok _
  | @digits d ds s h positive =>
    cases s with
    | nil => cases h
    | cons b s =>
      obtain ⟨hb, hs⟩ := List.cons_eq_cons.mp h
      simp only [readWhole, List.cons_append, hb, takeDigits_append hs hrest]
      exact gives_ok _

theorem readFraction_append {ds : Option (List Nat)} {s rest : Bytes} (h : SpellsFraction ds s)
    (hrest : ∀ b ∈ rest.head?, Ascii.digit? b = none ∧ b ≠ Ascii.dot) :
    Gives (readFraction (s ++ rest)) ds rest := by
  cases h with
  | absent =>
    cases rest with
    | nil => exact gives_ok _
    | cons b after =>
      simp only [List.nil_append, readFraction, (hrest b rfl).2, if_false]
      exact gives_ok _
  | @digits ds s h hne =>
    have hempty : ds.isEmpty = false := by simpa using hne
    simp only [List.cons_append, readFraction, if_true, takeDigits_append h fun b hb => (hrest b hb).1,
      hempty, Bool.false_eq_true, if_false]
    exact gives_ok _

theorem takeSign_append {minus : Bool} {sign s : Bytes} (h : SpellsSign minus sign)
    (hs : ∀ b ∈ s.head?, b ≠ Ascii.plus ∧ b ≠ Ascii.minus) : takeSign (sign ++ s) = (minus, s) := by
  cases h with
  | absent =>
    cases s with
    | nil => rfl
    | cons b after => simp only [List.nil_append, takeSign, (hs b rfl).1, (hs b rfl).2, if_false]
  | plus => rfl
  | minus => rfl

theorem ne_of_digit {b c : UInt8} {d : Nat} (hb : Ascii.digit? b = some d) (hc : Ascii.digit? c = none) :
    b ≠ c := by
  rintro rfl
  cases hb.symm.trans hc

theorem readExponent_append {e : Option (Bool × List Nat)} {s rest : Bytes} (h : SpellsExponent e s)
    (hrest : ∀ b ∈ rest.head?, Ascii.digit? b = none ∧ b ≠ 0x65 ∧ b ≠ 0x45) :
    Gives (readExponent (s ++ rest)) e rest := by
  cases h with
  | absent =>
    cases rest with
    | nil => exact gives_ok _
    | cons b after =>
      simp only [List.nil_append, readExponent, (hrest b rfl).2.1, (hrest b rfl).2.2, or_self, if_false]
      exact gives_ok _
  | @digits mark minus ds sign s hmark hsign h hne =>
    obtain ⟨d, ds, rfl⟩ := List.exists_cons_of_ne_nil hne
    have hhead : ∀ b ∈ (s ++ rest).head?, b ≠ Ascii.plus ∧ b ≠ Ascii.minus := by
      cases s with
      | nil => cases h
      | cons b s =>
        obtain ⟨hb, -⟩ := List.cons_eq_cons.mp h
        rintro b' ⟨⟩
        exact ⟨ne_of_digit hb rfl, ne_of_digit hb rfl⟩
    have htake : takeDigits (takeSign (sign ++ (s ++ rest))).2 = (d :: ds, rest) := by
      rw [takeSign_append hsign hhead]
      exact takeDigits_append h fun b hb => (hrest b hb).1
    have hminus : (takeSign (sign ++ (s ++ rest))).1 = minus := by
      rw [takeSign_append hsign hhead]
    rw [List.cons_append, List.append_assoc]
    simp only [readExponent, hmark, if_true]
    split
    next hnil => cases htake.symm.trans hnil
    next hnil => cases htake.symm.trans hnil
    next heq =>
      cases htake.symm.trans heq
      rw [← hminus]
      exact gives_ok _

theorem endsNumber_nil : EndsNumber [] := by
  rintro b ⟨⟩

theorem SpellsExponent.head {e : Option (Bool × List Nat)} {s rest : Bytes} (h : SpellsExponent e s)
    (hrest : EndsNumber rest) : ∀ b ∈ (s ++ rest).head?, Ascii.digit? b = none ∧ b ≠ Ascii.dot := by
  cases h with
  | absent => exact fun b hb => ⟨(hrest b hb).1, (hrest b hb).2.1⟩
  | digits hmark =>
    rintro b ⟨⟩
    rcases hmark with rfl | rfl <;> exact ⟨rfl, by decide⟩

theorem SpellsFraction.head {ds : Option (List Nat)} {s rest : Bytes} (h : SpellsFraction ds s)
    (hrest : ∀ b ∈ rest.head?, Ascii.digit? b = none) :
    ∀ b ∈ (s ++ rest).head?, Ascii.digit? b = none := by
  cases h with
  | absent => exact hrest
  | digits =>
    rintro b ⟨⟩
    rfl

/-- A number literal without its sign is read as it stands. -/
theorem readUnsigned_append {l : Literal} {s rest : Bytes} (h : SpellsUnsigned l s)
    (hrest : EndsNumber rest) : Gives (readUnsigned l.negative (s ++ rest)) l rest := by
  cases h with
  | @parts s t u hs ht hu =>
    have hexponent := hu.head hrest
    have hfraction := ht.head fun b hb => (hexponent b hb).1
    obtain ⟨_, hwhole⟩ := readWhole_append hs hfraction
    obtain ⟨_, hpoint⟩ := readFraction_append ht hexponent
    obtain ⟨_, hmark⟩ := readExponent_append hu fun b hb => ⟨(hrest b hb).1, (hrest b hb).2.2⟩
    rw [List.append_assoc, List.append_assoc]
    simp only [readUnsigned, hwhole, hpoint, hmark]
    exact gives_ok _

theorem readNumber_append {l : Literal} {n : Number} {s rest : Bytes} (h : SpellsUnsigned l s)
    (hn : l.number = .ok n) (hrest : EndsNumber rest) :
    Gives (readNumber l.negative (s ++ rest)) (.number n) rest := by
  obtain ⟨_, hread⟩ := readUnsigned_append h hrest
  simp only [readNumber, hread, hn]
  exact gives_ok _

theorem SpellsDigits.head {d : Nat} {ds : List Nat} {s : Bytes} (h : SpellsDigits (d :: ds) s) :
    ∃ b t, s = b :: t ∧ Ascii.digit? b = some d := by
  cases s with
  | nil => cases h
  | cons b t => exact ⟨b, t, rfl, (List.cons_eq_cons.mp h).1⟩

theorem SpellsUnsigned.head {l : Literal} {s : Bytes} (h : SpellsUnsigned l s) :
    ∃ b t d, s = b :: t ∧ Ascii.digit? b = some d := by
  cases h with
  | parts hs =>
    generalize l.whole = ds at hs
    cases hs with
    | zero => exact ⟨_, _, 0, rfl, rfl⟩
    | digits h =>
      obtain ⟨b, t, rfl, hb⟩ := h.head
      exact ⟨b, _, _, rfl, hb⟩

/-! ## White space -/

/-- The octets that are white space. -/
def isBlank (b : UInt8) : Bool :=
  b == Ascii.space || b == Ascii.tab || b == Ascii.lineFeed || b == Ascii.carriageReturn

theorem blank_iff {w : Bytes} : Blank w ↔ ∀ b ∈ w, isBlank b = true := by
  simp only [Blank, isBlank, Bool.or_eq_true, beq_iff_eq, or_assoc]

theorem blank_nil : Blank [] :=
  fun _ h => nomatch h

/-- White space is skipped up to the first octet that is none. -/
theorem skipBlank_append {w : Bytes} (hw : Blank w) {b : UInt8} (hb : isBlank b = false) (rest : Bytes) :
    skipBlank (w ++ b :: rest) = b :: rest := by
  have hdrop : skipBlank (w ++ b :: rest) = (w ++ b :: rest).dropWhile isBlank := rfl
  rw [hdrop, List.dropWhile_append_of_pos (blank_iff.mp hw), List.dropWhile_cons_of_neg (by simp [hb])]

theorem skipBlank_blank {w : Bytes} (hw : Blank w) : skipBlank w = [] := by
  have hdrop : skipBlank w = w.dropWhile isBlank := rfl
  rw [hdrop, List.dropWhile_eq_nil_iff]
  exact blank_iff.mp hw

theorem endsNumber_cons {b : UInt8} (hb : Ascii.digit? b = none ∧ b ≠ Ascii.dot ∧ b ≠ 0x65 ∧ b ≠ 0x45)
    (rest : Bytes) : EndsNumber (b :: rest) := by
  rintro b' ⟨⟩
  exact hb

theorem endsNumber_append {w rest : Bytes} (hw : Blank w) (hrest : EndsNumber rest) :
    EndsNumber (w ++ rest) := by
  cases w with
  | nil => exact hrest
  | cons b w =>
    apply endsNumber_cons
    rcases hw b List.mem_cons_self with rfl | rfl | rfl | rfl <;> exact ⟨rfl, by decide, by decide, by decide⟩

theorem isBlank_of_digit {b : UInt8} {d : Nat} (h : Ascii.digit? b = some d) : isBlank b = false := by
  simp only [isBlank, Bool.or_eq_false_iff, beq_eq_false_iff_ne]
  refine ⟨⟨⟨?_, ?_⟩, ?_⟩, ?_⟩ <;> rintro rfl <;> cases h

end EventScript.Json
