import EventScript.Proofs.JsonTokens

/-!
# Strings, numbers and white space spell what is read from them

The octets that a reader takes spell what it gives. Each reader is told by what it says of the octets at the
front (`Begins`), in the order in which they call each other. A string is read octet by octet and only then
taken for text, so its octets are cut into characters afterwards (`Parts.spellsChars`).

* `readString_spells`: a string is read from one of its spellings.
* `readNumber_spells`: so is a number.
* `skipBlank_blanks`: nothing but white space is skipped.
-/

namespace EventScript.Json

/-- The octets in front of `rest` are such that `p` holds of them. -/
def Begins (p : Bytes → Prop) (s rest : Bytes) : Prop :=
  ∃ t, p t ∧ s = t ++ rest

section

variable {p q r : Bytes → Prop} {s rest rest' : Bytes}

theorem Begins.imp (h : Begins p s rest) (hpq : ∀ t, p t → q t) : Begins q s rest := by
  obtain ⟨t, ht, hs⟩ := h
  exact ⟨t, hpq t ht, hs⟩

theorem Begins.cons {b : UInt8} (h : Begins (fun t => p (b :: t)) s rest) : Begins p (b :: s) rest := by
  obtain ⟨t, ht, rfl⟩ := h
  exact ⟨b :: t, ht, rfl⟩

/-- What begins with one thing and goes on with another begins with both. -/
theorem Begins.both (h : Begins p s rest) (h' : Begins q rest rest') :
    Begins (fun t => ∃ u v, p u ∧ q v ∧ t = u ++ v) s rest' := by
  obtain ⟨t, ht, rfl⟩ := h
  obtain ⟨u, hu, rfl⟩ := h'
  exact ⟨t ++ u, ⟨t, u, ht, hu, rfl⟩, (List.append_assoc ..).symm⟩

theorem Begins.append (h : Begins p s rest) (h' : Begins q rest rest') (hpq : ∀ t u, p t → q u → r (t ++ u)) :
    Begins r s rest' := by
  refine (h.both h').imp ?_
  rintro _ ⟨t, u, ht, hu, rfl⟩
  exact hpq t u ht hu

end

/-! ## Escapes -/

theorem hexDigit?_lt {b : UInt8} {d : Nat} (h : Ascii.hexDigit? b = some d) : d < 16 := by
  unfold Ascii.hexDigit? at h
  simp only [UInt8.le_iff_toNat_le, UInt8.reduceToNat] at h
  split_ifs at h <;> cases h <;> omega

theorem SpellsHex.lt {n : Nat} {s : Bytes} (h : SpellsHex n s) : n < 0x10000 := by
  obtain ⟨ha, hb, hc, hd⟩ := h
  have := hexDigit?_lt ha
  have := hexDigit?_lt hb
  have := hexDigit?_lt hc
  have := hexDigit?_lt hd
  omega

theorem readHex_spells {s : Bytes} {r : Read s.length Nat} (h : readHex s = .ok r) :
    Begins (SpellsHex r.value) s r.rest := by
  unfold readHex at h
  split at h
  next a b c d rest =>
    split at h
    next ha hb hc hd =>
      cases h
      exact ⟨[a, b, c, d], .digits ha hb hc hd, rfl⟩
    next => cases h
  next => cases h

theorem readLowSurrogate_spells {s : Bytes} {r : Read s.length Nat} (h : readLowSurrogate s = .ok r) :
    Begins (SpellsUnit r.value) s r.rest ∧ isLowSurrogate r.value = true := by
  unfold readLowSurrogate at h
  split at h
  next => cases h
  next b rest =>
    split_ifs at h with hb
    obtain rfl := not_not.mp hb
    split at h
    next => cases h
    next c rest' =>
      split_ifs at h with hc
      obtain rfl := not_not.mp hc
      split at h
      next => cases h
      next low hlow =>
        split_ifs at h with hvalue
        cases h
        exact ⟨((readHex_spells hlow).imp fun digits hdigits => .escape hdigits).cons.cons, hvalue⟩

theorem spellsChar_unit {n : Nat} {digits : Bytes} (h : SpellsHex n digits) (hn : ¬ (0xD800 ≤ n ∧ n ≤ 0xDFFF)) :
    SpellsChar (Char.ofNat n) (Ascii.backslash :: 0x75 :: digits) := by
  have hlt := h.lt
  have hvalid : n.isValidChar := by
    by_cases hfirst : n < 0xD800
    · exact .inl hfirst
    · exact .inr (by omega)
  refine .unit ?_
  rw [Char.toNat_ofNat, if_pos hvalid]
  exact .escape h

theorem spellsChar_pair {high low : Nat} {digits s : Bytes} (h : SpellsHex high digits) (hs : SpellsUnit low s)
    (isHigh : 0xD800 ≤ high ∧ high ≤ 0xDBFF) (isLow : 0xDC00 ≤ low ∧ low ≤ 0xDFFF) :
    SpellsChar (Char.ofNat (0x10000 + (high - 0xD800) * 0x400 + (low - 0xDC00)))
      (Ascii.backslash :: 0x75 :: (digits ++ s)) := by
  have hvalid : (0x10000 + (high - 0xD800) * 0x400 + (low - 0xDC00)).isValidChar := .inr (by omega)
  refine .pair (.escape h) hs isHigh isLow ?_
  rw [Char.toNat_ofNat, if_pos hvalid]

/-- A code point escape is one of a character, alone or as a pair. -/
theorem readCodePoint_spells {s : Bytes} {r : Read s.length Bytes} (h : readCodePoint s = .ok r) :
    ∃ c, r.value = String.utf8EncodeChar c ∧
      Begins (fun t => SpellsChar c (Ascii.backslash :: 0x75 :: t)) s r.rest := by
  unfold readCodePoint at h
  split at h
  next => cases h
  next unit hunit =>
    have hdigits := readHex_spells hunit
    split_ifs at h with hlow hhigh
    · split at h
      next => cases h
      next low hread =>
        obtain ⟨hpair, hsecond⟩ := readLowSurrogate_spells hread
        have hbegins : Begins (fun t => SpellsChar
            (Char.ofNat (0x10000 + (unit.value - 0xD800) * 0x400 + (low.value - 0xDC00)))
            (Ascii.backslash :: 0x75 :: t)) s low.rest :=
          hdigits.append hpair fun t u ht hu =>
            spellsChar_pair ht hu (isHighSurrogate_iff.mp hhigh) (isLowSurrogate_iff.mp hsecond)
        generalize 0x10000 + (unit.value - 0xD800) * 0x400 + (low.value - 0xDC00) = point at h hbegins
        cases h
        exact ⟨_, rfl, hbegins⟩
    · cases h
      rw [isLowSurrogate_iff] at hlow
      rw [isHighSurrogate_iff] at hhigh
      exact ⟨_, rfl, hdigits.imp fun t ht => spellsChar_unit ht (by omega)⟩

theorem exists_short {b octet : UInt8} (h : unescape? b = some octet) :
    ∃ c, (b, c) ∈ shortEscapes ∧ [octet] = String.utf8EncodeChar c := by
  unfold unescape? at h
  split_ifs at h with hself hb hf hn hr ht <;> cases h
  · rcases hself with rfl | rfl | rfl
    · exact ⟨'\x22', by decide, rfl⟩
    · exact ⟨'\\', by decide, rfl⟩
    · exact ⟨'/', by decide, rfl⟩
  · exact ⟨'\x08', by simp [hb, shortEscapes], rfl⟩
  · exact ⟨'\x0c', by simp [hf, shortEscapes], rfl⟩
  · exact ⟨'\n', by simp [hn, shortEscapes], rfl⟩
  · exact ⟨'\r', by simp [hr, shortEscapes], rfl⟩
  · exact ⟨'\t', by simp [ht, shortEscapes], rfl⟩

/-- An escape is one of a character, whose octets it gives. -/
theorem readEscape_spells {s : Bytes} {r : Read s.length Bytes} (h : readEscape s = .ok r) :
    ∃ c, r.value = String.utf8EncodeChar c ∧
      Begins (fun t => SpellsChar c (Ascii.backslash :: t)) s r.rest := by
  unfold readEscape at h
  split at h
  next => cases h
  next b rest =>
    split at h
    next octet hoctet =>
      cases h
      obtain ⟨c, hshort, hc⟩ := exists_short hoctet
      exact ⟨c, hc, [b], .short hshort, rfl⟩
    next =>
      split_ifs at h with hb
      split at h
      next => cases h
      next point hpoint =>
        cases h
        obtain ⟨c, hc, hbegins⟩ := readCodePoint_spells hpoint
        subst hb
        exact ⟨c, hc, hbegins.cons⟩

/-! ## Strings -/

/-- Octets, and what stands for them between quotes: an octet stands for itself, an escape for those of a
character. -/
inductive Parts : Bytes → Bytes → Prop
  | nil : Parts [] []
  | octet {b : UInt8} {octets body : Bytes} (hquote : b ≠ Ascii.quote) (hbackslash : b ≠ Ascii.backslash)
      (hprinted : ¬ b < 0x20) (hmore : Parts octets body) : Parts (b :: octets) (b :: body)
  | escape {c : Char} {octets s body : Bytes} (h : SpellsChar c (Ascii.backslash :: s))
      (hmore : Parts octets body) : Parts (String.utf8EncodeChar c ++ octets) (Ascii.backslash :: (s ++ body))

/-- The next part of a string is its end, or one more part. -/
theorem readPart_spells {s : Bytes} {r : Read s.length (Option Bytes)} (h : readPart s = .ok r) :
    r.value = none ∧ s = Ascii.quote :: r.rest ∨
      ∃ part, r.value = some part ∧
        Begins (fun t => ∀ octets body, Parts octets body → Parts (part ++ octets) (t ++ body)) s r.rest := by
  unfold readPart at h
  split at h
  next => cases h
  next b rest =>
    split_ifs at h with hquote hbackslash hprinted
    · cases h
      exact .inl ⟨rfl, by rw [hquote]⟩
    · split at h
      next => cases h
      next part hpart =>
        cases h
        subst hbackslash
        obtain ⟨c, hc, hbegins⟩ := readEscape_spells hpart
        refine .inr ⟨_, rfl, (hbegins.imp fun t ht octets body hmore => ?_).cons⟩
        rw [hc]
        exact .escape ht hmore
    · cases h
      exact .inr ⟨_, rfl, [b], fun octets body hmore => .octet hquote hbackslash hprinted hmore, rfl⟩

theorem readOctets_spells {limit : Nat} {seen s : Bytes} {hlimit : s.length ≤ limit} {r : Read limit Bytes}
    (h : readOctets seen s hlimit = .ok r) :
    ∃ octets, r.value = seen.reverse ++ octets ∧
      Begins (fun t => ∃ body, Parts octets body ∧ t = body ++ [Ascii.quote]) s r.rest := by
  induction seen, s, hlimit using readOctets.induct with
  | case1 seen s hlimit stop hstop =>
    rw [readOctets, hstop] at h
    cases h
  | case2 seen s hlimit rest shorter hpart =>
    rw [readOctets, hpart] at h
    cases h
    obtain ⟨-, hs⟩ | ⟨_, hnone, -⟩ := readPart_spells hpart
    · exact ⟨[], by simp, [Ascii.quote], ⟨[], .nil, rfl⟩, hs⟩
    · cases hnone
  | case3 seen s hlimit part rest shorter hpart ih =>
    rw [readOctets, hpart] at h
    obtain ⟨octets, hvalue, hmore⟩ := ih h
    obtain ⟨hnone, -⟩ | ⟨_, hsome, hbegins⟩ := readPart_spells hpart
    · cases hnone
    · cases hsome
      refine ⟨part ++ octets, by simp [hvalue], hbegins.append hmore ?_⟩
      rintro t _ ht ⟨body, hbody, rfl⟩
      exact ⟨t ++ body, ht octets body hbody, (List.append_assoc ..).symm⟩

/-! ## Characters -/

/-- The first octet of a character starts one, and no other octet of it does. -/
theorem exists_first (c : Char) :
    ∃ b more, String.utf8EncodeChar c = b :: more ∧ (b.toNat < 0x80 ∨ 0xC0 ≤ b.toNat) ∧
      ∀ b' ∈ more, 0x80 ≤ b'.toNat ∧ b'.toNat < 0xC0 := by
  by_cases hascii : c.toNat < 0x80
  · refine ⟨UInt8.ofNat c.toNat, [], by rw [Utf8.utf8EncodeChar_eq, if_pos hascii], .inl ?_, by simp⟩
    rw [UInt8.toNat_ofNat']
    omega
  · obtain ⟨due, b, hleads, hc⟩ := Utf8.exists_leads (Nat.le_of_not_lt hascii)
    have hb := Utf8.due_of_leads hleads
    exact ⟨b, _, hc, .inr (by omega), fun b' hb' => ⟨Utf8.le_of_mem_tail hb', Utf8.lt_of_mem_tail hb'⟩⟩

/-- Octets that start no character stand for themselves. -/
theorem Parts.exists_more {more octets body : Bytes} (hmore : ∀ b ∈ more, 0x80 ≤ b.toNat ∧ b.toNat < 0xC0)
    (h : Parts (more ++ octets) body) : ∃ body', body = more ++ body' ∧ Parts octets body' := by
  induction more generalizing body with
  | nil => exact ⟨body, rfl, h⟩
  | cons b more ih =>
    obtain ⟨hb, hmore⟩ := List.forall_mem_cons.mp hmore
    generalize hall : b :: more ++ octets = all at h
    cases h with
    | nil => cases hall
    | octet _ _ _ h =>
      cases hall
      obtain ⟨body', rfl, hbody⟩ := ih hmore h
      exact ⟨body', rfl, hbody⟩
    | @escape c _ _ _ _ _ =>
      -- an escape would start a character here
      obtain ⟨first, others, hc, hfirst, -⟩ := exists_first c
      rw [hc] at hall
      obtain ⟨rfl, -⟩ := List.cons_eq_cons.mp hall
      omega

theorem spellsChar_octets {c : Char} {b : UInt8} {more : Bytes} (hc : String.utf8EncodeChar c = b :: more)
    (hquote : b ≠ Ascii.quote) (hbackslash : b ≠ Ascii.backslash) (hprinted : ¬ b < 0x20) :
    SpellsChar c (String.utf8EncodeChar c) := by
  refine .plain ?_ ?_ ?_
  · by_contra hlt
    rw [Utf8.utf8EncodeChar_eq, if_pos (by omega)] at hc
    cases hc
    have hspace : (0x20 : UInt8).toNat = 0x20 := rfl
    rw [UInt8.lt_iff_toNat_lt, UInt8.toNat_ofNat', hspace] at hprinted
    omega
  · rintro rfl
    cases hc
    exact hquote rfl
  · rintro rfl
    cases hc
    exact hbackslash rfl

/-- What stands for the octets of characters spells the characters. An escape cannot give a part of one. -/
theorem Parts.spellsChars {cs : List Char} {body : Bytes} (h : Parts (cs.flatMap String.utf8EncodeChar) body) :
    SpellsChars cs body := by
  induction cs generalizing body with
  | nil =>
    generalize hall : [].flatMap String.utf8EncodeChar = all at h
    cases h with
    | nil => exact .nil
    | octet => cases hall
    | @escape c =>
      obtain ⟨b, more, hc, -⟩ := exists_first c
      rw [hc] at hall
      cases hall
  | cons c cs ih =>
    obtain ⟨b, more, hc, -, hmore⟩ := exists_first c
    generalize hall : (c :: cs).flatMap String.utf8EncodeChar = all at h
    rw [List.flatMap_cons] at hall
    cases h with
    | nil =>
      rw [hc] at hall
      cases hall
    | octet hquote hbackslash hprinted h =>
      -- the first octet stands for itself, so the others of the character do too
      rw [hc, List.cons_append] at hall
      cases hall
      obtain ⟨body', rfl, hbody⟩ := h.exists_more hmore
      rw [← List.cons_append, ← hc]
      exact .cons (spellsChar_octets hc hquote hbackslash hprinted) (ih hbody)
    | @escape c' octets s body hchar h =>
      -- of two characters at the front of the same octets the one is the other
      have hpieces := congrArg Utf8.pieces hall
      rw [Utf8.pieces_utf8EncodeChar_append, Utf8.pieces_utf8EncodeChar_append] at hpieces
      obtain ⟨hsame, -⟩ := List.cons_eq_cons.mp hpieces
      cases hsame
      rw [List.append_cancel_left_eq] at hall
      subst hall
      exact .cons hchar (ih h)

/-- A string is read from one of its spellings. -/
theorem readString_spells {s : Bytes} {r : Read s.length String} (h : readString s = .ok r) :
    Begins (fun t => SpellsString r.value (Ascii.quote :: t)) s r.rest := by
  unfold readString at h
  split at h
  next => cases h
  next octets hoctets =>
    split at h
    next text htext =>
      cases h
      obtain ⟨read, hvalue, hbegins⟩ := readOctets_spells hoctets
      rw [List.reverse_nil, List.nil_append] at hvalue
      have hencode : text.toList.flatMap String.utf8EncodeChar = octets.value :=
        Utf8.decode?_eq_some_iff.mp htext
      refine hbegins.imp ?_
      rintro _ ⟨body, hbody, rfl⟩
      rw [← hvalue, ← hencode] at hbody
      exact .quoted hbody.spellsChars
    next => cases h

/-! ## Numbers -/

theorem takeDigits_spells (s : Bytes) : Begins (SpellsDigits (takeDigits s).1) s (takeDigits s).2 := by
  induction s with
  | nil => exact ⟨[], rfl, rfl⟩
  | cons b s ih =>
    unfold takeDigits
    split
    next d hb => exact (ih.imp fun t ht => List.cons_eq_cons.mpr ⟨hb, ht⟩).cons
    next => exact ⟨[], rfl, rfl⟩

theorem eq_zero_of_digit {b : UInt8} (h : Ascii.digit? b = some 0) : b = Ascii.zero := by
  unfold Ascii.digit? at h
  split_ifs at h with hb
  have hzero : Ascii.zero.toNat = 0x30 := rfl
  rw [← UInt8.toNat_inj, hzero]
  simp only [UInt8.le_iff_toNat_le, UInt8.reduceToNat, Option.some.injEq] at hb h
  omega

theorem readWhole_spells {s : Bytes} {r : Read s.length (List Nat)} (h : readWhole s = .ok r) :
    Begins (SpellsWhole r.value) s r.rest := by
  unfold readWhole at h
  split at h
  next => cases h
  next b rest =>
    split at h
    next => cases h
    next hb =>
      split_ifs at h
      cases h
      exact ⟨[Ascii.zero], .zero, by rw [eq_zero_of_digit hb]; rfl⟩
    next d hpositive hb =>
      cases h
      refine ((takeDigits_spells rest).imp fun t ht => ?_).cons
      exact .digits (List.cons_eq_cons.mpr ⟨hb, ht⟩) (by rintro rfl; exact hpositive rfl)

theorem readFraction_spells {s : Bytes} {r : Read (s.length + 1) (Option (List Nat))}
    (h : readFraction s = .ok r) : Begins (SpellsFraction r.value) s r.rest := by
  unfold readFraction at h
  split at h
  next =>
    cases h
    exact ⟨[], .absent, rfl⟩
  next b rest =>
    split_ifs at h with hb hnone
    · cases h
      subst hb
      exact ((takeDigits_spells rest).imp fun t ht => .digits ht (by simpa using hnone)).cons
    · cases h
      exact ⟨[], .absent, rfl⟩

theorem takeSign_spells (s : Bytes) : Begins (SpellsSign (takeSign s).1) s (takeSign s).2 := by
  unfold takeSign
  split
  next => exact ⟨[], .absent, rfl⟩
  next b rest =>
    split_ifs with hplus hminus
    · exact ⟨[b], hplus ▸ .plus, rfl⟩
    · exact ⟨[b], hminus ▸ .minus, rfl⟩
    · exact ⟨[], .absent, rfl⟩

theorem readExponent_spells {s : Bytes} {r : Read (s.length + 1) (Option (Bool × List Nat))}
    (h : readExponent s = .ok r) : Begins (SpellsExponent r.value) s r.rest := by
  unfold readExponent at h
  split at h
  next =>
    cases h
    exact ⟨[], .absent, rfl⟩
  next b rest =>
    split_ifs at h with hmark
    · have hsign := takeSign_spells rest
      have hdigits := takeDigits_spells (takeSign rest).2
      split at h
      next => cases h
      next => cases h
      next d ds after htake =>
        cases h
        rw [htake] at hdigits
        exact (hsign.append hdigits fun sign t hs ht => .digits hmark hs ht (by simp)).cons
    · cases h
      exact ⟨[], .absent, rfl⟩

/-- A literal is read from its own text, and keeps the sign that it is given. -/
theorem readUnsigned_spells {negative : Bool} {s : Bytes} {r : Read s.length Literal}
    (h : readUnsigned negative s = .ok r) :
    r.value.negative = negative ∧ Begins (SpellsUnsigned r.value) s r.rest := by
  unfold readUnsigned at h
  split at h
  next => cases h
  next whole hwhole =>
    split at h
    next => cases h
    next fraction hfraction =>
      split at h
      next => cases h
      next exponent hexponent =>
        cases h
        have hmore := (readFraction_spells hfraction).both (readExponent_spells hexponent)
        refine ⟨rfl, (readWhole_spells hwhole).append hmore ?_⟩
        rintro s _ hs ⟨t, u, ht, hu, rfl⟩
        exact .parts hs ht hu

theorem readNumber_spells {negative : Bool} {s : Bytes} {r : Read s.length Value}
    (h : readNumber negative s = .ok r) :
    ∃ l : Literal, ∃ n, l.negative = negative ∧ l.number = .ok n ∧ r.value = .number n ∧
      Begins (SpellsUnsigned l) s r.rest := by
  unfold readNumber at h
  split at h
  next => cases h
  next literal hliteral =>
    split at h
    next n hn =>
      cases h
      obtain ⟨hnegative, hbegins⟩ := readUnsigned_spells hliteral
      exact ⟨literal.value, n, hnegative, hn, rfl, hbegins⟩
    next => cases h

/-! ## White space -/

/-- What is skipped is white space. -/
theorem skipBlank_blanks (s : Bytes) : Begins Blank s (skipBlank s) := by
  refine ⟨s.takeWhile isBlank, blank_iff.mpr fun b hb => ?_, (List.takeWhile_append_dropWhile ..).symm⟩
  exact (List.mem_takeWhile_imp hb)

theorem Blank.append {w w' : Bytes} (hw : Blank w) (hw' : Blank w') : Blank (w ++ w') :=
  List.forall_mem_append.mpr ⟨hw, hw'⟩

/-- White space up to a mark. -/
theorem skipBlank_mark {s rest : Bytes} {b : UInt8} (h : skipBlank s = b :: rest) :
    Begins (fun t => ∃ w, Blank w ∧ t = w ++ [b]) s rest := by
  obtain ⟨w, hw, hs⟩ := skipBlank_blanks s
  exact ⟨w ++ [b], ⟨w, hw, rfl⟩, by rw [List.append_assoc, List.singleton_append, ← h, ← hs]⟩

end EventScript.Json
