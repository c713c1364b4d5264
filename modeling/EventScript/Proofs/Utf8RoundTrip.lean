import EventScript.Text.Utf8
import Mathlib

/-!
# Text and its octets

* `decode?_eq_some_iff`: octets have a text if and only if they are how that text is written.
* `decode?_encode`, `lossy_encode`: a text is read back from its octets, strictly and with replacement.
* `flatMap_octets_pieces`: the pieces of an octet string are a division of it, whether it is text or not.
-/

namespace EventScript.Utf8

/-! ## The octets of a character -/

/-- The last `k` octets of a character with code point `v`, where each holds six bits. -/
def tail : (k v : Nat) → Bytes
  | 0, _ => []
  | k + 1, v => UInt8.ofNat (v / 64 ^ k % 64 + 0x80) :: tail k v

theorem utf8EncodeChar_eq (c : Char) :
    String.utf8EncodeChar c =
      if c.toNat < 0x80 then [UInt8.ofNat c.toNat]
      else if c.toNat < 0x800 then UInt8.ofNat (c.toNat / 64 ^ 1 + 0xC0) :: tail 1 c.toNat
      else if c.toNat < 0x10000 then UInt8.ofNat (c.toNat / 64 ^ 2 + 0xE0) :: tail 2 c.toNat
      else UInt8.ofNat (c.toNat / 64 ^ 3 + 0xF0) :: tail 3 c.toNat := by
  have hlt : c.toNat < 0x110000 := by
    have h : c.toNat < 0xD800 ∨ 0xDFFF < c.toNat ∧ c.toNat < 0x110000 := c.valid
    omega
  have hval : c.val.toNat = c.toNat := rfl
  have h2 (h : c.toNat < 0x800) : c.toNat / 64 % 32 = c.toNat / 64 := by omega
  have h3 (h : c.toNat < 0x10000) : c.toNat / 4096 % 16 = c.toNat / 4096 := by omega
  have h4 : c.toNat / 262144 % 8 = c.toNat / 262144 := by omega
  simp only [String.utf8EncodeChar, hval, tail, Nat.lt_succ_iff (n := 127), Nat.lt_succ_iff (n := 2047),
    Nat.lt_succ_iff (n := 65535)]
  split_ifs with h h' h''
  · rfl
  · rw [h2 (by omega)]
    simp
  · rw [h3 (by omega)]
    simp
  · rw [h4]
    simp

theorem toNat_tailOctet (v k : Nat) :
    (UInt8.ofNat (v / 64 ^ k % 64 + 0x80)).toNat = v / 64 ^ k % 64 + 0x80 := by
  have : v / 64 ^ k % 64 < 64 := Nat.mod_lt _ (by decide)
  rw [UInt8.toNat_ofNat']
  omega

theorem le_of_mem_tail {k v : Nat} {b : UInt8} (h : b ∈ tail k v) : 0x80 ≤ b.toNat := by
  induction k with
  | zero => cases h
  | succ k ih =>
    rcases List.mem_cons.mp h with rfl | h
    · rw [toNat_tailOctet]
      exact Nat.le_add_left _ _
    · exact ih h

theorem lt_of_mem_tail {k v : Nat} {b : UInt8} (h : b ∈ tail k v) : b.toNat < 0xC0 := by
  induction k with
  | zero => cases h
  | succ k ih =>
    rcases List.mem_cons.mp h with rfl | h
    · rw [toNat_tailOctet]
      omega
    · exact ih h

/-- `b` is the first octet of the character with code point `v`, which is not ASCII, and `due` more are due
after the second. -/
def Leads : (due b v : Nat) → Prop
  | 0, b, v => b = v / 64 ^ 1 + 0xC0 ∧ 0x80 ≤ v ∧ v < 0x800
  | 1, b, v => b = v / 64 ^ 2 + 0xE0 ∧ 0x800 ≤ v ∧ v < 0x10000 ∧ (v < 0xD800 ∨ 0xDFFF < v)
  | 2, b, v => b = v / 64 ^ 3 + 0xF0 ∧ 0x10000 ≤ v ∧ v < 0x110000
  | _ + 3, _, _ => False

/-- The first octet tells how many there are. -/
theorem due_of_leads {due b v : Nat} (h : Leads due b v) :
    due = 0 ∧ 0xC2 ≤ b ∧ b < 0xE0 ∨ due = 1 ∧ 0xE0 ≤ b ∧ b < 0xF0 ∨ due = 2 ∧ 0xF0 ≤ b ∧ b ≤ 0xF4 := by
  match due with
  | 0 | 1 | 2 =>
    unfold Leads at h
    omega
  | _ + 3 => exact h.elim

/-- A character that is not ASCII is written as its first octet and those that hold six bits each. -/
theorem exists_leads {c : Char} (h : 0x80 ≤ c.toNat) :
    ∃ due b, Leads due b.toNat c.toNat ∧ String.utf8EncodeChar c = b :: tail (due + 1) c.toNat := by
  have hvalid : c.toNat < 0xD800 ∨ 0xDFFF < c.toNat ∧ c.toNat < 0x110000 := c.valid
  have hlead {n : Nat} (hn : n < 0x100) : (UInt8.ofNat n).toNat = n := by
    rw [UInt8.toNat_ofNat', Nat.mod_eq_of_lt hn]
  rw [utf8EncodeChar_eq, if_neg (by omega)]
  split_ifs with h₂ h₃
  · refine ⟨0, _, ?_, rfl⟩
    rw [hlead (by omega)]
    exact ⟨rfl, h, h₂⟩
  · refine ⟨1, _, ?_, rfl⟩
    rw [hlead (by omega)]
    exact ⟨rfl, by omega, h₃, by omega⟩
  · refine ⟨2, _, ?_, rfl⟩
    rw [hlead (by omega)]
    exact ⟨rfl, by omega, by omega⟩

/-- There is a character that starts so, and this is how it is written. -/
theorem utf8EncodeChar_of_leads {due v : Nat} {b : UInt8} (h : Leads due b.toNat v) :
    v.isValidChar ∧ ∀ c : Char, c.toNat = v → String.utf8EncodeChar c = b :: tail (due + 1) v := by
  match due with
  | 0 =>
    obtain ⟨hb, hlow, hhigh⟩ := h
    refine ⟨.inl (by omega), ?_⟩
    rintro c rfl
    rw [utf8EncodeChar_eq, if_neg (by omega), if_pos hhigh, ← hb, UInt8.ofNat_toNat]
  | 1 =>
    obtain ⟨hb, hlow, hhigh, hsurrogate⟩ := h
    have hvalid : v < 0xD800 ∨ 0xDFFF < v ∧ v < 0x110000 := by omega
    refine ⟨hvalid, ?_⟩
    rintro c rfl
    rw [utf8EncodeChar_eq, if_neg (by omega), if_neg (by omega), if_pos hhigh, ← hb, UInt8.ofNat_toNat]
  | 2 =>
    obtain ⟨hb, hlow, hhigh⟩ := h
    refine ⟨.inr (by omega), ?_⟩
    rintro c rfl
    rw [utf8EncodeChar_eq, if_neg (by omega), if_neg (by omega), if_neg (by omega), ← hb,
      UInt8.ofNat_toNat]
  | _ + 3 => exact h.elim

theorem toNat_ofNat_ascii {b : UInt8} (h : b.toNat < 0x80) : (Char.ofNat b.toNat).toNat = b.toNat := by
  rw [Char.toNat_ofNat, if_pos (.inl (by omega))]

theorem utf8EncodeChar_ascii {b : UInt8} (h : b.toNat < 0x80) :
    String.utf8EncodeChar (Char.ofNat b.toNat) = [b] := by
  rw [utf8EncodeChar_eq, toNat_ofNat_ascii h, if_pos h, UInt8.ofNat_toNat]

/-- An ASCII character is its own octet; the octets of any other lie above ASCII. -/
theorem toNat_of_mem_utf8EncodeChar {c : Char} {b : UInt8} (h : b ∈ String.utf8EncodeChar c) :
    b.toNat = c.toNat ∨ 0x80 ≤ b.toNat := by
  by_cases hascii : c.toNat < 0x80
  · left
    rw [utf8EncodeChar_eq, if_pos hascii] at h
    rw [List.mem_singleton.mp h, UInt8.toNat_ofNat']
    omega
  · right
    obtain ⟨due, first, hleads, heq⟩ := exists_leads (Nat.le_of_not_lt hascii)
    rw [heq] at h
    rcases List.mem_cons.mp h with rfl | h
    · have := due_of_leads hleads
      omega
    · exact le_of_mem_tail h

/-! ## First octets -/

/-- The code points that a character may have that has begun so. -/
def Begun.Fits (p : Begun) (v : Nat) : Prop :=
  v / 64 ^ (p.due + 1) = p.bits ∧ p.low.toNat ≤ v / 64 ^ p.due % 64 + 0x80 ∧
    v / 64 ^ p.due % 64 + 0x80 ≤ p.high.toNat

theorem div_pow_eq (v k : Nat) : v / 64 ^ (k + 1) * 64 + v / 64 ^ k % 64 = v / 64 ^ k := by
  rw [Nat.pow_succ, ← Nat.div_div_eq_div_mul]
  omega

/-- The octets that are due complete the character. -/
theorem piecesFrom_tail {p : Begun} {v : Nat} (h : p.Fits v) (rest : Bytes) :
    piecesFrom (.inside p) (tail (p.due + 1) v ++ rest) = .char (Char.ofNat v) :: pieces rest := by
  obtain ⟨octets, bits, low, high, due⟩ := p
  induction due generalizing octets bits low high with
  | zero =>
    obtain ⟨hbits, hlow, hhigh⟩ := h
    have hv : v / 64 ^ 1 * 64 + v % 64 = v := by omega
    have hoctet := toNat_tailOctet v 0
    simp only [Nat.pow_zero, Nat.div_one, Nat.zero_add] at hbits hlow hhigh hoctet
    simp only [tail, piecesFrom, List.cons_append, List.nil_append, step, UInt8.le_iff_toNat_le,
      Nat.pow_zero, Nat.div_one, hoctet, hlow, hhigh, and_self, if_true, Nat.add_sub_cancel, ← hbits, hv]
    rfl
  | succ due ih =>
    obtain ⟨hbits, hlow, hhigh⟩ := h
    have hv := div_pow_eq v (due + 1)
    have hoctet := toNat_tailOctet v (due + 1)
    have hmod : v / 64 ^ due % 64 < 64 := Nat.mod_lt _ (by decide)
    dsimp only at hbits hlow hhigh
    rw [tail, List.cons_append, piecesFrom, step]
    simp only [UInt8.le_iff_toNat_le, hoctet, hlow, hhigh, and_self, if_true, Nat.add_sub_cancel,
      ← hbits, hv]
    refine ih _ _ _ _ ⟨rfl, ?_, ?_⟩
    · simp
    · simp
      omega

/-- An octet that is the first of just the characters that its bounds on the next leave. -/
structure Begun.Opened (p : Begun) (b : UInt8) : Prop where
  octets : p.octets = [b]
  low : 0x80 ≤ p.low.toNat
  high : p.high.toNat ≤ 0xBF
  due : ∀ due v, Leads due b.toNat v → due = p.due
  leads : ∀ v, Leads p.due b.toNat v ↔ p.Fits v

theorem start_eq (b : UInt8) :
    start b =
      if b.toNat < 0x80 then ([.char (Char.ofNat b.toNat)], .between)
      else if b.toNat < 0xC2 then ([.invalid [b]], .between)
      else if b.toNat < 0xE0 then ([], .inside ⟨[b], b.toNat - 0xC0, 0x80, 0xBF, 0⟩)
      else if b.toNat = 0xE0 then ([], .inside ⟨[b], 0, 0xA0, 0xBF, 1⟩)
      else if b.toNat = 0xED then ([], .inside ⟨[b], 0xD, 0x80, 0x9F, 1⟩)
      else if b.toNat < 0xF0 then ([], .inside ⟨[b], b.toNat - 0xE0, 0x80, 0xBF, 1⟩)
      else if b.toNat = 0xF0 then ([], .inside ⟨[b], 0, 0x90, 0xBF, 2⟩)
      else if b.toNat < 0xF4 then ([], .inside ⟨[b], b.toNat - 0xF0, 0x80, 0xBF, 2⟩)
      else if b.toNat = 0xF4 then ([], .inside ⟨[b], 4, 0x80, 0x8F, 2⟩)
      else ([.invalid [b]], .between) := by
  have hsub (k : UInt8) (n : Nat) (hk : k.toNat = n) (h : n ≤ b.toNat) : (b - k).toNat = b.toNat - n := by
    rw [UInt8.toNat_sub_of_le _ _ (UInt8.le_iff_toNat_le.mpr (hk ▸ h)), hk]
  simp only [start, UInt8.lt_iff_toNat_lt, ← UInt8.toNat_inj, UInt8.reduceToNat]
  refine ite_congr rfl (fun _ => rfl) fun _ => ite_congr rfl (fun _ => rfl) fun _ =>
    ite_congr rfl (fun _ => ?_) fun _ => ite_congr rfl (fun _ => rfl) fun _ =>
    ite_congr rfl (fun _ => rfl) fun _ => ite_congr rfl (fun _ => ?_) fun _ =>
    ite_congr rfl (fun _ => rfl) fun _ => ite_congr rfl (fun _ => ?_) fun _ => rfl
  · rw [hsub 0xC0 0xC0 rfl (by omega)]
  · rw [hsub 0xE0 0xE0 rfl (by omega)]
  · rw [hsub 0xF0 0xF0 rfl (by omega)]

theorem opened_two {b : UInt8} {bits : Nat} (hbits : bits + 0xC0 = b.toNat) (hmin : 2 ≤ bits)
    (hmax : bits < 0x20) : (Begun.mk [b] bits 0x80 0xBF 0).Opened b := by
  refine ⟨rfl, Nat.le_refl 0x80, Nat.le_refl 0xBF, ?_, ?_⟩
  · intro due v h
    have := due_of_leads h
    dsimp only
    omega
  · intro v
    simp only [Leads, Begun.Fits, UInt8.reduceToNat]
    omega

/-- The bounds on the octet after the first keep out what is too short for three octets, and surrogates. -/
theorem opened_three {b : UInt8} {bits : Nat} {low high : UInt8} (hbits : bits + 0xE0 = b.toNat)
    (hmax : bits < 0x10) (hlow : bits = 0 ∧ low = 0xA0 ∨ bits ≠ 0 ∧ low = 0x80)
    (hhigh : bits = 0xD ∧ high = 0x9F ∨ bits ≠ 0xD ∧ high = 0xBF) :
    (Begun.mk [b] bits low high 1).Opened b := by
  simp only [← UInt8.toNat_inj, UInt8.reduceToNat] at hlow hhigh
  refine ⟨rfl, by dsimp only; omega, by dsimp only; omega, ?_, ?_⟩
  · intro due v h
    have := due_of_leads h
    dsimp only
    omega
  · intro v
    simp only [Leads, Begun.Fits]
    omega

/-- The bounds on the octet after the first keep out what is too short for four octets, and too large. -/
theorem opened_four {b : UInt8} {bits : Nat} {low high : UInt8} (hbits : bits + 0xF0 = b.toNat)
    (hmax : bits ≤ 4) (hlow : bits = 0 ∧ low = 0x90 ∨ bits ≠ 0 ∧ low = 0x80)
    (hhigh : bits = 4 ∧ high = 0x8F ∨ bits ≠ 4 ∧ high = 0xBF) :
    (Begun.mk [b] bits low high 2).Opened b := by
  simp only [← UInt8.toNat_inj, UInt8.reduceToNat] at hlow hhigh
  refine ⟨rfl, by dsimp only; omega, by dsimp only; omega, ?_, ?_⟩
  · intro due v h
    have := due_of_leads h
    dsimp only
    omega
  · intro v
    simp only [Leads, Begun.Fits]
    omega

/-- An octet is a character by itself, the first of none, or the first of some. -/
theorem start_cases (b : UInt8) :
    (b.toNat < 0x80 ∧ start b = ([.char (Char.ofNat b.toNat)], .between)) ∨
      ((∀ due v, ¬ Leads due b.toNat v) ∧ start b = ([.invalid [b]], .between)) ∨
      ∃ p : Begun, p.Opened b ∧ start b = ([], .inside p) := by
  have hb : b.toNat < 0x100 := b.toNat_lt
  have hnone (h : b.toNat < 0xC2 ∨ 0xF4 < b.toNat) (due v : Nat) : ¬ Leads due b.toNat v := by
    intro hleads
    have := due_of_leads hleads
    omega
  have heq := start_eq b
  by_cases h₁ : b.toNat < 0x80
  · rw [if_pos h₁] at heq
    exact .inl ⟨h₁, heq⟩
  rw [if_neg h₁] at heq
  by_cases h₂ : b.toNat < 0xC2
  · rw [if_pos h₂] at heq
    exact .inr (.inl ⟨hnone (.inl h₂), heq⟩)
  rw [if_neg h₂] at heq
  by_cases h₃ : b.toNat < 0xE0
  · rw [if_pos h₃] at heq
    exact .inr (.inr ⟨_, opened_two (by omega) (by omega) (by omega), heq⟩)
  rw [if_neg h₃] at heq
  by_cases h₄ : b.toNat = 0xE0
  · rw [if_pos h₄] at heq
    exact .inr (.inr ⟨_, opened_three (by omega) (by omega) (by decide) (by decide), heq⟩)
  rw [if_neg h₄] at heq
  by_cases h₅ : b.toNat = 0xED
  · rw [if_pos h₅] at heq
    exact .inr (.inr ⟨_, opened_three (by omega) (by omega) (by decide) (by decide), heq⟩)
  rw [if_neg h₅] at heq
  by_cases h₆ : b.toNat < 0xF0
  · rw [if_pos h₆] at heq
    exact .inr (.inr ⟨_, opened_three (by omega) (by omega) (.inr ⟨by omega, rfl⟩)
      (.inr ⟨by omega, rfl⟩), heq⟩)
  rw [if_neg h₆] at heq
  by_cases h₇ : b.toNat = 0xF0
  · rw [if_pos h₇] at heq
    exact .inr (.inr ⟨_, opened_four (by omega) (by omega) (by decide) (by decide), heq⟩)
  rw [if_neg h₇] at heq
  by_cases h₈ : b.toNat < 0xF4
  · rw [if_pos h₈] at heq
    exact .inr (.inr ⟨_, opened_four (by omega) (by omega) (.inr ⟨by omega, rfl⟩)
      (.inr ⟨by omega, rfl⟩), heq⟩)
  rw [if_neg h₈] at heq
  by_cases h₉ : b.toNat = 0xF4
  · rw [if_pos h₉] at heq
    exact .inr (.inr ⟨_, opened_four (by omega) (by omega) (by decide) (by decide), heq⟩)
  · rw [if_neg h₉] at heq
    exact .inr (.inl ⟨hnone (.inr (by omega)), heq⟩)

/-! ## Characters -/

theorem pieces_cons (b : UInt8) (rest : Bytes) :
    pieces (b :: rest) = (start b).1 ++ piecesFrom (start b).2 rest :=
  rfl

/-- A character is read back from its octets, whatever follows them. -/
theorem pieces_utf8EncodeChar_append (c : Char) (rest : Bytes) :
    pieces (String.utf8EncodeChar c ++ rest) = .char c :: pieces rest := by
  by_cases hascii : c.toNat < 0x80
  · have hb : (UInt8.ofNat c.toNat).toNat = c.toNat := by
      rw [UInt8.toNat_ofNat']
      omega
    rw [utf8EncodeChar_eq, if_pos hascii, List.singleton_append, pieces_cons, start_eq, hb, if_pos hascii,
      Char.ofNat_toNat]
    rfl
  · obtain ⟨due, b, hleads, heq⟩ := exists_leads (Nat.le_of_not_lt hascii)
    rw [heq, List.cons_append, pieces_cons]
    rcases start_cases b with ⟨h, -⟩ | ⟨hnot, -⟩ | ⟨p, hopened, hstart⟩
    · have := due_of_leads hleads
      omega
    · exact absurd hleads (hnot due _)
    · obtain rfl := hopened.due due _ hleads
      rw [hstart]
      exact (piecesFrom_tail ((hopened.leads _).mp hleads) rest).trans (by rw [Char.ofNat_toNat])

/-! ## Texts -/

theorem pieces_encode (text : String) : pieces (encode text) = text.toList.map Piece.char := by
  unfold encode
  induction text.toList with
  | nil => rfl
  | cons c cs ih => rw [List.flatMap_cons, pieces_utf8EncodeChar_append, ih, List.map_cons]

theorem mapM_char? (cs : List Char) : (cs.map Piece.char).mapM Piece.char? = some cs := by
  induction cs with
  | nil => rfl
  | cons c cs ih => simp [Piece.char?, ih]

/-- Text is read back from its octets. -/
@[simp]
theorem decode?_encode (text : String) : decode? (encode text) = some text := by
  rw [decode?, pieces_encode, mapM_char?, Option.map_some, String.ofList_toList]

@[simp]
theorem lossy_encode (text : String) : lossy (encode text) = text := by
  rw [lossy, lossyChars, pieces_encode, List.map_map]
  have hshown : Piece.shown ∘ Piece.char = id := rfl
  rw [hshown, List.map_id, String.ofList_toList]

/-! ## Pieces and their octets -/

/-- The octets of a piece. -/
def Piece.octets : Piece → Bytes
  | .char c => String.utf8EncodeChar c
  | .invalid octets => octets

/-- The octets of an open character. -/
def State.octets : State → Bytes
  | .between => []
  | .inside p => p.octets

/-- Every code point that an open character may still have is one of which its octets are the first. -/
structure Begun.Sound (p : Begun) : Prop where
  low : 0x80 ≤ p.low.toNat
  high : p.high.toNat ≤ 0xBF
  encodes : ∀ v, p.Fits v → v.isValidChar ∧
    ∀ c : Char, c.toNat = v → String.utf8EncodeChar c = p.octets ++ tail (p.due + 1) v

/-- A state with an open character that can be completed, or with none. -/
def State.Sound : State → Prop
  | .between => True
  | .inside p => p.Sound

theorem Begun.Opened.sound {p : Begun} {b : UInt8} (h : p.Opened b) : p.Sound := by
  refine ⟨h.low, h.high, ?_⟩
  intro v hfits
  obtain ⟨hvalid, hencode⟩ := utf8EncodeChar_of_leads ((h.leads v).mpr hfits)
  refine ⟨hvalid, ?_⟩
  intro c hc
  rw [hencode c hc, h.octets]
  rfl

theorem sound_start (b : UInt8) :
    (start b).2.Sound ∧ (start b).1.flatMap Piece.octets ++ (start b).2.octets = [b] := by
  rcases start_cases b with ⟨h, heq⟩ | ⟨-, heq⟩ | ⟨p, hopened, heq⟩
  · rw [heq]
    exact ⟨trivial, by simp [Piece.octets, State.octets, utf8EncodeChar_ascii h]⟩
  · rw [heq]
    exact ⟨trivial, rfl⟩
  · rw [heq]
    exact ⟨hopened.sound, hopened.octets⟩

/-- The octet that comes next settles the next six bits. -/
theorem Begun.Sound.fits {p : Begun} (hp : p.Sound) {b : UInt8} (hrange : p.low ≤ b ∧ b ≤ p.high)
    {v : Nat} (hv : v / 64 ^ p.due = p.bits * 64 + (b.toNat - 0x80)) :
    p.Fits v ∧ tail (p.due + 1) v = b :: tail p.due v := by
  have hlow := UInt8.le_iff_toNat_le.mp hrange.1
  have hhigh := UInt8.le_iff_toNat_le.mp hrange.2
  have hsound := hp.low
  have hsound' := hp.high
  have hsix : v / 64 ^ p.due % 64 + 0x80 = b.toNat := by omega
  have hbits : v / 64 ^ (p.due + 1) = p.bits := by
    rw [Nat.pow_succ, ← Nat.div_div_eq_div_mul]
    omega
  refine ⟨⟨hbits, by omega, by omega⟩, ?_⟩
  rw [tail, hsix, UInt8.ofNat_toNat]

/-- Nothing is lost of what is read, and what an open character may be stays known. -/
theorem sound_step {s : State} (hs : s.Sound) (b : UInt8) :
    (step s b).2.Sound ∧
      (step s b).1.flatMap Piece.octets ++ (step s b).2.octets = s.octets ++ [b] := by
  cases s with
  | between => exact sound_start b
  | inside p =>
    unfold step
    dsimp only
    split_ifs with hrange
    · split
      next hdue =>
        obtain ⟨hfits, htail⟩ := hs.fits hrange (v := p.bits * 64 + (b.toNat - 0x80)) (by simp [hdue])
        obtain ⟨hvalid, hencode⟩ := hs.encodes _ hfits
        have hchar := hencode _ (by rw [Char.toNat_ofNat, if_pos hvalid])
        rw [htail, hdue] at hchar
        refine ⟨trivial, ?_⟩
        simp only [List.flatMap_singleton, List.append_nil, Piece.octets, State.octets, hchar, tail]
      next due hdue =>
        refine ⟨⟨Nat.le_refl 0x80, Nat.le_refl 0xBF, ?_⟩, rfl⟩
        rintro v ⟨hbits, -, -⟩
        dsimp only at hbits
        obtain ⟨hfits, htail⟩ := hs.fits hrange (v := v) (by rw [hdue, hbits])
        obtain ⟨hvalid, hencode⟩ := hs.encodes v hfits
        refine ⟨hvalid, ?_⟩
        rintro c hc
        rw [hencode c hc, htail, hdue, List.append_assoc]
        rfl
    · refine ⟨(sound_start b).1, ?_⟩
      rw [List.flatMap_cons, List.append_assoc, (sound_start b).2]
      rfl

theorem flatMap_octets_piecesFrom {s : State} (hs : s.Sound) (bs : Bytes) :
    (piecesFrom s bs).flatMap Piece.octets = s.octets ++ bs := by
  induction bs generalizing s with
  | nil => cases s <;> simp [piecesFrom, finish, State.octets, Piece.octets]
  | cons b bs ih =>
    obtain ⟨hsound, hoctets⟩ := sound_step hs b
    rw [piecesFrom, List.flatMap_append, ih hsound, ← List.append_assoc, hoctets, List.append_assoc]
    rfl

/-- The pieces of an octet string are a division of it. -/
theorem flatMap_octets_pieces (bs : Bytes) : (pieces bs).flatMap Piece.octets = bs :=
  flatMap_octets_piecesFrom (s := .between) trivial bs

theorem eq_map_char_of_mapM {ps : List Piece} {cs : List Char} (h : ps.mapM Piece.char? = some cs) :
    ps = cs.map Piece.char := by
  induction ps generalizing cs with
  | nil =>
    cases h
    rfl
  | cons p ps ih =>
    simp only [List.mapM_cons, Option.bind_eq_bind, Option.bind_eq_some_iff] at h
    obtain ⟨c, hc, cs', hcs, h⟩ := h
    cases h
    cases p with
    | char c' =>
      cases hc
      rw [ih hcs, List.map_cons]
    | invalid octets => cases hc

/-- An octet string has a text if and only if it is how the text is written. -/
theorem encode_inj {text text' : String} (h : encode text = encode text') : text = text' := by
  have hdecode : decode? (encode text) = decode? (encode text') := congrArg decode? h
  rw [decode?_encode, decode?_encode] at hdecode
  exact Option.some.inj hdecode

theorem decode?_eq_some_iff {bs : Bytes} {text : String} : decode? bs = some text ↔ encode text = bs := by
  constructor
  · intro h
    obtain ⟨cs, hcs, rfl⟩ := Option.map_eq_some_iff.mp h
    have hpieces := flatMap_octets_pieces bs
    rw [eq_map_char_of_mapM hcs, List.flatMap_map] at hpieces
    rw [← hpieces, encode, String.toList_ofList]
    rfl
  · rintro rfl
    exact decode?_encode text

end EventScript.Utf8
