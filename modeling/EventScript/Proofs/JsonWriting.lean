import EventScript.Json.Writer
import EventScript.Proofs.JsonReading

/-!
# The compact text of a value is one of its texts

So a value that is written is read back, if writing keeps all of it (`Value.Kept`): a number that is no
integer is written as its shortest numeral, which need not be read as the same number.

* `spells_chars`: the compact text of a value spells it.
* `read_text`: reading the compact text of a value gives the value.
-/

namespace EventScript.Json

/-! ## Strings -/

theorem spellsHex_digitChar {n : Nat} (h : n < 0x20) :
    SpellsHex n ([0x30, 0x30] ++ String.utf8EncodeChar (Nat.digitChar (n / 16)) ++
      String.utf8EncodeChar (Nat.digitChar (n % 16))) := by
  have hdigit : ∀ d < 16, ∃ b, String.utf8EncodeChar (Nat.digitChar d) = [b] ∧
      Ascii.hexDigit? b = some d := by
    intro d hd
    interval_cases d <;> exact ⟨_, rfl, rfl⟩
  obtain ⟨a, ha, ha'⟩ := hdigit (n / 16) (by omega)
  obtain ⟨b, hb, hb'⟩ := hdigit (n % 16) (by omega)
  have hzero : Ascii.hexDigit? 0x30 = some 0 := rfl
  have hn : ((0 * 16 + 0) * 16 + n / 16) * 16 + n % 16 = n := by omega
  have hspells := SpellsHex.digits hzero hzero ha' hb'
  rw [hn] at hspells
  rwa [ha, hb]

theorem mem_shortEscapes {c letter : Char} (h : shortEscape? c = some letter) :
    ∃ b, String.utf8EncodeChar letter = [b] ∧ (b, c) ∈ shortEscapes := by
  unfold shortEscape? at h
  split_ifs at h with h₁ h₂ h₃ h₄ h₅ h₆
  · cases h
    rcases h₁ with rfl | rfl <;> exact ⟨_, rfl, by decide⟩
  all_goals
    subst c
    cases h
    exact ⟨_, rfl, by decide⟩

/-- A character is written in one of the ways that there are. -/
theorem spellsChar_escapeChar (c : Char) :
    SpellsChar c ((escapeChar c).flatMap String.utf8EncodeChar) := by
  have hbackslash : String.utf8EncodeChar '\\' = [Ascii.backslash] := rfl
  unfold escapeChar
  cases h : shortEscape? c with
  | some letter =>
    obtain ⟨b, hb, hmem⟩ := mem_shortEscapes h
    simp only [List.flatMap_cons, List.flatMap_nil, hbackslash, hb]
    exact .short hmem
  | none =>
    have hplain : c ≠ '\x22' ∧ c ≠ '\\' := by
      constructor <;> rintro rfl <;> cases h
    dsimp only
    split_ifs with hcontrol
    · simp only [List.flatMap_cons, List.flatMap_nil, hbackslash, List.append_nil]
      exact .unit (.escape (spellsHex_digitChar hcontrol))
    · rw [List.flatMap_singleton]
      exact .plain (Nat.le_of_not_lt hcontrol) hplain.1 hplain.2

theorem spellsChars_escape (cs : List Char) :
    SpellsChars cs ((cs.flatMap escapeChar).flatMap String.utf8EncodeChar) := by
  induction cs with
  | nil => exact .nil
  | cons c cs ih =>
    rw [List.flatMap_cons, List.flatMap_append]
    exact .cons (spellsChar_escapeChar c) ih

theorem spellsString_stringChars (s : String) :
    SpellsString s ((stringChars s).flatMap String.utf8EncodeChar) := by
  have hquote : String.utf8EncodeChar '\x22' = [Ascii.quote] := rfl
  simp only [stringChars, List.flatMap_append, List.flatMap_cons, List.flatMap_nil, hquote,
    List.append_nil, List.cons_append, List.nil_append]
  exact .quoted (spellsChars_escape s.toList)

/-! ## Numbers -/

theorem spellsDigits_digitChar {ds : List Nat} (h : ∀ d ∈ ds, d < 10) :
    SpellsDigits ds ((ds.map Decimal.digitChar).flatMap String.utf8EncodeChar) := by
  have hdigit : ∀ d < 10, ∃ b, String.utf8EncodeChar (Decimal.digitChar d) = [b] ∧
      Ascii.digit? b = some d := by
    intro d hd
    interval_cases d <;> exact ⟨_, rfl, rfl⟩
  unfold SpellsDigits
  induction ds with
  | nil => rfl
  | cons d ds ih =>
    obtain ⟨b, hb, hd⟩ := hdigit d (h d List.mem_cons_self)
    rw [List.map_cons, List.flatMap_cons, hb, List.singleton_append, List.map_cons, hd,
      ih fun x hx => h x (List.mem_cons_of_mem d hx)]
    rfl

/-- The numeral of a number other than zero does not start with a zero. -/
theorem digits_eq_cons {n : Nat} (h : 0 < n) : ∃ d ds, Decimal.digits n = d :: ds ∧ d ≠ 0 := by
  fun_induction Decimal.digits n with
  | case1 n hn => exact ⟨n, [], rfl, by omega⟩
  | case2 n hn ih =>
    obtain ⟨d, ds, heq, hd⟩ := ih (by omega)
    exact ⟨d, ds ++ [n % 10], by rw [heq, List.cons_append], hd⟩

theorem spellsWhole_natChars (n : Nat) :
    SpellsWhole (Decimal.digits n) ((Decimal.natChars n).flatMap String.utf8EncodeChar) := by
  rcases Nat.eq_zero_or_pos n with rfl | hpos
  · have hzero : Decimal.digits 0 = [0] := by simp [Decimal.digits]
    rw [Decimal.natChars, hzero]
    exact .zero
  · have hdigits := spellsDigits_digitChar fun d (hd : d ∈ Decimal.digits n) => Decimal.digits_lt hd
    obtain ⟨d, ds, heq, hd⟩ := digits_eq_cons hpos
    rw [Decimal.natChars]
    rw [heq] at hdigits ⊢
    exact .digits hdigits hd

/-- The literal that an integer is written as. -/
def wholeLiteral (z : Int) : Literal :=
  ⟨decide (z < 0), Decimal.digits z.natAbs, none, none⟩

theorem spellsLiteral_intChars (z : Int) :
    SpellsLiteral (wholeLiteral z) ((Decimal.intChars z).flatMap String.utf8EncodeChar) := by
  have hunsigned : SpellsUnsigned (wholeLiteral z)
      ((Decimal.natChars z.natAbs).flatMap String.utf8EncodeChar) := by
    simpa using SpellsUnsigned.parts (l := wholeLiteral z) (spellsWhole_natChars z.natAbs) .absent .absent
  unfold Decimal.intChars
  split_ifs with hneg
  · exact .minus (decide_eq_true hneg) hunsigned
  · exact .plus (decide_eq_false hneg) hunsigned

/-- Digits whose number is below the limit are all absorbed. -/
theorem absorb_eq {limit n : Nat} {ds : List Nat} (h : ds.foldl (fun n d => 10 * n + d) n < limit) :
    absorb limit n ds = (ds.foldl (fun n d => 10 * n + d) n, []) := by
  have hle (ds : List Nat) (n : Nat) : n ≤ ds.foldl (fun n d => 10 * n + d) n := by
    induction ds generalizing n with
    | nil => exact Nat.le_refl n
    | cons d ds ih => exact Nat.le_trans (by omega) (ih (10 * n + d))
  induction ds generalizing n with
  | nil => rfl
  | cons d ds ih =>
    rw [List.foldl_cons] at h
    rw [absorb, if_pos (Nat.lt_of_le_of_lt (hle ds _) h), ih h, List.foldl_cons]

/-- The literal of an integer that 64 bits hold denotes the integer. -/
theorem number_wholeLiteral (n : Whole) : (wholeLiteral n.value).number = .ok (.whole n) := by
  have hlower := n.lower
  have hupper := n.upper
  have habsorb : absorb Literal.wordLimit 0 (Decimal.digits n.value.natAbs) = (n.value.natAbs, []) := by
    have hvalue : (Decimal.digits n.value.natAbs).foldl (fun n d => 10 * n + d) 0 = n.value.natAbs :=
      Decimal.value_digits _
    rw [absorb_eq (by rw [hvalue, Literal.wordLimit]; omega), hvalue]
  have hofInt : Whole.ofInt? n.value = some n := by
    rw [Whole.ofInt?, dif_pos ⟨hlower, hupper⟩]
  have hwhole : (wholeLiteral n.value).whole? = some n := by
    simp only [wholeLiteral, Literal.whole?, habsorb, decide_eq_true_eq]
    split_ifs with hneg hzero
    · omega
    · rw [← hofInt]
      congr 1
      omega
    · rw [← hofInt]
      congr 1
      omega
  rw [Literal.number, hwhole]

/-! ## Values -/

/-- Putting members with keys of their own into an object adds them. -/
theorem putMembers_eq {members : List (String × Value)} (h : (members.map Prod.fst).Nodup) :
    Value.putMembers [] members = members := by
  have hput {m : String × Value} {done : List (String × Value)} (hm : m.1 ∉ done.map Prod.fst) :
      Value.putMember m.1 m.2 done = done ++ [m] := by
    induction done with
    | nil => rfl
    | cons m' done ih =>
      simp only [List.map_cons, List.mem_cons, not_or] at hm
      rw [Value.putMember, if_neg (Ne.symm hm.1), ih hm.2, List.cons_append]
  have hmore (done : List (String × Value)) (hdone : ((done ++ members).map Prod.fst).Nodup) :
      Value.putMembers done members = done ++ members := by
    induction members generalizing done with
    | nil => rw [List.append_nil]; rfl
    | cons m members ih =>
      have hm : m.1 ∉ done.map Prod.fst := by
        simp only [List.map_append, List.map_cons, List.nodup_append, List.mem_cons] at hdone
        exact fun hmem => hdone.2.2 m.1 hmem m.1 (.inl rfl) rfl
      have hsplit : done ++ m :: members = (done ++ [m]) ++ members := by simp
      rw [hsplit] at hdone ⊢
      rw [Value.putMembers, List.foldl_cons, hput hm]
      exact ih (List.Nodup.of_cons h) (done ++ [m]) hdone
  exact hmore [] h

/-- A number that its numeral keeps. -/
def Number.Kept : Number → Prop
  | .whole _ => True
  | .float _ => False

/-- A value of which its compact text keeps all: every number is an integer, no object has a key twice, and
arrays and objects nest at most `depth` deep. -/
def Value.Kept : (depth : Nat) → Value → Prop
  | _, .null | _, .bool _ | _, .string _ => True
  | _, .number n => n.Kept
  | 0, .array _ | 0, .object _ => False
  | depth + 1, .array items => ∀ v ∈ items, Kept depth v
  | depth + 1, .object members =>
    (members.map Prod.fst).Nodup ∧ ∀ m ∈ members, Kept depth m.2

/-- What writes things with commas between them writes a list of them. -/
theorem listed_of_write {α : Type} {spells : α → Bytes → Prop} {write : α → Bytes}
    (all : List α → Bytes) (hnil : all [] = []) (hone : ∀ a, all [a] = write a)
    (hmore : ∀ a b as, all (a :: b :: as) = write a ++ Ascii.comma :: all (b :: as)) {as : List α}
    (h : ∀ a ∈ as, spells a (write a)) : Listed spells as (all as) := by
  cases as with
  | nil =>
    rw [hnil]
    exact .empty blank_nil
  | cons a as =>
    apply Listed.items
    induction as generalizing a with
    | nil =>
      have hlast := Separated.last blank_nil (h a List.mem_cons_self) blank_nil
      rwa [List.nil_append, List.append_nil, ← hone] at hlast
    | cons b as ih =>
      have hrest := ih b fun x hx => h x (List.mem_cons_of_mem a hx)
      have hall := Separated.comma blank_nil (h a List.mem_cons_self) blank_nil hrest
      rwa [List.nil_append, List.nil_append, ← hmore] at hall

theorem listed_itemsChars {spells : Value → Bytes → Prop} {items : List Value}
    (h : ∀ v ∈ items, spells v (v.chars.flatMap String.utf8EncodeChar)) :
    Listed spells items ((itemsChars items).flatMap String.utf8EncodeChar) := by
  have hcomma : String.utf8EncodeChar ',' = [Ascii.comma] := rfl
  apply listed_of_write (fun items => (itemsChars items).flatMap String.utf8EncodeChar) rfl _ _ h
  · intro v
    rfl
  · intro v v' items
    simp only [itemsChars, List.flatMap_append, List.flatMap_cons, hcomma, List.singleton_append]

theorem listed_membersChars {spells : Value → Bytes → Prop} {members : List (String × Value)}
    (h : ∀ m ∈ members, spells m.2 (m.2.chars.flatMap String.utf8EncodeChar)) :
    Listed (SpellsMember spells) members ((membersChars members).flatMap String.utf8EncodeChar) := by
  have hcomma : String.utf8EncodeChar ',' = [Ascii.comma] := rfl
  have hcolon : String.utf8EncodeChar ':' = [Ascii.colon] := rfl
  have hmember (m : String × Value) (hm : spells m.2 (m.2.chars.flatMap String.utf8EncodeChar)) :
      SpellsMember spells m ((stringChars m.1).flatMap String.utf8EncodeChar ++
        Ascii.colon :: m.2.chars.flatMap String.utf8EncodeChar) := by
    have hpair := SpellsMember.pair (spellsString_stringChars m.1) blank_nil blank_nil hm
    rwa [List.nil_append, List.nil_append] at hpair
  apply listed_of_write (fun members => (membersChars members).flatMap String.utf8EncodeChar) rfl _ _
    fun m hm => hmember m (h m hm)
  · intro m
    simp only [membersChars, List.flatMap_append, List.flatMap_cons, hcolon, List.singleton_append]
  · intro m m' members
    simp only [membersChars, List.flatMap_append, List.flatMap_cons, hcomma, hcolon, List.append_assoc,
      List.cons_append, List.nil_append]

theorem spellsScalar_chars {v : Value} (h : v.Kept 0) :
    SpellsScalar v (v.chars.flatMap String.utf8EncodeChar) := by
  cases v with
  | null => exact .null
  | bool b =>
    cases b with
    | true => exact .true
    | false => exact .false
  | number n =>
    cases n with
    | whole n => exact .number (spellsLiteral_intChars n.value) (number_wholeLiteral n)
    | float x => exact h.elim
  | string s => exact .string (spellsString_stringChars s)
  | array items => exact h.elim
  | object members => exact h.elim

/-- The compact text of a value is one of its texts. -/
theorem spells_chars {depth : Nat} {v : Value} (h : v.Kept depth) :
    Spells depth v (v.chars.flatMap String.utf8EncodeChar) := by
  induction depth generalizing v with
  | zero => exact spellsScalar_chars h
  | succ depth ih =>
    cases v with
    | null => exact .inl (spellsScalar_chars h)
    | bool b => exact .inl (spellsScalar_chars h)
    | number n => exact .inl (spellsScalar_chars h)
    | string s => exact .inl (spellsScalar_chars h)
    | array items =>
      have hitems := SpellsNested.array (listed_itemsChars fun v hv => ih (h v hv))
      have hopen : String.utf8EncodeChar '[' = [Ascii.bracketOpen] := rfl
      have hclose : String.utf8EncodeChar ']' = [Ascii.bracketClose] := rfl
      simp only [Value.chars, List.flatMap_append, List.flatMap_cons, List.flatMap_nil, hopen, hclose]
      exact .inr hitems
    | object members =>
      have hmembers := SpellsNested.object (listed_membersChars fun m hm => ih (h.2 m hm))
      have hopen : String.utf8EncodeChar '\x7b' = [Ascii.braceOpen] := rfl
      have hclose : String.utf8EncodeChar '\x7d' = [Ascii.braceClose] := rfl
      rw [putMembers_eq h.1] at hmembers
      simp only [Value.chars, List.flatMap_append, List.flatMap_cons, List.flatMap_nil, hopen, hclose]
      exact .inr hmembers

/-- The compact text of a value holds it and nothing else. -/
theorem spellsText_text {v : Value} (h : v.Kept maxDepth) : SpellsText v (Utf8.encode v.text) := by
  have htext := SpellsText.text blank_nil (spells_chars h) blank_nil
  rw [List.nil_append, List.append_nil] at htext
  rwa [Utf8.encode, Value.text, String.toList_ofList]

/-- A value is read back from its compact text. -/
theorem read_text {v : Value} (h : v.Kept maxDepth) : read (Utf8.encode v.text) = .ok v :=
  read_spelled (spellsText_text h)

end EventScript.Json
