import EventScript.Proofs.JudgedRows
import EventScript.Proofs.NumberTimers
import EventScript.Proofs.Utf8RoundTrip

/-!
# The timer of a text

A text cell is a timer if it is UTF-8, white space stands at its ends at most, and what lies between is a numeral
of a signed word. A numeral may have one sign and any number of zeros in front.

* `int?_eq_some_iff`: the numerals that are read, and the integer of each.
* `timerOfCell_text_iff`: the texts that are timers.
* `timerOfCell_padded_numeral`: the same for rows, and for the numeral of each timer.
-/

namespace EventScript

open Table (Cell Row)

/-! ## Numerals -/

namespace Decimal

/-- The number that an ASCII digit stands for. -/
def digitOf (c : Char) : Nat :=
  c.toNat - 48

/-- One or more ASCII digits, and the number that they denote. -/
structure IsDigits (cs : List Char) (n : Nat) : Prop where
  ne_nil : cs ≠ []
  isDigit : ∀ c ∈ cs, c.isDigit = true
  value : value (cs.map digitOf) = n

/-- A numeral: digits with at most one sign before them. -/
inductive IsNumeral : List Char → Int → Prop
  | digits {cs : List Char} {n : Nat} (h : IsDigits cs n) : IsNumeral cs n
  | plus {cs : List Char} {n : Nat} (h : IsDigits cs n) : IsNumeral ('+' :: cs) n
  | minus {cs : List Char} {n : Nat} (h : IsDigits cs n) : IsNumeral ('-' :: cs) (-n)

theorem isDigit_iff {c : Char} : c.isDigit = true ↔ '0' ≤ c ∧ c ≤ '9' := by
  simp [Char.isDigit, Char.le_def]

theorem digit?_eq_some_iff {c : Char} {d : Nat} : digit? c = some d ↔ c.isDigit = true ∧ digitOf c = d := by
  rw [digit?, isDigit_iff]
  split
  next h => simp only [Option.some.injEq, h, true_and, and_self, digitOf]
  next h => simp only [reduceCtorEq, h, false_and]

theorem digitsOf?_eq_some_iff {cs : List Char} {ds : List Nat} :
    digitsOf? cs = some ds ↔ (∀ c ∈ cs, c.isDigit = true) ∧ cs.map digitOf = ds := by
  unfold digitsOf?
  induction cs generalizing ds with
  | nil => exact ⟨fun h => ⟨by simp, Option.some.inj h⟩, fun h => congrArg some h.2⟩
  | cons c cs ih =>
    simp only [List.mapM_cons, Option.bind_eq_bind, Option.bind_eq_some_iff, digit?_eq_some_iff, ih,
      List.forall_mem_cons, List.map_cons]
    constructor
    · rintro ⟨_, ⟨hc, rfl⟩, _, ⟨hcs, rfl⟩, hds⟩
      exact ⟨⟨hc, hcs⟩, Option.some.inj hds⟩
    · rintro ⟨⟨hc, hcs⟩, rfl⟩
      exact ⟨_, ⟨hc, rfl⟩, _, ⟨hcs, rfl⟩, rfl⟩

theorem nat?_eq_some_iff {cs : List Char} {n : Nat} : nat? cs = some n ↔ IsDigits cs n := by
  rw [nat?]
  split
  next h =>
    constructor
    · intro hnone
      cases hnone
    · intro hdigits
      exact absurd (List.isEmpty_iff.mp h) hdigits.ne_nil
  next h =>
    simp only [Option.map_eq_some_iff, digitsOf?_eq_some_iff]
    constructor
    · rintro ⟨_, ⟨hdigits, rfl⟩, hvalue⟩
      exact ⟨by simpa using h, hdigits, hvalue⟩
    · intro hdigits
      exact ⟨_, ⟨hdigits.isDigit, rfl⟩, hdigits.value⟩

theorem IsDigits.head {c : Char} {cs : List Char} {n : Nat} (h : IsDigits (c :: cs) n) :
    c ≠ '+' ∧ c ≠ '-' := by
  have hc := h.isDigit c List.mem_cons_self
  constructor <;> rintro rfl <;> cases hc

theorem map_nat?_eq_some_iff {f : Int → Int} {cs : List Char} {z : Int} :
    (do let n ← nat? cs; pure (n : Int)).map f = some z ↔ ∃ n : Nat, IsDigits cs n ∧ f n = z := by
  simp only [Option.map_eq_some_iff, Option.bind_eq_bind, Option.bind_eq_some_iff, nat?_eq_some_iff,
    Option.pure_def, Option.some.injEq]
  constructor
  · rintro ⟨_, ⟨n, hn, rfl⟩, hz⟩
    exact ⟨n, hn, hz⟩
  · rintro ⟨n, hn, hz⟩
    exact ⟨_, ⟨n, hn, rfl⟩, hz⟩

/-- What is read as an integer is its numerals, and no more. -/
theorem int?_eq_some_iff {cs : List Char} {z : Int} : int? cs = some z ↔ IsNumeral cs z := by
  constructor
  · intro h
    unfold int? at h
    split at h
    next cs =>
      obtain ⟨n, hn, rfl⟩ := map_nat?_eq_some_iff.mp h
      exact .plus hn
    next cs =>
      obtain ⟨n, hn, rfl⟩ := map_nat?_eq_some_iff.mp h
      exact .minus hn
    next =>
      obtain ⟨n, hn, rfl⟩ := map_nat?_eq_some_iff.mp h
      exact .digits hn
  · rintro (h | h | h)
    · have hsome := map_nat?_eq_some_iff (f := fun n => n) |>.mpr ⟨_, h, rfl⟩
      obtain ⟨c, cs, rfl⟩ := List.exists_cons_of_ne_nil h.ne_nil
      unfold int?
      split
      next heq => exact absurd (List.cons_eq_cons.mp heq).1 h.head.1
      next heq => exact absurd (List.cons_eq_cons.mp heq).1 h.head.2
      next => exact hsome
    · exact map_nat?_eq_some_iff.mpr ⟨_, h, rfl⟩
    · exact map_nat?_eq_some_iff.mpr ⟨_, h, rfl⟩

theorem isWhiteSpace_of_isDigit {c : Char} (h : c.isDigit = true) : Text.isWhiteSpace c = false := by
  have hrange : 48 ≤ c.toNat ∧ c.toNat ≤ 57 := isDigit_iff.mp h
  simp [Text.isWhiteSpace, Text.whiteSpaceRanges]
  omega

theorem IsNumeral.isWhiteSpace {cs : List Char} {z : Int} (h : IsNumeral cs z) :
    ∀ c ∈ cs, Text.isWhiteSpace c = false := by
  cases h with
  | digits h => exact fun c hc => isWhiteSpace_of_isDigit (h.isDigit c hc)
  | plus h => exact List.forall_mem_cons.mpr ⟨by decide, fun c hc => isWhiteSpace_of_isDigit (h.isDigit c hc)⟩
  | minus h => exact List.forall_mem_cons.mpr ⟨by decide, fun c hc => isWhiteSpace_of_isDigit (h.isDigit c hc)⟩

theorem IsNumeral.ne_nil {cs : List Char} {z : Int} (h : IsNumeral cs z) : cs ≠ [] := by
  cases h with
  | digits h => exact h.ne_nil
  | plus h => exact List.cons_ne_nil _ _
  | minus h => exact List.cons_ne_nil _ _

theorem isDigits_map_digitChar {ds : List Nat} (h : ∀ d ∈ ds, d < 10) (hne : ds ≠ []) :
    IsDigits (ds.map digitChar) (Decimal.value ds) := by
  rw [← nat?_eq_some_iff, nat?, digitsOf?_map_digitChar h]
  simp [hne]

/-- The numeral that a number is written as denotes it. -/
theorem isDigits_natChars (n : Nat) : IsDigits (natChars n) n :=
  nat?_eq_some_iff.mp (nat?_natChars n)

theorem isNumeral_intChars (z : Int) : IsNumeral (intChars z) z := by
  unfold intChars
  split
  next h =>
    have hz : -(z.natAbs : Int) = z := by omega
    have hnumeral := IsNumeral.minus (isDigits_natChars z.natAbs)
    rwa [hz] at hnumeral
  next h =>
    have hz : (z.natAbs : Int) = z := by omega
    have hnumeral := IsNumeral.digits (isDigits_natChars z.natAbs)
    rwa [hz] at hnumeral

end Decimal

/-! ## Cells -/

/-- A UTF-8 text that is a numeral with white space around it. -/
inductive PaddedNumeral : Bytes → Int → Prop
  | padded {before numeral after : List Char} {z : Int} (hbefore : Text.IsBlank before)
      (hnumeral : Decimal.IsNumeral numeral z) (hafter : Text.IsBlank after) :
      PaddedNumeral (Utf8.encode (String.ofList (before ++ numeral ++ after))) z

theorem int?_trim_iff {text : String} {z : Int} :
    Decimal.int? (Text.trim text.toList) = some z ↔ PaddedNumeral (Utf8.encode text) z := by
  rw [Decimal.int?_eq_some_iff]
  constructor
  · intro hnumeral
    obtain ⟨before, after, hbefore, hafter, htext⟩ := Text.exists_trim text.toList
    have hpadded := PaddedNumeral.padded hbefore hnumeral hafter
    rwa [← htext, String.ofList_toList] at hpadded
  · generalize hoctets : Utf8.encode text = octets
    rintro ⟨hbefore, hnumeral, hafter⟩
    have htext := (Utf8.decode?_eq_some_iff.mpr hoctets).symm.trans (Utf8.decode?_encode _)
    rw [Option.some.inj htext, String.toList_ofList,
      Text.trim_eq hbefore hafter hnumeral.isWhiteSpace hnumeral.ne_nil]
    exact hnumeral

theorem PaddedNumeral.unique {octets : Bytes} {z z' : Int} (h : PaddedNumeral octets z)
    (h' : PaddedNumeral octets z') : z = z' := by
  cases h with
  | padded hbefore hnumeral hafter =>
    have hz := int?_trim_iff.mpr (.padded hbefore hnumeral hafter)
    exact Option.some.inj (hz.symm.trans (int?_trim_iff.mpr h'))

/-- The texts that are timers. -/
theorem timerOfCell_text_iff {octets : Bytes} {timer : Int64} :
    timerOfCell (.text octets) = .ok timer ↔ PaddedNumeral octets timer.toInt := by
  rw [timerOfCell]
  cases hdecode : Utf8.decode? octets with
  | none =>
    constructor
    · intro h
      cases h
    · rintro ⟨⟩
      cases hdecode.symm.trans (Utf8.decode?_encode _)
  | some text =>
    obtain rfl := Utf8.decode?_eq_some_iff.mp hdecode
    rw [← int?_trim_iff]
    cases hint : Decimal.int? (Text.trim text.toList) with
    | none => simp [hint]
    | some z =>
      simp only [hint, Option.bind_some, Option.some.injEq]
      rw [eq_comm (a := z), ← timerOfInt?_eq_some_iff]
      cases timerOfInt? z <;> simp

theorem exists_timerOfCell_text_iff {octets : Bytes} :
    (∃ timer, timerOfCell (.text octets) = .ok timer) ↔
      ∃ z, PaddedNumeral octets z ∧ -2 ^ 63 ≤ z ∧ z ≤ 2 ^ 63 - 1 := by
  simp only [timerOfCell_text_iff]
  constructor
  · rintro ⟨timer, htimer⟩
    exact ⟨timer.toInt, htimer, timer.le_toInt, Int.le_sub_one_of_lt timer.toInt_lt⟩
  · rintro ⟨z, hz, hlow, hhigh⟩
    refine ⟨Int64.ofInt z, ?_⟩
    rwa [Int64.toInt_ofInt_of_le hlow (Int.lt_of_le_sub_one hhigh)]

/-- **Numerals are timers.** A text cell is a timer just when it is UTF-8 and, white space at its ends apart, a
numeral of an integer from `-2 ^ 63` to `2 ^ 63 - 1`, with at most one sign and as many digits as it may have; its
timer is that integer. A row of six cells that starts with any other text is refused for its timer. The numeral of
each timer is read back as it, whatever white space is around it. -/
theorem timerOfCell_padded_numeral :
    (∀ octets (timer : Int64), timerOfCell (.text octets) = .ok timer ↔ PaddedNumeral octets timer.toInt) ∧
    (∀ octets, (∃ timer, timerOfCell (.text octets) = .ok timer) ↔
      ∃ z, PaddedNumeral octets z ∧ -2 ^ 63 ≤ z ∧ z ≤ 2 ^ 63 - 1) ∧
    (∀ (row : Row) octets texts, row.cells = some (.text octets :: texts) → texts.length = 5 →
      ((∃ fault, row.event = .error fault ∧ fault.kind = .fieldType ∧ fault.field = some "timer") ↔
        ¬ ∃ z, PaddedNumeral octets z ∧ -2 ^ 63 ≤ z ∧ z ≤ 2 ^ 63 - 1) ∧
      ∀ e, row.event = .ok e → PaddedNumeral octets e.timer.toInt) ∧
    ∀ (timer : Int64) before after, Text.IsBlank before → Text.IsBlank after →
      timerOfCell (.text (Utf8.encode (String.ofList (before ++ Decimal.intChars timer.toInt ++ after)))) =
        .ok timer := by
  refine ⟨fun _ _ => timerOfCell_text_iff, fun _ => exists_timerOfCell_text_iff, ?_, ?_⟩
  · intro row octets texts hcells hlength
    constructor
    · rw [Table.Row.exists_timer_iff hcells hlength, ← exists_timerOfCell_text_iff, not_exists]
    · intro e he
      cases Table.Row.event_eq_ok_iff.mp he with
      | event hcells' hfirst htexts =>
        cases hcells.symm.trans hcells'
        exact timerOfCell_text_iff.mp hfirst
  · intro timer before after hbefore hafter
    rw [timerOfCell_text_iff]
    exact .padded hbefore (Decimal.isNumeral_intChars _) hafter

/-- A row whose first cell has two signs. -/
def twoSigns : Row :=
  ⟨1, some 1, some [.text (Utf8.encode "+-1"), .null, .null, .null, .null, .null]⟩

/-- Two signs are refused; the least timer is read back from between an em space and a line feed. -/
theorem timerOfCell_padded_numeral_twoSigns :
    (∃ fault, twoSigns.event = .error fault ∧ fault.kind = .fieldType ∧ fault.field = some "timer") ∧
      timerOfCell (.text (Utf8.encode "\u2003-9223372036854775808\n")) = .ok Int64.minValue := by
  obtain ⟨-, hiff, hrow, hpadded⟩ := timerOfCell_padded_numeral
  have hrefused : timerOfCell (.text (Utf8.encode "+-1")) = .error (.text ['+', '-', '1']) := by decide
  refine ⟨(hrow twoSigns _ _ rfl rfl).1.mpr ?_, ?_⟩
  · intro hnumeral
    obtain ⟨timer, htimer⟩ := (hiff _).mpr hnumeral
    cases hrefused.symm.trans htimer
  · have hnumeral : Decimal.intChars Int64.minValue.toInt = "-9223372036854775808".toList := by cbv
    have hleast := hpadded Int64.minValue ['\u2003'] ['\n'] (List.forall_mem_singleton.mpr rfl)
      (List.forall_mem_singleton.mpr rfl)
    rwa [hnumeral] at hleast

end EventScript
