import EventScript.Proofs.JsonWriting

/-!
# The compact text of a value is one line

Between the parts of a value nothing is written but commas and colons, and a line break inside a string is
written as its escape.

* `newline_notMem_escapeChar`: no character of a string is written with a line break.
* `Value.newline_notMem_chars`: no value is.
-/

namespace EventScript

/-! ## Numbers -/

theorem Decimal.newline_notMem_natChars (n : Nat) : '\n' ∉ natChars n := by
  have hdigit : ∀ d < 10, digitChar d ≠ '\n' := by decide
  intro h
  obtain ⟨d, hd, hc⟩ := List.mem_map.mp h
  exact hdigit d (digits_lt hd) hc

namespace Binary64

theorem newline_notMem_significant (digits : Nat) : '\n' ∉ significant digits := by
  intro h
  rw [significant, List.mem_reverse] at h
  exact Decimal.newline_notMem_natChars digits (List.mem_reverse.mp (List.dropWhile_sublist _ |>.mem h))

theorem newline_notMem_positional {ds : List Char} (h : '\n' ∉ ds) (lead : Int) : '\n' ∉ positional ds lead := by
  have htake (n : Nat) : '\n' ∉ ds.take n := fun hmem => h (List.mem_of_mem_take hmem)
  have hdrop (n : Nat) : '\n' ∉ ds.drop n := fun hmem => h (List.mem_of_mem_drop hmem)
  unfold positional
  split_ifs <;> simp [h, htake]
  split_ifs <;> simp [hdrop]

theorem newline_notMem_scientific {ds : List Char} (h : '\n' ∉ ds) (lead : Int) : '\n' ∉ scientific ds lead := by
  have hexponent := Decimal.newline_notMem_natChars lead.natAbs
  unfold scientific
  split <;> split_ifs <;> simp_all

theorem newline_notMem_chars (x : Binary64) : '\n' ∉ x.chars := by
  have hmagnitude (u : Nat) : '\n' ∉ magnitudeChars u := by
    unfold magnitudeChars
    dsimp only
    split_ifs
    · decide
    · exact newline_notMem_positional (newline_notMem_significant _) _
    · exact newline_notMem_scientific (newline_notMem_significant _) _
  unfold chars
  split_ifs
  · simp [hmagnitude]
  · exact hmagnitude _

end Binary64

namespace Json

/-! ## Values -/

/-- A line feed is a control character, so it is written as its escape. -/
theorem newline_notMem_escapeChar (c : Char) : '\n' ∉ escapeChar c := by
  have hdigit : ∀ d < 16, Nat.digitChar d ≠ '\n' := by decide
  unfold escapeChar
  cases h : shortEscape? c with
  | some letter =>
    have hletter : letter ≠ '\n' := by
      unfold shortEscape? at h
      split_ifs at h with hsame
      · cases h
        rcases hsame with rfl | rfl <;> decide
      all_goals
        cases h
        decide
    simp [hletter.symm]
  | none =>
    dsimp only
    split_ifs with hcontrol
    · have hhigh := hdigit (c.toNat / 16) (by omega)
      have hlow := hdigit (c.toNat % 16) (by omega)
      simp [hhigh.symm, hlow.symm]
    · rw [List.mem_singleton]
      rintro rfl
      exact hcontrol (by decide)

theorem newline_notMem_stringChars (s : String) : '\n' ∉ stringChars s := by
  simp [stringChars, newline_notMem_escapeChar]

theorem Number.newline_notMem_chars (n : Number) : '\n' ∉ n.chars := by
  cases n with
  | whole n =>
    have hnat := Decimal.newline_notMem_natChars n.value.natAbs
    simp only [chars, Decimal.intChars]
    split_ifs <;> simp [hnat]
  | float x => exact x.newline_notMem_chars

mutual

theorem Value.newline_notMem_chars (v : Value) : '\n' ∉ v.chars := by
  cases v with
  | null => decide
  | bool b => cases b <;> decide
  | number n => exact n.newline_notMem_chars
  | string s => exact newline_notMem_stringChars s
  | array items => simp [Value.chars, newline_notMem_itemsChars items]
  | object members => simp [Value.chars, newline_notMem_membersChars members]

theorem newline_notMem_itemsChars (items : List Value) : '\n' ∉ itemsChars items := by
  cases items with
  | nil => simp [itemsChars]
  | cons v rest =>
    have hv := v.newline_notMem_chars
    cases rest with
    | nil => exact hv
    | cons v' rest =>
      have hrest := newline_notMem_itemsChars (v' :: rest)
      simp only [itemsChars, List.mem_append, List.mem_cons, hv, hrest]
      decide

theorem newline_notMem_membersChars (members : List (String × Value)) : '\n' ∉ membersChars members := by
  cases members with
  | nil => simp [membersChars]
  | cons m rest =>
    obtain ⟨k, v⟩ := m
    have hk := newline_notMem_stringChars k
    have hv := v.newline_notMem_chars
    cases rest with
    | nil => simp [membersChars, hk, hv]
    | cons m' rest =>
      have hrest := newline_notMem_membersChars (m' :: rest)
      simp only [membersChars, List.mem_append, List.mem_cons, hk, hv, hrest]
      decide

end

end Json

end EventScript
