/-!
# White space

The characters with the Unicode property White_Space, text without them at its ends, and the words
between them.

* `exists_trim`, `trim_eq`: trimming takes white space off both ends of a text, and nothing else.
-/

namespace EventScript.Text

/-- The code points with the property White_Space, by first and last of each range. -/
def whiteSpaceRanges : List (Nat × Nat) :=
  [(0x09, 0x0D), (0x20, 0x20), (0x85, 0x85), (0xA0, 0xA0), (0x1680, 0x1680), (0x2000, 0x200A),
    (0x2028, 0x2029), (0x202F, 0x202F), (0x205F, 0x205F), (0x3000, 0x3000)]

/-- Whether a character is white space. -/
def isWhiteSpace (c : Char) : Bool :=
  whiteSpaceRanges.any fun r => r.1 ≤ c.toNat && c.toNat ≤ r.2

/-- The characters between the white space at both ends. -/
def trim (cs : List Char) : List Char :=
  ((cs.dropWhile isWhiteSpace).reverse.dropWhile isWhiteSpace).reverse

/-- The parts of a text between white space. -/
def words (cs : List Char) : List (List Char) :=
  (cs.splitOnP isWhiteSpace).filter fun word => !word.isEmpty

/-! ## What trimming takes off -/

/-- White space only. -/
def IsBlank (cs : List Char) : Prop :=
  ∀ c ∈ cs, isWhiteSpace c = true

theorem isBlank_reverse {cs : List Char} : IsBlank cs.reverse ↔ IsBlank cs := by
  simp only [IsBlank, List.mem_reverse]

/-- Trimming takes white space off both ends and nothing else. -/
theorem exists_trim (cs : List Char) :
    ∃ before after, IsBlank before ∧ IsBlank after ∧ cs = before ++ trim cs ++ after := by
  have htaken (cs : List Char) : IsBlank (cs.takeWhile isWhiteSpace) :=
    List.all_eq_true.mp List.all_takeWhile
  refine ⟨cs.takeWhile isWhiteSpace, ((cs.dropWhile isWhiteSpace).reverse.takeWhile isWhiteSpace).reverse,
    htaken cs, isBlank_reverse.mpr (htaken _), ?_⟩
  rw [trim, List.append_assoc, ← List.reverse_append, List.takeWhile_append_dropWhile, List.reverse_reverse,
    List.takeWhile_append_dropWhile]

theorem dropWhile_eq_self {cs : List Char} (h : ∀ c ∈ cs, isWhiteSpace c = false) :
    cs.dropWhile isWhiteSpace = cs := by
  cases cs with
  | nil => rfl
  | cons c cs => rw [List.dropWhile_cons_of_neg (by simp [h c List.mem_cons_self])]

/-- What has no white space is left when the white space around it is taken away. -/
theorem trim_eq {before cs after : List Char} (hbefore : IsBlank before) (hafter : IsBlank after)
    (h : ∀ c ∈ cs, isWhiteSpace c = false) (hne : cs ≠ []) : trim (before ++ cs ++ after) = cs := by
  have hfront : (before ++ cs ++ after).dropWhile isWhiteSpace = cs ++ after := by
    rw [List.append_assoc, List.dropWhile_append_of_pos hbefore, List.dropWhile_append, dropWhile_eq_self h,
      if_neg (by simpa using hne)]
  rw [trim, hfront, List.reverse_append, List.dropWhile_append_of_pos (isBlank_reverse.mpr hafter),
    dropWhile_eq_self fun c hc => h c (List.mem_reverse.mp hc), List.reverse_reverse]

end EventScript.Text
