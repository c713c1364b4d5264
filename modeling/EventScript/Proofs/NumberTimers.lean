import EventScript.Event.OfRow
import EventScript.Proofs.Rounding

/-!
# The timer of a number

A number cell holds its exact value, as a signed word, as an unsigned one, or as a binary64 number. It is a
timer if that value is an integer that a signed word holds. An unsigned word that no signed one holds is tried as
the binary64 number nearest to it, which is beyond all timers too, so nothing comes of the rounding.

* `timerOfNumber?_whole`, `timerOfNumber?_float`: the timer of a number by its integer.
* `toInt?_eq_some_iff`: a binary64 number is an integer just when its exact value is.
* `timerOfCell_exact`: the timer of a number cell is its exact value.
-/

namespace EventScript

theorem timerOfInt?_eq_some_iff {z : Int} {timer : Int64} :
    timerOfInt? z = some timer ↔ timer.toInt = z := by
  constructor
  · intro h
    unfold timerOfInt? at h
    split at h
    next hz => rwa [← Option.some.inj h]
    next => cases h
  · rintro rfl
    exact timerOfInt?_toInt timer

/-! ## Whole numbers in range -/

theorem timerLimit_eq : timerLimit = 0x8000000000000000 :=
  rfl

/-- Within range the nearest signed word is the integer itself. -/
theorem timerOfInt?_of_range {z : Int} (hlow : -timerLimit ≤ z) (hhigh : z < timerLimit) :
    timerOfInt? z = some (Int64.ofIntClamp z) := by
  rw [timerLimit_eq] at hlow hhigh
  rw [timerOfInt?_eq_some_iff]
  exact Int64.toInt_ofIntClamp hlow (Int.le_of_lt_add_one hhigh)

theorem range_of_timerOfInt? {z : Int} {timer : Int64} (h : timerOfInt? z = some timer) :
    -timerLimit ≤ z ∧ z < timerLimit := by
  rw [← timerOfInt?_eq_some_iff.mp h]
  exact ⟨timer.le_toInt, timer.toInt_lt⟩

theorem timerOfInt?_eq_none {z : Int} (h : timerLimit ≤ z) : timerOfInt? z = none := by
  cases htimer : timerOfInt? z with
  | none => rfl
  | some timer => exact absurd (range_of_timerOfInt? htimer).2 (Int.not_lt.mpr h)

theorem timerOfBinary64?_eq (x : Binary64) : timerOfBinary64? x = x.toInt?.bind timerOfInt? := by
  unfold timerOfBinary64?
  split
  next z hz =>
    rw [hz, Option.bind_some]
    split
    next hrange => rw [timerOfInt?_of_range hrange.1 hrange.2]
    next hrange =>
      cases htimer : timerOfInt? z with
      | none => rfl
      | some timer => exact absurd (range_of_timerOfInt? htimer) hrange
  next hnone => rw [hnone, Option.bind_none]

theorem timerOfNumber?_float (x : Binary64) : timerOfNumber? (.float x) = x.toInt?.bind timerOfInt? := by
  rw [← timerOfBinary64?_eq]
  rfl

/-! ## Unsigned words -/

/-- Rounding does not bring a word that is beyond all timers back among them. -/
theorem exists_toBinary64? {n : Json.Whole} (h : timerLimit ≤ n.value) :
    ∃ x z, Json.Number.toBinary64? (.whole n) = some x ∧ x.toInt? = some z ∧ timerLimit ≤ z := by
  obtain ⟨value, lower, upper⟩ := n
  rw [timerLimit_eq] at h
  dsimp only at h
  obtain ⟨k, rfl⟩ := Int.eq_ofNat_of_zero_le (Int.le_trans (by decide) h)
  have hlow : 0x8000000000000000 ≤ k := by omega
  have hhigh : k < 0x10000000000000000 := by omega
  have hlog : 52 ≤ k.log2 := by
    rw [Binary64.log2_eq hlow hhigh]
    decide
  have hround := Binary64.nearest_mul_one hlog
  obtain ⟨hge, hle⟩ := Binary64.le_nearest_word hlow hhigh
  have hfinite : Binary64.nearest (k * Binary64.one) 1 < Binary64.bound := by
    rw [hround]
    exact Nat.lt_of_le_of_lt (Nat.mul_le_mul_right _ hle) Binary64.word_lt_bound
  obtain ⟨x, hx, hunits, hsign⟩ := Binary64.exists_ofUnits? hfinite
  have hinteger := Binary64.toInt?_of_units (hunits.trans hround)
  rw [hsign, if_neg Bool.false_ne_true] at hinteger
  refine ⟨x, _, ?_, hinteger, ?_⟩
  · have hnat : Binary64.ofNat? k = some x := hx
    have hnonneg : ¬ (k : Int) < 0 := by omega
    rw [Json.Number.toBinary64?, Binary64.ofInt?, Int.natAbs_natCast, hnat, Option.map_some, if_neg hnonneg]
  · rw [timerLimit_eq]
    omega

theorem toInt64?_of_le {n : Json.Whole} (h : timerLimit ≤ n.value) :
    Json.Number.toInt64? (.whole n) = none :=
  if_neg (Int.not_lt.mpr h)

theorem timerOfNumber?_whole (n : Json.Whole) : timerOfNumber? (.whole n) = timerOfInt? n.value := by
  by_cases h : n.value < 0x8000000000000000
  · have hword : Json.Number.toInt64? (.whole n) = some (Int64.ofInt n.value) := if_pos h
    have hexact : (Int64.ofInt n.value).toInt = n.value := Int64.toInt_ofInt_of_le n.lower h
    rw [timerOfNumber?, hword, Option.some_or, timerOfInt?, if_pos hexact]
  · have hbeyond : timerLimit ≤ n.value := Int.not_lt.mp h
    obtain ⟨x, z, hx, hz, hlarge⟩ := exists_toBinary64? hbeyond
    rw [timerOfNumber?, toInt64?_of_le hbeyond, Option.none_or, hx, Option.bind_some, timerOfBinary64?_eq, hz,
      Option.bind_some, timerOfInt?_eq_none hlarge, timerOfInt?_eq_none hbeyond]

theorem timerOfCell_number {n : Json.Number} {timer : Int64} :
    timerOfCell (.number n) = .ok timer ↔ timerOfNumber? n = some timer := by
  rw [timerOfCell]
  cases timerOfNumber? n <;> simp

/-! ## Exact values -/

/-- The exact value of a binary64 number. -/
def Binary64.exact (x : Binary64) : ℚ :=
  (if x.negative then -(x.units : ℚ) else x.units) / one

/-- The exact value of a number. -/
def Json.Number.exact : Json.Number → ℚ
  | .whole n => n.value
  | .float x => x.exact

namespace Binary64

variable {x : Binary64} {z : Int}

theorem exact_eq_iff : x.exact = z ↔ (if x.negative then -(x.units : Int) else x.units) = z * one := by
  have hone : (one : ℚ) ≠ 0 := Nat.cast_ne_zero.mpr (Nat.ne_of_gt one_pos)
  rw [exact, div_eq_iff hone]
  cases x.negative
  · exact_mod_cast Iff.rfl
  · exact_mod_cast Iff.rfl

/-- A binary64 number is an integer just when its exact value is. -/
theorem toInt?_eq_some_iff : x.toInt? = some z ↔ x.exact = z := by
  have hpos : (0 : Int) < one := Int.natCast_pos.mpr one_pos
  rw [exact_eq_iff]
  constructor
  · intro h
    have hunits := units_of_toInt? h
    have hz := Option.some.inj (h.symm.trans (toInt?_of_units hunits))
    rw [hunits]
    split at hz
    next hsign =>
      rw [if_pos hsign, Int.natCast_mul, ← Int.neg_mul, ← hz]
    next hsign =>
      rw [if_neg hsign, Int.natCast_mul, ← hz]
  · intro h
    have hunits : x.units = z.natAbs * one := by
      have habs := congrArg Int.natAbs h
      rw [Int.natAbs_mul, Int.natAbs_natCast] at habs
      rw [← habs]
      split <;> simp
    rw [toInt?_of_units hunits]
    split at h
    next hsign =>
      have hz : z ≤ 0 := by
        by_contra hz
        have := Int.mul_pos (Int.not_le.mp hz) hpos
        omega
      rw [if_pos hsign, Int.ofNat_natAbs_of_nonpos hz, Int.neg_neg]
    next hsign =>
      have hz : 0 ≤ z := by
        by_contra hz
        have := Int.mul_neg_of_neg_of_pos (Int.not_le.mp hz) hpos
        omega
      rw [if_neg hsign, Int.natAbs_of_nonneg hz]

end Binary64

/-- A number cell is a timer of its exact value, or none. -/
theorem timerOfNumber?_eq_some_iff {n : Json.Number} {timer : Int64} :
    timerOfNumber? n = some timer ↔ (timer.toInt : ℚ) = n.exact := by
  cases n with
  | whole n =>
    rw [timerOfNumber?_whole, timerOfInt?_eq_some_iff, Json.Number.exact]
    exact_mod_cast Iff.rfl
  | float x =>
    simp only [timerOfNumber?_float, Option.bind_eq_some_iff, Binary64.toInt?_eq_some_iff,
      timerOfInt?_eq_some_iff, Json.Number.exact]
    constructor
    · rintro ⟨z, hz, rfl⟩
      exact hz.symm
    · exact fun h => ⟨timer.toInt, h.symm, rfl⟩

/-- **Timers are exact.** Whether it is held as a signed word, as an unsigned one or as a binary64 number, the
timer of a number cell is the exact value of the number; there is one just when that is an integer from
`-2 ^ 63` to `2 ^ 63 - 1`. An unsigned word beyond these is no signed word, so the binary64 number nearest to it is
tried; that is at least `2 ^ 63`, and the cell is refused. -/
theorem timerOfCell_exact :
    (∀ (n : Json.Number) (timer : Int64),
      timerOfCell (.number n) = .ok timer ↔ (timer.toInt : ℚ) = n.exact) ∧
    (∀ n : Json.Number, (∃ timer, timerOfCell (.number n) = .ok timer) ↔
      ∃ z : Int, n.exact = z ∧ -2 ^ 63 ≤ z ∧ z ≤ 2 ^ 63 - 1) ∧
    ∀ word : UInt64, 2 ^ 63 - 1 < word.toNat →
      Json.Number.toInt64? (.whole (.ofUInt64 word)) = none ∧
      (∃ x, Json.Number.toBinary64? (.whole (.ofUInt64 word)) = some x ∧ 2 ^ 63 ≤ x.exact) ∧
      timerOfCell (.number (.whole (.ofUInt64 word))) = .error (.number (.whole (.ofUInt64 word))) := by
  have hexact (n : Json.Number) (timer : Int64) :
      timerOfCell (.number n) = .ok timer ↔ (timer.toInt : ℚ) = n.exact := by
    rw [timerOfCell_number, timerOfNumber?_eq_some_iff]
  refine ⟨hexact, ?_, ?_⟩
  · intro n
    simp only [hexact]
    constructor
    · rintro ⟨timer, htimer⟩
      exact ⟨timer.toInt, htimer.symm, timer.le_toInt, Int.le_sub_one_of_lt timer.toInt_lt⟩
    · rintro ⟨z, hz, hlow, hhigh⟩
      refine ⟨Int64.ofInt z, ?_⟩
      rw [hz, Int64.toInt_ofInt_of_le hlow (Int.lt_of_le_sub_one hhigh)]
  · intro word hword
    have hlarge : timerLimit ≤ (Json.Whole.ofUInt64 word).value := by
      show (0x8000000000000000 : Int) ≤ word.toNat
      omega
    obtain ⟨x, z, hx, hz, hle⟩ := exists_toBinary64? hlarge
    refine ⟨toInt64?_of_le hlarge, ⟨x, hx, ?_⟩, ?_⟩
    · rw [Binary64.toInt?_eq_some_iff.mp hz]
      exact_mod_cast hle
    · have hnone : timerOfNumber? (.whole (.ofUInt64 word)) = none := by
        rw [timerOfNumber?_whole]
        exact timerOfInt?_eq_none hlarge
      rw [timerOfCell, hnone, Option.elim_none]

/-- The greatest unsigned word is rounded up, and refused. -/
theorem timerOfCell_exact_greatestWord :
    2 ^ 63 - 1 < (0xFFFFFFFFFFFFFFFF : UInt64).toNat ∧
      timerOfCell (.number (.whole (.ofUInt64 0xFFFFFFFFFFFFFFFF))) =
        .error (.number (.whole (.ofUInt64 0xFFFFFFFFFFFFFFFF))) :=
  ⟨by decide, (timerOfCell_exact.2.2 0xFFFFFFFFFFFFFFFF (by decide)).2.2⟩

/-- The least timer is accepted, its magnitude is not, and zero is with either sign. -/
example :
    timerOfBinary64? ⟨true, 2 ^ 63 * Binary64.one, by decide +kernel, by decide +kernel⟩ =
        some Int64.minValue ∧
      timerOfBinary64? ⟨false, 2 ^ 63 * Binary64.one, by decide +kernel, by decide +kernel⟩ = none ∧
      timerOfBinary64? Binary64.zero.neg = some 0 := by
  decide +kernel

end EventScript
