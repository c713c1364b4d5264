import EventScript.Number.Binary64
import Mathlib

/-!
# Rounding to binary64

* `nearest_mul`: a magnitude that is there is rounded to itself.
* `le_nearest`: rounding does not go below a magnitude that is not above what is rounded.
* `nearest_mul_one`: whole numbers of 53 bits or more are rounded as if units were ones.
* `nearest_eq_iff`: from `2 ^ 63` to `2 ^ 64` numbers are rounded to multiples of 2048, and the first 1025
  of them to `2 ^ 63`.
* `toInt?_of_units`, `units_of_toInt?`: which numbers are integers.
-/

namespace EventScript.Binary64

/-! ## Whole numbers -/

theorem roundHalfEven_mul (m : Nat) {d : Nat} (hd : 0 < d) : roundHalfEven (m * d) d = m := by
  simp [roundHalfEven, Nat.mul_div_cancel m hd, hd]

theorem le_roundHalfEven (n d : Nat) : n / d ≤ roundHalfEven n d := by
  unfold roundHalfEven
  dsimp only
  split
  · exact Nat.le_refl _
  · split <;> omega

/-- A common factor does not change what a quotient is rounded to. -/
theorem roundHalfEven_mul_right (n d : Nat) {k : Nat} (hk : 0 < k) :
    roundHalfEven (n * k) (d * k) = roundHalfEven n d := by
  have hdiv : n * k / (d * k) = n / d := Nat.mul_div_mul_right n d hk
  have hmod : n * k % (d * k) = n % d * k := Nat.mul_mod_mul_right k n d
  have hbelow : 2 * (n % d * k) < d * k ↔ 2 * (n % d) < d := by
    rw [← Nat.mul_assoc, Nat.mul_lt_mul_right hk]
  have habove : d * k < 2 * (n % d * k) ↔ d < 2 * (n % d) := by
    rw [← Nat.mul_assoc, Nat.mul_lt_mul_right hk]
  simp only [roundHalfEven, hdiv, hmod, hbelow, habove]

/-- The multiple of a divisor below a number is no smaller than a smaller multiple. -/
theorem le_div_mul_of_dvd {m n d : Nat} (hdvd : d ∣ m) (h : m ≤ n) : m ≤ n / d * d :=
  calc
    m = m / d * d := (Nat.div_mul_cancel hdvd).symm
    _ ≤ n / d * d := Nat.mul_le_mul_right d (Nat.div_le_div_right h)

/-! ## Magnitudes -/

theorem one_pos : 0 < one := by
  decide

theorem mul_one_shiftLeft (m k : Nat) : m * 1 <<< k = m <<< k := by
  rw [Nat.shiftLeft_eq, Nat.shiftLeft_eq, Nat.one_mul]

theorem mul_one_eq (m : Nat) : m * one = m <<< 1074 :=
  mul_one_shiftLeft m 1074

/-- Whole numbers are magnitudes if they have at most 53 bits before their trailing zeros. -/
theorem sparse_shiftLeft_mul_one {m : Nat} (hm : m ≤ 1 <<< 53) (k : Nat) : Sparse (m <<< k * one) := by
  rw [mul_one_eq, ← Nat.shiftLeft_add]
  exact sparse_of_le hm

theorem sparse_mul_one {m : Nat} (hm : m ≤ 1 <<< 53) : Sparse (m * one) :=
  sparse_shiftLeft_mul_one hm 0

theorem Sparse.dvd {m : Nat} (h : Sparse m) : 2 ^ lowestPlace m ∣ m := by
  rw [Sparse, Nat.shiftRight_eq_div_pow, Nat.shiftLeft_eq] at h
  exact ⟨m / 2 ^ lowestPlace m, by rw [Nat.mul_comm, h]⟩

/-- A magnitude that is there is rounded to itself. -/
theorem nearest_mul {m d : Nat} (h : Sparse m) (hd : 0 < d) : nearest (m * d) d = m := by
  obtain ⟨k, hk⟩ := h.dvd
  have hplace : 0 < d * 2 ^ lowestPlace m := Nat.mul_pos hd (Nat.two_pow_pos _)
  have hsplit : m * d = k * (d * 2 ^ lowestPlace m) := by
    rw [Nat.mul_left_comm, Nat.mul_comm d, Nat.mul_comm k, ← hk]
  rw [nearest, Nat.mul_div_cancel m hd]
  simp only [Nat.shiftLeft_eq]
  rw [hsplit, roundHalfEven_mul k hplace, Nat.mul_comm, ← hk]

/-- Clearing the bits below the lowest place of a number does not go below a magnitude. -/
theorem Sparse.le_div_mul {m q : Nat} (h : Sparse m) (hle : m ≤ q) :
    m ≤ q / 2 ^ lowestPlace q * 2 ^ lowestPlace q := by
  by_cases hplace : lowestPlace q ≤ lowestPlace m
  · exact le_div_mul_of_dvd (Nat.dvd_trans (Nat.pow_dvd_pow 2 hplace) h.dvd) hle
  -- the magnitude has fewer bits, so it is below the highest bit, which is not cleared
  · have hbits : m.log2 + 1 ≤ q.log2 := by
      unfold lowestPlace at hplace
      omega
    have hq : q ≠ 0 := by
      rintro rfl
      simp at hbits
    have hdvd : 2 ^ lowestPlace q ∣ 2 ^ q.log2 := Nat.pow_dvd_pow 2 (by unfold lowestPlace; omega)
    calc
      m ≤ 2 ^ (m.log2 + 1) := Nat.le_of_lt Nat.lt_log2_self
      _ ≤ 2 ^ q.log2 := Nat.pow_le_pow_right (by decide) hbits
      _ ≤ q / 2 ^ lowestPlace q * 2 ^ lowestPlace q := le_div_mul_of_dvd hdvd (Nat.log2_self_le hq)

/-- Rounding does not go below a magnitude that is not above what is rounded. -/
theorem le_nearest {m n d : Nat} (h : Sparse m) (hd : 0 < d) (hle : m * d ≤ n) : m ≤ nearest n d := by
  have hquot : m ≤ n / d := (Nat.le_div_iff_mul_le hd).mpr hle
  refine Nat.le_trans (h.le_div_mul hquot) ?_
  rw [nearest, Nat.shiftLeft_eq, Nat.shiftLeft_eq, Nat.div_div_eq_div_mul]
  exact Nat.mul_le_mul_right _ (le_roundHalfEven _ _)

/-! ## Integers -/

theorem log2_shiftLeft {m : Nat} (hm : m ≠ 0) (k : Nat) : (m <<< k).log2 = m.log2 + k := by
  have hpos : 0 < 2 ^ k := Nat.two_pow_pos k
  have hne : m * 2 ^ k ≠ 0 := Nat.mul_ne_zero hm (Nat.ne_of_gt hpos)
  rw [Nat.shiftLeft_eq, Nat.log2_eq_iff hne, Nat.pow_add, Nat.pow_succ, Nat.pow_add, Nat.mul_right_comm]
  exact ⟨Nat.mul_le_mul_right _ (Nat.log2_self_le hm), Nat.mul_lt_mul_of_pos_right Nat.lt_log2_self hpos⟩

theorem nearest_shiftLeft {m : Nat} (hm : 52 ≤ m.log2) (k : Nat) :
    nearest (m <<< k) 1 = nearest m 1 <<< k := by
  have hne : m ≠ 0 := by
    rintro rfl
    simp at hm
  have hplace : lowestPlace (m <<< k) = lowestPlace m + k := by
    rw [lowestPlace, lowestPlace, log2_shiftLeft hne]
    omega
  rw [nearest, nearest, Nat.div_one, Nat.div_one, hplace]
  simp only [Nat.shiftLeft_eq, Nat.one_mul, Nat.pow_add]
  rw [roundHalfEven_mul_right _ _ (Nat.two_pow_pos k), Nat.mul_assoc]

/-- Whole numbers of 53 bits or more are rounded as if units were ones. -/
theorem nearest_mul_one {n : Nat} (h : 52 ≤ n.log2) : nearest (n * one) 1 = nearest n 1 * one := by
  rw [mul_one_eq, mul_one_eq, nearest_shiftLeft h]

theorem log2_eq {n : Nat} (hlow : 0x8000000000000000 ≤ n) (hhigh : n < 0x10000000000000000) :
    n.log2 = 63 :=
  (Nat.log2_eq_iff (by omega)).mpr ⟨hlow, hhigh⟩

/-- Numbers of 64 bits are rounded to multiples of 2048. -/
theorem nearest_eq {n : Nat} (hlow : 0x8000000000000000 ≤ n) (hhigh : n < 0x10000000000000000) :
    nearest n 1 = roundHalfEven n 2048 * 2048 := by
  have hplace : lowestPlace n = 11 := by
    rw [lowestPlace, log2_eq hlow hhigh]
  rw [nearest, Nat.div_one, hplace, Nat.shiftLeft_eq, Nat.shiftLeft_eq]

/-- The numbers of 64 bits that are rounded to the least of them. -/
theorem nearest_eq_iff {n : Nat} (hlow : 0x8000000000000000 ≤ n) (hhigh : n < 0x10000000000000000) :
    nearest n 1 = 0x8000000000000000 ↔ n ≤ 0x8000000000000400 := by
  rw [nearest_eq hlow hhigh, roundHalfEven]
  split
  · omega
  · split <;> omega

theorem le_nearest_word {n : Nat} (hlow : 0x8000000000000000 ≤ n) (hhigh : n < 0x10000000000000000) :
    0x8000000000000000 ≤ nearest n 1 ∧ nearest n 1 ≤ 0x10000000000000000 := by
  rw [nearest_eq hlow hhigh]
  have hge := le_roundHalfEven n 2048
  have hle := roundHalfEven_le n 2048
  omega

/-! ## Results -/

theorem units_of_ofUnits? {n d : Nat} {x : Binary64} (h : ofUnits? n d = some x) : x.units = nearest n d := by
  unfold ofUnits? at h
  split at h
  · rw [← Option.some.inj h]
  · cases h

theorem exists_ofUnits? {n d : Nat} (h : nearest n d < bound) :
    ∃ x, ofUnits? n d = some x ∧ x.units = nearest n d ∧ x.negative = false := by
  rw [ofUnits?, dif_pos h]
  exact ⟨_, rfl, rfl, rfl⟩

theorem toInt?_of_units {x : Binary64} {n : Nat} (h : x.units = n * one) :
    x.toInt? = some (if x.negative then -(n : Int) else n) := by
  have hdvd : one ∣ x.units := ⟨n, by rw [h, Nat.mul_comm]⟩
  rw [toInt?, if_pos hdvd, h, Nat.mul_div_cancel n one_pos]

theorem units_of_toInt? {x : Binary64} {z : Int} (h : x.toInt? = some z) : x.units = z.natAbs * one := by
  unfold toInt? at h
  split at h
  next hdvd =>
    have hz := Option.some.inj h
    have hmagnitude : x.units / one = z.natAbs := by
      generalize x.units / one = magnitude at hz
      split at hz <;> omega
    rw [← hmagnitude, Nat.div_mul_cancel hdvd]
  next => cases h

theorem one_lt_bound : one < bound := by
  decide

theorem word_lt_bound : 0x10000000000000000 * one < bound := by
  decide

end EventScript.Binary64
