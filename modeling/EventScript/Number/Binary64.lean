/-!
# Finite binary64 numbers

A finite binary64 magnitude is a whole number of units of `2 ^ -1074` whose highest and lowest one
bits are less than 53 places apart. Arithmetic is exact on whole numbers and then rounded to the
nearest such magnitude, a tie going to the even neighbour, so no step depends on the machine.

* `roundHalfEven_le`: rounding a quotient stays within the next whole number.
* `sparse_nearest`: a rounded ratio has 53 significant bits.
-/

namespace EventScript

namespace Binary64

/-- How many units make one: units are `2 ^ -1074`. -/
def one : Nat := 1 <<< 1074

/-- Magnitudes below this many units are finite. -/
def bound : Nat := 1 <<< 2098

/-- The place of the lowest bit that a magnitude of `u` units can use. -/
def lowestPlace (u : Nat) : Nat :=
  u.log2 - 52

/-- At most 53 significant bits: clearing the bits below the lowest place changes nothing. -/
def Sparse (u : Nat) : Prop :=
  u >>> lowestPlace u <<< lowestPlace u = u

instance (u : Nat) : Decidable (Sparse u) :=
  inferInstanceAs (Decidable (_ = _))

/-- The whole number nearest to `n / d`, a tie going to the even one. -/
def roundHalfEven (n d : Nat) : Nat :=
  let q := n / d
  let twice := 2 * (n % d)
  if twice < d then q else if d < twice then q + 1 else q + q % 2

/-- The magnitude, in units, nearest to `n / d` units. -/
def nearest (n d : Nat) : Nat :=
  let place := lowestPlace (n / d)
  roundHalfEven n (d <<< place) <<< place

theorem roundHalfEven_le (n d : Nat) : roundHalfEven n d ≤ n / d + 1 := by
  unfold roundHalfEven
  dsimp only
  split
  · omega
  · split <;> omega

theorem sparse_of_le {m place : Nat} (hm : m ≤ 1 <<< 53) : Sparse (m <<< place) := by
  simp only [Sparse, lowestPlace, Nat.shiftLeft_eq, Nat.shiftRight_eq_div_pow, Nat.one_mul] at hm ⊢
  apply Nat.div_mul_cancel
  rcases Nat.eq_or_lt_of_le hm with rfl | hlt
  · rw [← Nat.pow_add, Nat.log2_two_pow]
    exact Nat.pow_dvd_pow 2 (by omega)
  · by_cases hzero : m * 2 ^ place = 0
    · simp [hzero]
    · have hbits : m * 2 ^ place < 2 ^ (53 + place) := by
        rw [Nat.pow_add]
        exact Nat.mul_lt_mul_of_pos_right hlt (Nat.two_pow_pos place)
      have hlog : (m * 2 ^ place).log2 < 53 + place := (Nat.log2_lt hzero).mpr hbits
      exact Nat.dvd_trans (Nat.pow_dvd_pow 2 (by omega)) (Nat.dvd_mul_left _ _)

/-- Rounding leaves at most 53 significant bits. -/
theorem sparse_nearest (n d : Nat) : Sparse (nearest n d) := by
  apply sparse_of_le
  have hlt : n / d < 2 ^ ((n / d).log2 + 1) := Nat.lt_log2_self
  have hquot : n / (d * 2 ^ lowestPlace (n / d)) < 2 ^ 53 := by
    rw [← Nat.div_div_eq_div_mul]
    apply Nat.div_lt_of_lt_mul
    rw [← Nat.pow_add]
    refine Nat.lt_of_lt_of_le hlt (Nat.pow_le_pow_right (by decide) ?_)
    unfold lowestPlace
    omega
  have := roundHalfEven_le n (d <<< lowestPlace (n / d))
  rw [Nat.shiftLeft_eq] at this ⊢
  omega

end Binary64

/-- A finite binary64 number. -/
structure Binary64 where
  /-- Whether the sign is minus; zero has either sign. -/
  negative : Bool
  /-- The magnitude in units of `2 ^ -1074`. -/
  units : Nat
  sparse : Binary64.Sparse units
  finite : units < Binary64.bound
  deriving DecidableEq, Repr

namespace Binary64

theorem bound_pos : 0 < bound := by
  decide

/-- The non-negative number nearest to `n / d` units, unless that is infinite. -/
def ofUnits? (n d : Nat) : Option Binary64 :=
  if finite : nearest n d < bound then some ⟨false, nearest n d, sparse_nearest n d, finite⟩ else none

/-- The number nearest to a whole number, unless that is infinite. -/
def ofNat? (n : Nat) : Option Binary64 :=
  ofUnits? (n * one) 1

/-- Zero. -/
def zero : Binary64 :=
  ⟨false, 0, by decide, bound_pos⟩

/-- The same magnitude with the other sign. -/
def neg (x : Binary64) : Binary64 :=
  { x with negative := !x.negative }

/-- The number nearest to an integer, unless that is infinite. -/
def ofInt? (z : Int) : Option Binary64 :=
  (ofNat? z.natAbs).map fun x => if z < 0 then x.neg else x

/-- The rounded product of two magnitudes, unless it is infinite. -/
def mul? (x y : Binary64) : Option Binary64 :=
  ofUnits? (x.units * y.units) one

/-- The rounded quotient of two magnitudes, unless it is infinite. -/
def div? (x y : Binary64) : Option Binary64 :=
  ofUnits? (x.units * one) y.units

/-- The integer that a number is, if it is one. -/
def toInt? (x : Binary64) : Option Int :=
  if one ∣ x.units then
    let magnitude : Int := (x.units / one : Nat)
    some (if x.negative then -magnitude else magnitude)
  else none

end Binary64

end EventScript
