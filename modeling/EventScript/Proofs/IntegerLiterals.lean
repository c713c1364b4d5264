import EventScript.Proofs.JsonWriting
import EventScript.Proofs.NumberTimers

/-!
# The timer of an integer literal

An integer literal that 64 bits hold is a number cell with that integer. Any other is a number cell with the
binary64 number next to it, which is an integer too, but another one.

* `le_units_of_scale?`: a word that lost a digit is scaled to a number beyond 64 bits.
* `holdsTimer_ofDigits`: the integer literals that are timers, and the timer of each.
-/

namespace EventScript

namespace Json

open Binary64 (one nearest sparse_mul_one sparse_shiftLeft_mul_one nearest_mul le_nearest)

/-! ## Scaling -/

theorem le_powerOfTen? {k : Nat} (hk : 1 ≤ k) {p : Binary64} (h : powerOfTen? k = some p) :
    10 * one ≤ p.units := by
  rw [Binary64.units_of_ofUnits? h]
  apply le_nearest (sparse_mul_one (by decide)) Nat.one_pos
  rw [Nat.mul_one]
  exact Nat.mul_le_mul_right one (Nat.pow_le_pow_right (n := 10) (by decide) hk)

/-- Scaling by `10 ^ 0` keeps a magnitude. -/
theorem scale?_zero (x : Binary64) : ∃ y, scale? x 0 = some y ∧ y.units = x.units ∧ y.negative = false := by
  have hone : nearest (Nat.pow 10 0 * one) 1 = one := by
    have hmul := nearest_mul (sparse_mul_one (m := 1) (by decide)) Nat.one_pos
    rwa [Nat.mul_one, Nat.one_mul] at hmul
  have hsame : nearest (x.units * one) one = x.units := nearest_mul x.sparse Binary64.one_pos
  obtain ⟨p, hp, hunits, -⟩ := Binary64.exists_ofUnits? (n := Nat.pow 10 0 * one) (d := 1)
    (by rw [hone]; exact Binary64.one_lt_bound)
  obtain ⟨y, hy, hunits', hsign⟩ := Binary64.exists_ofUnits? (n := x.units * one) (d := one)
    (by rw [hsame]; exact x.finite)
  rw [hone] at hunits
  rw [hsame] at hunits'
  refine ⟨y, ?_, hunits', hsign⟩
  have hpower : powerOfTen? 0 = some p := hp
  have hmul : x.mul? p = some y := by
    rw [Binary64.mul?, hunits]
    exact hy
  unfold scale?
  rw [if_neg (by decide), if_neg (by decide), if_pos (by decide)]
  show (powerOfTen? 0).bind x.mul? = some y
  rw [hpower, Option.bind_some, hmul]

/-- A word of at least `2 ^ 60` that is scaled by a positive power of ten comes out beyond 64 bits. -/
theorem le_units_of_scale? {x y : Binary64} (hx : 0x1000000000000000 * one ≤ x.units) {exponent : Int}
    (hexponent : 1 ≤ exponent) (h : scale? x exponent = some y) : 0xA000000000000000 * one ≤ y.units := by
  have hstep : (scaleStep : Int) = 308 := rfl
  unfold scale? at h
  rw [if_neg (by omega), if_neg (by omega)] at h
  split at h
  · obtain ⟨p, hp, hmul⟩ := Option.bind_eq_some_iff.mp h
    have hten := le_powerOfTen? (by omega) hp
    have hsparse : Binary64.Sparse (0xA000000000000000 * one) :=
      sparse_shiftLeft_mul_one (m := 10) (by decide) 60
    rw [Binary64.units_of_ofUnits? hmul]
    apply le_nearest hsparse Binary64.one_pos
    calc
      0xA000000000000000 * one * one = 0x1000000000000000 * one * (10 * one) := by
        rw [Nat.mul_mul_mul_comm, ← Nat.mul_assoc]
      _ ≤ x.units * p.units := Nat.mul_le_mul hx hten
  · split at h
    next hzero =>
      have := Binary64.one_pos
      omega
    next => cases h

/-! ## Digits -/

theorem absorb_lt {limit n : Nat} (h : n < limit) (ds : List Nat) : (absorb limit n ds).1 < limit := by
  induction ds generalizing n with
  | nil => exact h
  | cons d ds ih =>
    unfold absorb
    split
    next hd => exact ih hd
    next => exact h

/-- Where absorbing stops before the end, the next digit would not fit. -/
theorem absorb_cons {limit n : Nat} {ds : List Nat} {word d : Nat} {dropped : List Nat}
    (h : absorb limit n ds = (word, d :: dropped)) : d ∈ ds ∧ limit ≤ 10 * word + d := by
  induction ds generalizing n with
  | nil => cases h
  | cons d' ds ih =>
    unfold absorb at h
    split at h
    next =>
      obtain ⟨hmem, hle⟩ := ih h
      exact ⟨List.mem_cons_of_mem _ hmem, hle⟩
    next hnot =>
      cases h
      exact ⟨List.mem_cons_self, Nat.le_of_not_lt hnot⟩

/-! ## Literals -/

namespace Literal

/-- A literal with neither point nor exponent. -/
def ofDigits (negative : Bool) (ds : List Nat) : Literal :=
  ⟨negative, ds, none, none⟩

/-- The integer that sign and digits denote. -/
def integer (negative : Bool) (ds : List Nat) : Int :=
  if negative then -(Decimal.value ds : Int) else Decimal.value ds

variable {negative : Bool} {ds : List Nat}

/-- Digits that a word holds are kept as they are. -/
theorem absorb_value (h : Decimal.value ds < wordLimit) : absorb wordLimit 0 ds = (Decimal.value ds, []) :=
  absorb_eq h

/-- Of other digits a word of at least `2 ^ 60` is kept. -/
theorem exists_dropped (hds : ∀ d ∈ ds, d < 10) (h : wordLimit ≤ Decimal.value ds) :
    ∃ word d dropped, absorb wordLimit 0 ds = (word, d :: dropped) ∧ 0x1000000000000000 ≤ word := by
  rcases habsorb : absorb wordLimit 0 ds with ⟨word, _ | ⟨d, dropped⟩⟩
  · obtain ⟨taken, hsplit, hword⟩ := absorb_append wordLimit 0 ds
    have hlt : (absorb wordLimit 0 ds).1 < wordLimit := absorb_lt (by decide) ds
    rw [habsorb, List.append_nil] at hsplit
    rw [hword, ← hsplit] at hlt
    exact absurd h (Nat.not_le_of_lt hlt)
  · obtain ⟨hmem, hfits⟩ := absorb_cons habsorb
    have hd := hds d hmem
    rw [wordLimit] at hfits
    exact ⟨word, d, dropped, rfl, by omega⟩

/-- Without an exponent, what is no whole number is the digits that are kept, scaled. -/
theorem number_of_kept {l : Literal} {word : Nat} {shift : Int} (hwhole : l.whole? = none)
    (hexponent : l.exponent = none) (hkept : l.kept = (word, shift)) :
    l.number = ((Binary64.ofNat? word).bind fun x => scale? x (clampExponent shift)).elim (.error 0)
      fun x => .ok (l.signed x) := by
  have hnone : l.exponent.getD (false, []) = (false, []) := by rw [hexponent]; rfl
  have hshift : clampExponent (if false = true then shift - (0 : Nat) else shift + (0 : Nat)) =
      clampExponent shift := by
    simp
  fun_cases number l with
  | case1 n hsome => cases hwhole.symm.trans hsome
  | case2 _ _ _ hkept' _ _ hnone' _ hdone exponent x hx =>
    cases hkept.symm.trans hkept'
    cases hnone.symm.trans hnone'
    cases hdone
    rw [← hshift, hx, Option.elim_some]
  | case3 _ _ _ hkept' _ _ hnone' _ hdone exponent hx =>
    cases hkept.symm.trans hkept'
    cases hnone.symm.trans hnone'
    cases hdone
    rw [← hshift, hx, Option.elim_none]
  | case4 _ _ _ _ _ _ hnone' _ _ _ hdone =>
    cases hnone.symm.trans hnone'
    cases hdone
  | case5 _ _ _ _ _ _ hnone' _ _ _ hdone =>
    cases hnone.symm.trans hnone'
    cases hdone

variable {timer : Int64}

/-- A literal holds a timer. -/
def HoldsTimer (l : Literal) (timer : Int64) : Prop :=
  ∃ n, l.number = .ok n ∧ timerOfNumber? n = some timer

theorem holdsTimer_iff {l : Literal} {n : Number} (h : l.number = .ok n) :
    l.HoldsTimer timer ↔ timerOfNumber? n = some timer := by
  simp only [HoldsTimer, h, Except.ok.injEq, exists_eq_left']

theorem holdsTimer_of_whole {l : Literal} {n : Whole} (h : l.whole? = some n) :
    l.HoldsTimer timer ↔ timer.toInt = n.value := by
  have hnumber : l.number = .ok (.whole n) := by
    rw [number, h]
  rw [holdsTimer_iff hnumber, timerOfNumber?_whole, timerOfInt?_eq_some_iff]

theorem kept_ofDigits {word : Nat} {dropped : List Nat} (h : absorb wordLimit 0 ds = (word, dropped)) :
    (ofDigits negative ds).kept = (word, (dropped.length : Int)) := by
  simp [kept, ofDigits, h, absorb]

theorem whole?_ofDigits (h : Decimal.value ds < wordLimit) :
    (ofDigits negative ds).whole? =
      if negative ∧ Decimal.value ds = 0 then none else Whole.ofInt? (integer negative ds) := by
  simp only [whole?, ofDigits, absorb_value h, integer]
  cases negative <;> simp

/-- A literal that is read as a whole number next to it holds that number, if it is a timer. -/
theorem holdsTimer_of_nearest (h : Decimal.value ds < wordLimit) (hwhole : (ofDigits negative ds).whole? = none)
    {n : Nat} (hn : nearest (Decimal.value ds * one) 1 = n * one) (hbound : n ≤ wordLimit) :
    (ofDigits negative ds).HoldsTimer timer ↔ timer.toInt = if negative then -(n : Int) else n := by
  have hfinite : nearest (Decimal.value ds * one) 1 < Binary64.bound := by
    rw [hn]
    exact Nat.lt_of_le_of_lt (Nat.mul_le_mul_right one hbound) Binary64.word_lt_bound
  obtain ⟨x, hx, hunits, -⟩ := Binary64.exists_ofUnits? hfinite
  obtain ⟨y, hy, hunits', hsign⟩ := scale?_zero x
  have hround : Binary64.ofNat? (Decimal.value ds) = some x := hx
  have hkept : (ofDigits negative ds).kept = (Decimal.value ds, 0) := kept_ofDigits (absorb_value h)
  have hclamp : clampExponent 0 = 0 := by decide
  have hnumber : (ofDigits negative ds).number = .ok ((ofDigits negative ds).signed y) := by
    rw [number_of_kept hwhole rfl hkept, hround, Option.bind_some, hclamp, hy, Option.elim_some]
  have htoInt : (if negative then y.neg else y).toInt? = some (if negative then -(n : Int) else n) := by
    have hy' : y.units = n * one := by rw [hunits', hunits, hn]
    cases negative with
    | false => simpa [hsign] using Binary64.toInt?_of_units hy'
    | true => simpa [Binary64.neg, hsign] using Binary64.toInt?_of_units (x := y.neg) hy'
  rw [holdsTimer_iff hnumber, signed, timerOfNumber?_float, ofDigits, htoInt, Option.bind_some,
    timerOfInt?_eq_some_iff]

/-- A literal with more digits than a word holds is no timer. -/
theorem not_holdsTimer (hds : ∀ d ∈ ds, d < 10) (h : wordLimit ≤ Decimal.value ds) :
    ¬ (ofDigits negative ds).HoldsTimer timer := by
  rintro ⟨n, hn, htimer⟩
  obtain ⟨word, d, dropped, habsorb, hword⟩ := exists_dropped hds h
  have hwhole : (ofDigits negative ds).whole? = none := by
    simp [whole?, ofDigits, habsorb]
  rw [number_of_kept hwhole rfl (kept_ofDigits habsorb)] at hn
  cases hscaled : (Binary64.ofNat? word).bind fun x => scale? x (clampExponent (d :: dropped).length) with
  | none =>
    rw [hscaled, Option.elim_none] at hn
    cases hn
  | some y =>
    rw [hscaled, Option.elim_some] at hn
    obtain ⟨x, hx, hy⟩ := Option.bind_eq_some_iff.mp hscaled
    have hlarge : 0x1000000000000000 * one ≤ x.units := by
      rw [Binary64.units_of_ofUnits? hx]
      have hsparse : Binary64.Sparse (0x1000000000000000 * one) :=
        sparse_shiftLeft_mul_one (m := 1) (by decide) 60
      apply le_nearest hsparse Nat.one_pos
      rw [Nat.mul_one]
      exact Nat.mul_le_mul_right one hword
    have hexponent : 1 ≤ clampExponent (d :: dropped).length := by
      rw [clampExponent, List.length_cons]
      omega
    have hunits := le_units_of_scale? hlarge hexponent hy
    cases hn
    rw [signed, timerOfNumber?_float] at htimer
    obtain ⟨z, hz, hint⟩ := Option.bind_eq_some_iff.mp htimer
    have hsigned : y.units = z.natAbs * one := by
      rw [← Binary64.units_of_toInt? hz]
      cases negative <;> rfl
    rw [hsigned, Nat.mul_le_mul_right_iff Binary64.one_pos] at hunits
    have hlow := timer.le_toInt
    have hhigh := timer.toInt_lt
    rw [timerOfInt?_eq_some_iff.mp hint] at hlow hhigh
    omega

theorem holdsTimer_of_fits (h : Decimal.value ds < wordLimit) (hsign : ¬ (negative ∧ Decimal.value ds = 0))
    (hlow : -0x8000000000000000 ≤ integer negative ds) :
    (ofDigits negative ds).HoldsTimer timer ↔ timer.toInt = integer negative ds := by
  have hhigh : integer negative ds < 0x10000000000000000 := by
    rw [wordLimit] at h
    unfold integer
    split <;> omega
  apply holdsTimer_of_whole (n := ⟨integer negative ds, hlow, hhigh⟩)
  rw [whole?_ofDigits h, if_neg hsign, Whole.ofInt?, dif_pos ⟨hlow, hhigh⟩]

theorem holdsTimer_of_below (h : Decimal.value ds < wordLimit) (hlow : 0x8000000000000000 < Decimal.value ds) :
    (ofDigits true ds).HoldsTimer timer ↔ timer.toInt = -(nearest (Decimal.value ds) 1 : Int) := by
  have hlog : 52 ≤ (Decimal.value ds).log2 := by
    rw [Binary64.log2_eq (Nat.le_of_lt hlow) h]
    decide
  have hwhole : (ofDigits true ds).whole? = none := by
    have hout : ¬ (-0x8000000000000000 ≤ integer true ds ∧ integer true ds < 0x10000000000000000) := by
      simp only [integer, if_true]
      omega
    rw [whole?_ofDigits h, if_neg (by omega), Whole.ofInt?, dif_neg hout]
  exact holdsTimer_of_nearest h hwhole (Binary64.nearest_mul_one hlog)
    (Binary64.le_nearest_word (Nat.le_of_lt hlow) h).2

/-- An integer literal is a timer up to 1024 below the least integer of 64 bits, and then the timer is that. -/
theorem holdsTimer_ofDigits (hds : ∀ d ∈ ds, d < 10) :
    (ofDigits negative ds).HoldsTimer timer ↔
      -0x8000000000000400 ≤ integer negative ds ∧ integer negative ds < 0x8000000000000000 ∧
        timer.toInt = max (integer negative ds) (-0x8000000000000000) := by
  have hleast := timer.le_toInt
  have hgreatest := timer.toInt_lt
  by_cases h : Decimal.value ds < wordLimit
  · by_cases hzero : negative ∧ Decimal.value ds = 0
    · obtain ⟨rfl, hzero⟩ := hzero
      have hwhole : (ofDigits true ds).whole? = none := by
        rw [whole?_ofDigits h, if_pos ⟨rfl, hzero⟩]
      have hnearest : nearest (Decimal.value ds * one) 1 = 0 * one := by
        have hmul := nearest_mul (sparse_mul_one (m := 0) (by decide)) Nat.one_pos
        rw [hzero]
        rwa [Nat.mul_one] at hmul
      rw [holdsTimer_of_nearest h hwhole hnearest (Nat.zero_le _)]
      simp only [integer, hzero, if_true]
      omega
    · by_cases hlow : -0x8000000000000000 ≤ integer negative ds
      · rw [holdsTimer_of_fits h hzero hlow]
        omega
      · cases negative with
        | false =>
          simp only [integer, Bool.false_eq_true, if_false] at hlow
          omega
        | true =>
          simp only [integer, if_true] at hlow ⊢
          have hbelow : 0x8000000000000000 < Decimal.value ds := by omega
          have hiff := Binary64.nearest_eq_iff (Nat.le_of_lt hbelow) h
          have hle := (Binary64.le_nearest_word (Nat.le_of_lt hbelow) h).1
          rw [holdsTimer_of_below h hbelow]
          omega
  · have hlarge : wordLimit ≤ Decimal.value ds := Nat.le_of_not_lt h
    have hnone : ¬ (ofDigits negative ds).HoldsTimer timer := not_holdsTimer hds hlarge
    rw [wordLimit] at hlarge
    constructor
    · exact fun htimer => absurd htimer hnone
    · rintro ⟨hlow, hhigh, -⟩
      cases negative with
      | false =>
        simp only [integer, Bool.false_eq_true, if_false] at hhigh
        omega
      | true =>
        simp only [integer, if_true] at hlow
        omega

end Literal

end Json

end EventScript
