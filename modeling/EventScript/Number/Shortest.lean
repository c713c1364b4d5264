import EventScript.Decimal
import EventScript.Number.Binary64

/-!
# The shortest decimal that reads back

Each binary64 number is nearest to a whole interval of reals. It is written with the fewest decimal
digits whose value lies in that interval; of several decimals that short, the one closest to the number
is taken, and of two equally close the one with the even last digit.

Positional notation is used from `0.00001` up to sixteen digits before the point, and scientific
notation outside that range.
-/

namespace EventScript.Binary64

/-- A decimal `digits * 10 ^ exponent`. -/
structure Scaled where
  digits : Nat
  exponent : Int
  deriving DecidableEq, Repr

/-- The reals that round to a magnitude, in quarters of a unit, and whether the ends do too. -/
structure Interval where
  low : Nat
  high : Nat
  closed : Bool
  deriving DecidableEq, Repr

/-- The interval of a non-zero magnitude. It is narrower below a power of two, where the magnitudes lie
closer together; its ends belong to it when the last bit is even. -/
def interval (u : Nat) : Interval :=
  let gap := 1 <<< lowestPlace u
  let below := if u = gap <<< 52 ∧ 1 < gap then gap else 2 * gap
  ⟨4 * u - below, 4 * u + 2 * gap, u / gap % 2 = 0⟩

/-- A grid of decimals with one exponent, by the two factors that make them comparable with quarters
of a unit: `c * 10 ^ exponent` lies below `q` quarters exactly when `c * step < q * scale`. -/
structure Grid where
  exponent : Int
  step : Nat
  scale : Nat

/-- The grid of the multiples of `10 ^ exponent`. -/
def grid (exponent : Int) : Grid :=
  if 0 ≤ exponent then ⟨exponent, Nat.pow 10 exponent.toNat * one * 4, 1⟩
  else ⟨exponent, one * 4, Nat.pow 10 (-exponent).toNat⟩

/-- Whether `c` steps of a grid lie in an interval. -/
def Grid.hits (g : Grid) (i : Interval) (c : Nat) : Bool :=
  if i.closed then decide (i.low * g.scale ≤ c * g.step ∧ c * g.step ≤ i.high * g.scale)
  else decide (i.low * g.scale < c * g.step ∧ c * g.step < i.high * g.scale)

/-- The multiple of the grid's step nearest to `u` units among its two neighbours that round to `u`. -/
def Grid.closest? (g : Grid) (u : Nat) : Option Scaled :=
  let target := 4 * u * g.scale
  let c := target / g.step
  let lower := g.hits (interval u) c
  let upper := g.hits (interval u) (c + 1)
  let toLower := target - c * g.step
  let toUpper := (c + 1) * g.step - target
  if lower && upper then
    some ⟨if toLower < toUpper ∨ (toLower = toUpper ∧ c % 2 = 0) then c else c + 1, g.exponent⟩
  else if lower then some ⟨c, g.exponent⟩
  else if upper then some ⟨c + 1, g.exponent⟩
  else none

/-- The exponent of the first significant decimal digit of a non-zero magnitude: every magnitude is at
least `10 ^ -324`. -/
def leadingExponent (u : Nat) : Int :=
  ((Decimal.digits (u * Nat.pow 10 324 / one)).length : Int) - 325

/-- The shortest decimal that rounds to a non-zero magnitude. Seventeen digits always suffice. -/
def shortest (u : Nat) : Scaled :=
  let lead := leadingExponent u
  let candidate (count : Nat) : Option Scaled := (grid (lead - count)).closest? u
  ((List.range 17).findSome? candidate).getD ⟨0, 0⟩

/-! ## Layout -/

/-- Leading exponents from this one up to `positionalTo` are written positionally. -/
def positionalFrom : Int := -5

/-- The greatest leading exponent that is written positionally. -/
def positionalTo : Int := 15

/-- Significant digits without zeros at their end. -/
def significant (digits : Nat) : List Char :=
  ((Decimal.natChars digits).reverse.dropWhile (· = '0')).reverse

/-- A decimal with a point, as digits and the exponent of the first of them. -/
def positional (ds : List Char) (lead : Int) : List Char :=
  if lead < 0 then ['0', '.'] ++ List.replicate (-lead - 1).toNat '0' ++ ds
  else
    let whole := (lead + 1).toNat
    let front := ds.take whole ++ List.replicate (whole - ds.length) '0'
    let back := ds.drop whole
    front ++ ['.'] ++ (if back.isEmpty then ['0'] else back)

/-- A decimal with an exponent, as digits and the exponent of the first of them. -/
def scientific (ds : List Char) (lead : Int) : List Char :=
  let mantissa := match ds with
    | d :: e :: rest => d :: '.' :: e :: rest
    | short => short
  mantissa ++ ['e', if lead < 0 then '-' else '+'] ++ Decimal.natChars lead.natAbs

/-- The characters of a magnitude. -/
def magnitudeChars (u : Nat) : List Char :=
  if u = 0 then ['0', '.', '0']
  else
    let d := shortest u
    let ds := significant d.digits
    let lead := d.exponent + (Decimal.natChars d.digits).length - 1
    if positionalFrom ≤ lead ∧ lead ≤ positionalTo then positional ds lead else scientific ds lead

/-- The numeral of a binary64 number. It always shows that it is no integer literal: it has a point or
an exponent. -/
def chars (x : Binary64) : List Char :=
  if x.negative then '-' :: magnitudeChars x.units else magnitudeChars x.units

end EventScript.Binary64
