/-!
# Decimal numerals

Numbers are shown in decimal with no leading zeros. A numeral that is read may have one sign and any
number of leading zeros.

* `value_digits`: the digits of a number denote it.
* `digits_lt`: each of them is below ten.
* `digitsOf?_digits`: written out as characters they read back.
-/

namespace EventScript.Decimal

/-- The decimal digits of `n`, most significant first. -/
def digits (n : Nat) : List Nat :=
  if n < 10 then [n] else digits (n / 10) ++ [n % 10]

/-- The number that digits denote, most significant first. -/
def value (ds : List Nat) : Nat :=
  ds.foldl (fun n d => 10 * n + d) 0

/-- The character of a digit. -/
def digitChar (d : Nat) : Char :=
  Char.ofNat (48 + d)

/-- The digit that a character stands for; only the ASCII digits do. -/
def digit? (c : Char) : Option Nat :=
  if '0' ≤ c ∧ c ≤ '9' then some (c.toNat - 48) else none

/-- The digits that characters stand for, if all of them do. -/
def digitsOf? (cs : List Char) : Option (List Nat) :=
  cs.mapM digit?

/-- The characters of a number's numeral. -/
def natChars (n : Nat) : List Char :=
  (digits n).map digitChar

/-- The numeral of a number. -/
def nat (n : Nat) : String :=
  String.ofList (natChars n)

/-- The characters of an integer's numeral. -/
def intChars (z : Int) : List Char :=
  if z < 0 then '-' :: natChars z.natAbs else natChars z.natAbs

/-- The numeral of an integer. -/
def int (z : Int) : String :=
  String.ofList (intChars z)

/-- The number of a non-empty run of digits. -/
def nat? (cs : List Char) : Option Nat :=
  if cs.isEmpty then none else (digitsOf? cs).map value

/-- The integer of a numeral with at most one sign. -/
def int? : List Char → Option Int
  | '+' :: cs => (nat? cs).map fun n => (n : Int)
  | '-' :: cs => (nat? cs).map fun n => -(n : Int)
  | cs => (nat? cs).map fun n => (n : Int)

/-! ## Writing and reading -/

theorem value_append (ds : List Nat) (d : Nat) : value (ds ++ [d]) = 10 * value ds + d := by
  simp [value]

theorem value_digits (n : Nat) : value (digits n) = n := by
  fun_induction digits n with
  | case1 n h => simp [value]
  | case2 n h ih => rw [value_append, ih]; omega

theorem digits_lt {n d : Nat} (h : d ∈ digits n) : d < 10 := by
  fun_induction digits n with
  | case1 n hn => simp_all
  | case2 n hn ih =>
    rcases List.mem_append.mp h with h | h
    · exact ih h
    · simp at h; omega

theorem digits_ne_nil (n : Nat) : digits n ≠ [] := by
  unfold digits
  split <;> simp

theorem digit?_digitChar {d : Nat} (h : d < 10) : digit? (digitChar d) = some d := by
  have : d = 0 ∨ d = 1 ∨ d = 2 ∨ d = 3 ∨ d = 4 ∨ d = 5 ∨ d = 6 ∨ d = 7 ∨ d = 8 ∨ d = 9 := by omega
  rcases this with rfl | rfl | rfl | rfl | rfl | rfl | rfl | rfl | rfl | rfl <;> rfl

theorem digitsOf?_map_digitChar {ds : List Nat} (h : ∀ d ∈ ds, d < 10) :
    digitsOf? (ds.map digitChar) = some ds := by
  unfold digitsOf?
  induction ds with
  | nil => rfl
  | cons d ds ih =>
    have hd := digit?_digitChar (h d List.mem_cons_self)
    have hds := ih fun x hx => h x (List.mem_cons_of_mem d hx)
    simp [hd, hds]

theorem digitsOf?_digits (n : Nat) : digitsOf? ((digits n).map digitChar) = some (digits n) :=
  digitsOf?_map_digitChar fun _ h => digits_lt h

theorem nat?_natChars (n : Nat) : nat? (natChars n) = some n := by
  simp [nat?, natChars, digits_ne_nil, digitsOf?_digits, value_digits]

end EventScript.Decimal
