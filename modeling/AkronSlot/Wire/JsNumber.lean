import AkronSlot.Wire.Numeral

/-!
# The integers of JavaScript

A JSON number becomes a double, the nearest one with 53 significant bits, and
`String` gives the shortest decimal that is read back as that double.  Below `2 ^ 53`
neither changes an integer; above, several integers have one text, and it may be the
decimal form of none of them.

## Main Definitions

* `double`, `printed` — reading and printing
* `stringOfInteger` — `String(JSON.parse(text))` for the text of an integer

## Main Results

* `stringOfInteger_of_lt` — below `2 ^ 53` it is the decimal form
-/

namespace Wire

/-- `n / d`, rounded to the nearest integer, ties to the even one. -/
def roundEven (n d : ℕ) : ℕ :=
  if 2 * (n % d) < d then n / d
  else if d < 2 * (n % d) then n / d + 1
  else if n / d % 2 = 0 then n / d
  else n / d + 1

/-- The double nearest to an integer. -/
def double (n : ℕ) : ℕ :=
  let unit := 2 ^ (Nat.log2 n - 52)
  roundEven n unit * unit

/-- The integer of which `Number.prototype.toString` prints the digits of a double
below `10 ^ 21`: the first that is read back, from the shortest on. -/
def printed (x : ℕ) : ℕ :=
  (((List.range 21).reverse.map fun k => roundEven x (10 ^ k) * 10 ^ k).find?
    fun m => double m = x).getD x

/-- `String(JSON.parse(text))` for the text of an integer below `10 ^ 21`. -/
def stringOfInteger (i : ℤ) : Text :=
  if i < 0 then '-' :: natText (printed (double i.natAbs)) else natText (printed (double i.natAbs))

/-! ## Rounding -/

theorem roundEven_one (n : ℕ) : roundEven n 1 = n := by
  simp [roundEven, Nat.mod_one]

/-- An integer is rounded down no further than to the unit below it. -/
theorem le_roundEven {m n d : ℕ} (hd : 0 < d) (h : m * d ≤ n) : m ≤ roundEven n d := by
  have hle : m ≤ n / d := (Nat.le_div_iff_mul_le hd).mpr h
  unfold roundEven
  split_ifs <;> omega

theorem log2_lt_of_lt {n : ℕ} (h : n < 2 ^ 53) : Nat.log2 n < 53 := by
  by_cases hzero : n = 0
  · subst hzero
    decide
  · exact (Nat.log2_lt hzero).mpr h

/-- Below `2 ^ 53` every integer is a double. -/
theorem double_of_lt {n : ℕ} (h : n < 2 ^ 53) : double n = n := by
  have hunit : Nat.log2 n - 52 = 0 := by
    have := log2_lt_of_lt h
    omega
  simp [double, hunit, roundEven_one]

/-- And no other integer is rounded to less. -/
theorem le_double {n : ℕ} (h : 2 ^ 53 ≤ n) : 2 ^ 53 ≤ double n := by
  have hne : n ≠ 0 := by
    rintro rfl
    simp at h
  have hlog : 53 ≤ Nat.log2 n := (Nat.le_log2 hne).mpr h
  -- `2 ^ log2 n` is a multiple of the unit
  have hsplit : 2 ^ 52 * 2 ^ (Nat.log2 n - 52) = 2 ^ Nat.log2 n := by
    rw [← Nat.pow_add]
    congr 1
    omega
  have hfloor : 2 ^ 52 * 2 ^ (Nat.log2 n - 52) ≤ n := hsplit ▸ Nat.log2_self_le hne
  have hround := le_roundEven (Nat.pos_of_ne_zero (by positivity)) hfloor
  calc 2 ^ 53 ≤ 2 ^ Nat.log2 n := Nat.pow_le_pow_right (by decide) hlog
    _ = 2 ^ 52 * 2 ^ (Nat.log2 n - 52) := hsplit.symm
    _ ≤ double n := Nat.mul_le_mul_right _ hround

theorem eq_of_double_eq {m n : ℕ} (hn : n < 2 ^ 53) (h : double m = n) : m = n := by
  by_cases hm : m < 2 ^ 53
  · rw [← h, double_of_lt hm]
  · have := le_double (not_lt.mp hm)
    omega

/-! ## Printing -/

/-- What is printed of a double is read back as it. -/
theorem double_printed {x : ℕ} (hx : double x = x) : double (printed x) = x := by
  unfold printed
  cases h : ((List.range 21).reverse.map fun k => roundEven x (10 ^ k) * 10 ^ k).find?
      fun m => double m = x with
  | none => exact hx
  | some m => simpa using List.find?_some h

theorem printed_of_lt {n : ℕ} (h : n < 2 ^ 53) : printed n = n :=
  eq_of_double_eq h (double_printed (double_of_lt h))

/-- **Below `2 ^ 53` the text of an integer is its decimal form.** -/
theorem stringOfInteger_of_lt {n : ℕ} (h : n < 2 ^ 53) : stringOfInteger n = natText n := by
  simp [stringOfInteger, double_of_lt h, printed_of_lt h]

end Wire
