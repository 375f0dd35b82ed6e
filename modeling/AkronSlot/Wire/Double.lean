import AkronSlot.Wire.Numeral
import Mathlib.Data.Int.Log

/-!
# Binary64 numbers

A decimal text and a `double` are two notations of a number, and every program
of a system that speaks JSON goes back and forth between them.  This module
says what is lost on the way: `nearest` rounds a rational number to binary64,
`Double` is the type of the numbers it leaves alone, and `decimal` is the
shortest numeral that rounds back to a given double.

## Rounding

`nearest` scales a number by its unit in the last place (`unitExp`), rounds to
an integer with ties to even, and scales back.  The unit is bounded below, so
subnormal numbers need no case of their own.  It is not bounded above: a number
past the largest double is rounded as if the exponent went on, and `JsNumber`
calls it infinite then, which is the rule of IEEE 754.

What the proofs use of rounding is that it is monotone (`nearest_mono`), that
it leaves `m * 2 ^ e` alone for a mantissa of 53 bits (`nearest_zpow_mul`), and
hence that rounding twice is rounding once (`nearest_nearest`).

## Notation

ECMAScript prints the double nearest to a decimal with the fewest digits.
`decimal` searches for it among the candidates with 1 to 17 digits and checks
each by rounding it, so `nearest (decimal x).value = x` needs no theory of
shortest digits.  Seventeen digits always suffice; the exact notation at the
end of the search is there to keep the function total.

## Main Definitions

* `roundHalfEven`, `unitExp`, `nearest` — rounding to binary64
* `Double`, `JsNumber` — the numbers of binary64, and those with infinity
* `decimal` — `Number::toString` as a numeral
-/

namespace Wire

/-! ## Rounding to an integer -/

/-- The integer nearest to a rational number, and the even one of two that are
equally near. -/
def roundHalfEven (x : ℚ) : ℤ :=
  if Int.fract x < 1 / 2 then ⌊x⌋
  else if 1 / 2 < Int.fract x then ⌊x⌋ + 1
  else if ⌊x⌋ % 2 = 0 then ⌊x⌋ else ⌊x⌋ + 1

theorem floor_le_roundHalfEven (x : ℚ) : ⌊x⌋ ≤ roundHalfEven x := by
  unfold roundHalfEven
  split_ifs <;> omega

theorem roundHalfEven_le_floor_add_one (x : ℚ) : roundHalfEven x ≤ ⌊x⌋ + 1 := by
  unfold roundHalfEven
  split_ifs <;> omega

@[simp] theorem roundHalfEven_intCast (m : ℤ) : roundHalfEven m = m := by
  simp [roundHalfEven]

/-- Past the middle between two integers a number is rounded up. -/
theorem lt_roundHalfEven {x : ℚ} {m : ℤ} (h : (m : ℚ) + 1 / 2 < x) : m < roundHalfEven x := by
  have hfloor : m ≤ ⌊x⌋ := Int.le_floor.mpr (by linarith)
  rcases hfloor.lt_or_eq with hlt | rfl
  · exact hlt.trans_le (floor_le_roundHalfEven x)
  · have hfract : 1 / 2 < Int.fract x := by
      rw [Int.fract]
      linarith
    rw [roundHalfEven, if_neg (not_lt.mpr hfract.le), if_pos hfract]
    omega

theorem roundHalfEven_mono {x y : ℚ} (h : x ≤ y) : roundHalfEven x ≤ roundHalfEven y := by
  rcases (Int.floor_mono h).lt_or_eq with hlt | heq
  · have hx := roundHalfEven_le_floor_add_one x
    have hy := floor_le_roundHalfEven y
    omega
  · have hfract : Int.fract x ≤ Int.fract y := by
      rw [Int.fract, Int.fract, heq]
      linarith
    -- within one unit interval only the fraction decides, and it has grown
    unfold roundHalfEven
    rw [heq]
    split_ifs <;> first | omega | linarith

theorem le_roundHalfEven {m : ℤ} {x : ℚ} (h : (m : ℚ) ≤ x) : m ≤ roundHalfEven x := by
  simpa using roundHalfEven_mono h

theorem roundHalfEven_le {m : ℤ} {x : ℚ} (h : x ≤ m) : roundHalfEven x ≤ m := by
  simpa using roundHalfEven_mono h

/-! ## Rounding to binary64 -/

/-- The exponent of the unit in the last place of the doubles around a positive
number: 52 below its leading bit, and never under the smallest double. -/
def unitExp (x : ℚ) : ℤ := max (Int.log 2 x - 52) (-1074)

/-- The double nearest to a number that is not negative. -/
def roundMagnitude (x : ℚ) : ℚ := roundHalfEven (x / 2 ^ unitExp x) * 2 ^ unitExp x

/-- The double nearest to a number, with ties to the even mantissa. -/
def nearest (x : ℚ) : ℚ := if x < 0 then -roundMagnitude (-x) else roundMagnitude x

theorem nearest_of_nonneg {x : ℚ} (h : 0 ≤ x) : nearest x = roundMagnitude x :=
  if_neg (not_lt.mpr h)

@[simp] theorem nearest_zero : nearest 0 = 0 := by
  rw [nearest_of_nonneg le_rfl, roundMagnitude, zero_div, ← Int.cast_zero (R := ℚ),
    roundHalfEven_intCast, Int.cast_zero, zero_mul]

@[simp] theorem nearest_neg (x : ℚ) : nearest (-x) = -nearest x := by
  rcases lt_trichotomy x 0 with hneg | rfl | hpos
  · rw [nearest_of_nonneg (by linarith), nearest, if_pos hneg, neg_neg]
  · simp
  · rw [nearest_of_nonneg hpos.le, nearest, if_pos (by linarith), neg_neg]

theorem two_zpow_pos (e : ℤ) : (0 : ℚ) < 2 ^ e := zpow_pos (by norm_num) e

theorem roundMagnitude_nonneg {x : ℚ} (h : 0 ≤ x) : 0 ≤ roundMagnitude x := by
  have hround : (0 : ℤ) ≤ roundHalfEven (x / 2 ^ unitExp x) :=
    le_roundHalfEven (by simpa using div_nonneg h (two_zpow_pos _).le)
  exact mul_nonneg (by exact_mod_cast hround) (two_zpow_pos _).le

theorem nearest_nonneg {x : ℚ} (h : 0 ≤ x) : 0 ≤ nearest x := by
  rw [nearest_of_nonneg h]
  exact roundMagnitude_nonneg h

/-- A multiple of the unit is left alone. -/
theorem roundMagnitude_eq_self {x : ℚ} (m : ℤ) (h : x = m * 2 ^ unitExp x) :
    roundMagnitude x = x := by
  have hdiv : x / 2 ^ unitExp x = m := (div_eq_iff (two_zpow_pos _).ne').mpr h
  rw [roundMagnitude, hdiv, roundHalfEven_intCast]
  exact h.symm

theorem roundMagnitude_mul_zpow {m : ℕ} {e : ℤ} (hm : m < 2 ^ 53) (he : -1074 ≤ e) :
    roundMagnitude (m * 2 ^ e) = m * 2 ^ e := by
  rcases Nat.eq_zero_or_pos m with rfl | hpos
  · simpa [nearest_of_nonneg] using nearest_zero
  · have hx : (0 : ℚ) < m * 2 ^ e := mul_pos (by exact_mod_cast hpos) (two_zpow_pos e)
    have hlog : Int.log 2 ((m : ℚ) * 2 ^ e) < 53 + e := by
      refine (Int.lt_zpow_iff_log_lt (by norm_num) hx).mp ?_
      have hlt : (m : ℚ) < 2 ^ (53 : ℤ) := by exact_mod_cast hm
      rw [Nat.cast_ofNat, zpow_add₀ (by norm_num)]
      exact mul_lt_mul_of_pos_right hlt (two_zpow_pos e)
    have hunit : unitExp (m * 2 ^ e) ≤ e := by
      unfold unitExp
      omega
    refine roundMagnitude_eq_self (m * 2 ^ (e - unitExp (m * 2 ^ e)).toNat) ?_
    -- the number is a multiple of `2 ^ e`, and that of the smaller unit
    have hcast : ((2 : ℚ) ^ (e - unitExp (m * 2 ^ e)).toNat) =
        2 ^ (e - unitExp (m * 2 ^ e)) := by
      rw [← zpow_natCast, Int.toNat_of_nonneg (by omega)]
    push_cast
    rw [hcast, mul_assoc, ← zpow_add₀ (by norm_num), sub_add_cancel]

/-- **A mantissa of at most 53 bits needs no rounding.** -/
theorem nearest_zpow_mul {m : ℕ} {e : ℤ} (hm : m ≤ 2 ^ 53) (he : -1074 ≤ e) :
    nearest (m * 2 ^ e) = m * 2 ^ e := by
  rw [nearest_of_nonneg (mul_nonneg m.cast_nonneg (two_zpow_pos e).le)]
  rcases hm.lt_or_eq with hlt | rfl
  · exact roundMagnitude_mul_zpow hlt he
  · have hshift : ((2 ^ 53 : ℕ) : ℚ) * 2 ^ e = (1 : ℕ) * 2 ^ (53 + e) := by
      rw [zpow_add₀ (by norm_num)]
      norm_num
    rw [hshift]
    exact roundMagnitude_mul_zpow (by norm_num) (by omega)

/-- Natural numbers of at most 53 bits are doubles. -/
theorem nearest_natCast {m : ℕ} (h : m ≤ 2 ^ 53) : nearest m = m := by
  simpa using nearest_zpow_mul (e := 0) h (by norm_num)

/-- A scaled number fits in 53 bits. -/
theorem div_unit_lt {x : ℚ} : x / 2 ^ unitExp x < 2 ^ 53 := by
  have hlt : x < 2 ^ (Int.log 2 x + 1) := by
    simpa using Int.lt_zpow_succ_log_self (b := 2) (by norm_num) x
  have hle : (2 : ℚ) ^ (Int.log 2 x + 1) ≤ 2 ^ (53 + unitExp x) :=
    zpow_le_zpow_right₀ (by norm_num) (by unfold unitExp; omega)
  rw [div_lt_iff₀ (two_zpow_pos _)]
  calc x < 2 ^ (53 + unitExp x) := hlt.trans_le hle
    _ = 2 ^ 53 * 2 ^ unitExp x := by rw [zpow_add₀ (by norm_num)]; norm_num

/-- What rounding yields is a mantissa of at most 53 bits. -/
theorem roundMagnitude_eq {x : ℚ} (h : 0 ≤ x) :
    ∃ m : ℕ, m ≤ 2 ^ 53 ∧ roundMagnitude x = m * 2 ^ unitExp x := by
  have hnonneg : 0 ≤ roundHalfEven (x / 2 ^ unitExp x) :=
    le_roundHalfEven (by simpa using div_nonneg h (two_zpow_pos _).le)
  have hle : roundHalfEven (x / 2 ^ unitExp x) ≤ 2 ^ 53 :=
    roundHalfEven_le (by exact_mod_cast (div_unit_lt (x := x)).le)
  obtain ⟨m, hm⟩ := Int.eq_ofNat_of_zero_le hnonneg
  refine ⟨m, by exact_mod_cast hm ▸ hle, ?_⟩
  rw [roundMagnitude, hm]
  norm_cast

/-- **Rounding twice is rounding once.** -/
@[simp] theorem nearest_nearest (x : ℚ) : nearest (nearest x) = nearest x := by
  wlog hx : 0 ≤ x generalizing x with hpos
  · have hneg := hpos (-x) (by linarith)
    simpa using hneg
  · obtain ⟨m, hm, heq⟩ := roundMagnitude_eq hx
    rw [nearest_of_nonneg hx, heq]
    exact nearest_zpow_mul hm (le_max_right _ _)

theorem unitExp_mono {x y : ℚ} (hx : 0 < x) (h : x ≤ y) : unitExp x ≤ unitExp y :=
  max_le_max_right _ (sub_le_sub_right (Int.log_mono_right hx h) _)

theorem roundMagnitude_mono {x y : ℚ} (hx : 0 < x) (h : x ≤ y) :
    roundMagnitude x ≤ roundMagnitude y := by
  rcases (unitExp_mono hx h).lt_or_eq with hlt | heq
  · -- the leading power of two of `y` lies between the two
    have hlog : Int.log 2 y - 52 = unitExp y := by
      unfold unitExp at hlt ⊢
      omega
    obtain ⟨m, hm, hround⟩ := roundMagnitude_eq hx.le
    have hleft : roundMagnitude x ≤ 2 ^ (53 + unitExp x) := by
      rw [hround, zpow_add₀ (by norm_num)]
      exact mul_le_mul_of_nonneg_right (by exact_mod_cast hm) (two_zpow_pos _).le
    have hright : (2 : ℚ) ^ (52 + unitExp y) ≤ roundMagnitude y := by
      have hy : (2 : ℚ) ^ (52 + unitExp y) ≤ y := by
        rw [show 52 + unitExp y = Int.log 2 y by omega]
        simpa using Int.zpow_log_le_self (b := 2) (by norm_num) (hx.trans_le h)
      have hm : (2 : ℤ) ^ 52 ≤ roundHalfEven (y / 2 ^ unitExp y) := by
        refine le_roundHalfEven ((le_div_iff₀ (two_zpow_pos _)).mpr ?_)
        rw [zpow_add₀ (by norm_num)] at hy
        exact_mod_cast hy
      rw [roundMagnitude, zpow_add₀ (by norm_num)]
      exact mul_le_mul_of_nonneg_right (by exact_mod_cast hm) (two_zpow_pos _).le
    calc roundMagnitude x ≤ 2 ^ (53 + unitExp x) := hleft
      _ ≤ 2 ^ (52 + unitExp y) := zpow_le_zpow_right₀ (by norm_num) (by omega)
      _ ≤ roundMagnitude y := hright
  · unfold roundMagnitude
    rw [heq]
    have hround := roundHalfEven_mono (div_le_div_of_nonneg_right h (two_zpow_pos (unitExp y)).le)
    exact mul_le_mul_of_nonneg_right (by exact_mod_cast hround) (two_zpow_pos _).le

/-- **Rounding keeps the order.** -/
theorem nearest_mono {x y : ℚ} (h : x ≤ y) : nearest x ≤ nearest y := by
  rcases lt_trichotomy x 0 with hx | rfl | hx
  · rcases lt_trichotomy y 0 with hy | rfl | hy
    · rw [nearest, if_pos hx, nearest, if_pos hy]
      exact neg_le_neg (roundMagnitude_mono (by linarith) (by linarith))
    · rw [nearest, if_pos hx, nearest_zero]
      exact neg_nonpos.mpr (roundMagnitude_nonneg (by linarith))
    · rw [nearest, if_pos hx]
      exact (neg_nonpos.mpr (roundMagnitude_nonneg (by linarith))).trans (nearest_nonneg hy.le)
  · rw [nearest_zero]
    exact nearest_nonneg h
  · rw [nearest_of_nonneg hx.le, nearest_of_nonneg (hx.le.trans h)]
    exact roundMagnitude_mono hx h

/-- Past the middle to the next double a number is rounded up. -/
theorem lt_nearest {x : ℚ} {m : ℕ} {e : ℤ} (hunit : unitExp x = e)
    (h : ((m : ℚ) + 1 / 2) * 2 ^ e < x) : (m : ℚ) * 2 ^ e < nearest x := by
  have hx : 0 ≤ x := le_trans (by positivity) h.le
  have hround : (m : ℤ) < roundHalfEven (x / 2 ^ e) :=
    lt_roundHalfEven ((lt_div_iff₀ (two_zpow_pos e)).mpr (by exact_mod_cast h))
  rw [nearest_of_nonneg hx, roundMagnitude, hunit]
  exact mul_lt_mul_of_pos_right (by exact_mod_cast hround) (two_zpow_pos e)

/-! ## Decimal notation -/

/-- The exponent part of `Number::toString`: a sign is always written. -/
def writtenExponent (i : ℤ) : Option Exponent :=
  let digits := (Whole.ofNat i.natAbs).digits
  digits.head?.map fun first => ⟨false, some (decide (i < 0)), first, digits.tail⟩

/-- The layout of the number `s * 10 ^ e` by `Number::toString`: in full between
`1e-6` and `1e21`, and with one digit before the point outside of that. -/
def numberLayout (s : ℕ) (e : ℤ) : Numeral :=
  let k := (Nat.digits 10 s).length
  let n := e + k
  if -6 < n ∧ n ≤ 21 then
    if 0 ≤ e then Numeral.ofNat (s * 10 ^ e.toNat)
    else ⟨false, Whole.ofNat (s / 10 ^ (-e).toNat), lastDigits (-e).toNat s, none⟩
  else
    ⟨false, Whole.ofNat (s / 10 ^ (k - 1)), lastDigits (k - 1) s,
      writtenExponent (n - 1)⟩

/-- The two numbers of `k` digits around a number that is not negative, the
nearer one first.  The upper one may be a power of ten with a digit too many. -/
def digitCandidates (x : ℚ) (k : ℕ) : List Numeral :=
  let e := Int.log 10 x + 1 - k
  let scaled := x / 10 ^ e
  let near := (roundHalfEven scaled).toNat
  let far := if (near : ℤ) = ⌊scaled⌋ then near + 1 else near - 1
  [near, far].map fun s =>
    if s = 10 ^ k then numberLayout (10 ^ (k - 1)) (e + 1) else numberLayout s e

/-- The shortest numeral that rounds to a number that is not negative. -/
def decimalMagnitude (x : ℚ) : Numeral :=
  (((List.range' 1 17).flatMap (digitCandidates x)).find? fun n => nearest n.value = x).getD
    (Numeral.fixed 1074 x)

/-- `Number::toString(x)` of a double, as a numeral: the fewest digits that
round to it, and of those the nearest. -/
def decimal (x : ℚ) : Numeral :=
  if x < 0 then { decimalMagnitude (-x) with neg := !(decimalMagnitude (-x)).neg }
  else decimalMagnitude x

theorem Numeral.value_not_neg (n : Numeral) : ({ n with neg := !n.neg } : Numeral).value =
    -n.value := by
  obtain ⟨neg, whole, frac, exp⟩ := n
  cases neg <;> simp [Numeral.value]

/-- With enough decimals a number that is not negative is written exactly. -/
theorem value_fixed_exact {x : ℚ} {k n : ℕ} (hx : 0 ≤ x) (h : x * 10 ^ k = n) :
    (Numeral.fixed k x).value = x := by
  have hfloor : ⌊|x| * 10 ^ k + 1 / 2⌋₊ = n := by
    rw [abs_of_nonneg hx, h, Nat.floor_eq_iff (by positivity)]
    constructor <;> linarith
  rw [Numeral.value_fixed, if_neg (not_lt.mpr hx), hfloor, ← h, one_mul,
    mul_div_cancel_right₀ _ (by positivity)]

/-- 1074 decimals are enough for a double. -/
theorem value_fixed_double {x : ℚ} (hx : 0 ≤ x) (h : nearest x = x) :
    (Numeral.fixed 1074 x).value = x := by
  obtain ⟨m, -, hm⟩ := roundMagnitude_eq hx
  rw [nearest_of_nonneg hx, hm] at h
  -- the unit is at least `2 ^ -1074`, which `10 ^ 1074` clears
  have hunit : (0 : ℤ) ≤ unitExp x + 1074 := by
    unfold unitExp
    omega
  have hpow : (2 : ℚ) ^ unitExp x * 2 ^ 1074 = 2 ^ (unitExp x + 1074).toNat := by
    rw [← zpow_natCast, ← zpow_natCast, Int.toNat_of_nonneg hunit, ← zpow_add₀ (by norm_num)]
    rfl
  have hten : (10 : ℚ) ^ 1074 = 2 ^ 1074 * 5 ^ 1074 := by
    rw [← mul_pow]
    norm_num
  refine value_fixed_exact (n := m * 2 ^ (unitExp x + 1074).toNat * 5 ^ 1074) hx ?_
  rw [hten, ← mul_assoc, Nat.cast_mul, Nat.cast_mul, Nat.cast_pow, Nat.cast_pow, Nat.cast_ofNat,
    Nat.cast_ofNat, ← hpow, ← mul_assoc, h]

theorem nearest_decimalMagnitude {x : ℚ} (hx : 0 ≤ x) (h : nearest x = x) :
    nearest (decimalMagnitude x).value = x := by
  unfold decimalMagnitude
  cases hfound : ((List.range' 1 17).flatMap (digitCandidates x)).find?
      fun n => nearest n.value = x with
  | none =>
      rw [Option.getD_none, value_fixed_double hx h]
      exact h
  | some n => simpa using List.find?_some hfound

/-- **A double is read back from its decimal notation.** -/
theorem nearest_decimal {x : ℚ} (h : nearest x = x) : nearest (decimal x).value = x := by
  unfold decimal
  split
  · next hx =>
      have hneg : nearest (-x) = -x := by rw [nearest_neg, h]
      rw [Numeral.value_not_neg, nearest_neg, nearest_decimalMagnitude (by linarith) hneg, neg_neg]
  · next hx => exact nearest_decimalMagnitude (not_lt.mp hx) h

example : (decimal (nearest (1 / 10))).text = "0.1" := by decide +kernel

/-! ## Numbers of a program -/

/-- A finite number of binary64. -/
structure Double where
  val : ℚ
  nearest_val : nearest val = val
  abs_lt : |val| < 2 ^ 1024
  deriving DecidableEq

/-- A number that is not `NaN`: a double, or an infinity with its sign. `JSON.parse` gives no
others, since a decimal that is too large becomes infinite. -/
inductive JsNumber where
  | finite (x : Double)
  | infinite (neg : Bool)
  deriving DecidableEq

namespace JsNumber

/-- The number a decimal is converted to.  What would round past the largest
double becomes infinite. -/
def ofRat (x : ℚ) : JsNumber :=
  if h : |nearest x| < 2 ^ 1024 then .finite ⟨nearest x, nearest_nearest x, h⟩
  else .infinite (decide (x < 0))

theorem abs_natCast_lt {m : ℕ} (h : m ≤ 2 ^ 53) : |(m : ℚ)| < 2 ^ 1024 := by
  rw [abs_of_nonneg m.cast_nonneg]
  calc (m : ℚ) ≤ 2 ^ 53 := by exact_mod_cast h
    _ < 2 ^ 1024 := pow_lt_pow_right₀ (by norm_num) (by norm_num)

/-- A natural number of at most 53 bits. -/
def ofNat (m : ℕ) (h : m ≤ 2 ^ 53) : JsNumber :=
  .finite ⟨m, nearest_natCast h, abs_natCast_lt h⟩

theorem one_short : 1 ≤ 2 ^ 53 := by norm_num

theorem two_short : 2 ≤ 2 ^ 53 := by norm_num

/-- A natural number of at most 53 bits is converted exactly. -/
theorem ofRat_natCast {m : ℕ} (h : m ≤ 2 ^ 53) : ofRat m = ofNat m h := by
  have hlt : |nearest (m : ℚ)| < 2 ^ 1024 := by
    rw [nearest_natCast h]
    exact abs_natCast_lt h
  rw [ofRat, dif_pos hlt, ofNat]
  simp only [finite.injEq, Double.mk.injEq]
  exact nearest_natCast h

/-- `x > bound`. -/
def Exceeds (x : JsNumber) (bound : ℚ) : Prop :=
  match x with
  | .finite x => bound < x.val
  | .infinite neg => neg = false

instance decidableExceeds (x : JsNumber) (bound : ℚ) : Decidable (x.Exceeds bound) :=
  match x with
  | .finite x => inferInstanceAs (Decidable (bound < x.val))
  | .infinite neg => inferInstanceAs (Decidable (neg = false))

/-- `String(x)`. -/
def text : JsNumber → Text
  | .finite x => (decimal x.val).text
  | .infinite true => "-Infinity"
  | .infinite false => "Infinity"

/-- `x > 0`. -/
def Positive (x : JsNumber) : Prop := x.Exceeds 0

instance decidablePositive (x : JsNumber) : Decidable x.Positive :=
  inferInstanceAs (Decidable (x.Exceeds 0))

/-- The value of a number; an infinity has none. -/
def value? : JsNumber → Option ℚ
  | .finite x => some x.val
  | .infinite _ => none

/-- The numeral `JSON.stringify` prints.  There is none for an infinity, which
is printed as `null`. -/
def numeral? : JsNumber → Option Numeral
  | .finite x => some (decimal x.val)
  | .infinite _ => none

/-- `Number.isFinite(x)`. -/
def isFinite (x : JsNumber) : Bool := x.value?.isSome

theorem value?_ofRat {x : ℚ} (h : |nearest x| < 2 ^ 1024) :
    (ofRat x).value? = some (nearest x) := by
  rw [ofRat, dif_pos h]
  rfl

end JsNumber

end Wire
