import AkronSlot.Wire.Double

/-!
# The MQL5 built-in functions SlotService uses

The string and number conversions of the MQL5 standard library, under their own
names.  MQL5 integers are the machine integers of a 64-bit target: a `ulong`
is a natural number below `2 ^ 64`, and a cast to `long` or `int` reinterprets
its low bits in two's complement.  A `double` is the rational number it denotes,
so what makes one out of a text rounds to binary64.

## Texts and numbers

The handlers read numbers with `StringToInteger` and `StringToDouble`, which take what a text
starts with and ignore the rest; a text that is no number is zero, and no handler can tell the
two apart. They write numbers with format directives, whose digits are those of `Numeral.fixed`.

`stringToDouble_text` is the fact on which the correspondence with the TypeScript side rests:
both sides round a JSON number to the same double.
-/

namespace AkronSlot.Mql5

open Wire

/-! ## Casts -/

/-- The two's complement value of the low `w` bits of `u`. Both casts of the handlers, to `long`
and to `int`, are this with a width. -/
def toSigned (w u : ℕ) : ℤ :=
  if u % 2 ^ w < 2 ^ (w - 1) then (u % 2 ^ w : ℕ) else (u % 2 ^ w : ℕ) - (2 : ℤ) ^ w

/-- The cast `(long)u` of a `ulong`. -/
def asLong (u : ℕ) : ℤ := toSigned 64 u

/-- The conversion of a `ulong` argument to an `int` parameter. A ticket that is passed for an
index goes through it, and a ticket of more than 31 bits becomes another number. -/
def asInt (u : ℕ) : ℤ := toSigned 32 u

/-- The cast `(ulong)i` of a `long`. -/
def asUlong (i : ℤ) : ℕ := (i % 2 ^ 64).toNat

theorem asLong_of_lt {u : ℕ} (h : u < 2 ^ 63) : asLong u = u := by
  have hmod : u % 2 ^ 64 = u := Nat.mod_eq_of_lt (by omega)
  simp only [asLong, toSigned, hmod]
  rw [if_pos (by omega)]

/-! ## Numbers to text -/

/-- `IntegerToString`, `%d` and `%I64d` of a signed integer. -/
def integerToString (i : ℤ) : Text :=
  if i < 0 then '-' :: natText i.natAbs else natText i.natAbs

theorem integerToString_natCast (n : ℕ) : integerToString n = natText n := by
  simp [integerToString]

/-- `DoubleToString(x, digits)` and `%.<digits>f`. -/
def doubleToString (x : ℚ) (digits : ℕ) : Text := (Numeral.fixed digits x).text

/-- The text of an integer has no character but digits and a minus sign. -/
theorem integerToString_notMem {c : Char} (hd : digitOf? c = none) (hm : c ≠ '-') (i : ℤ) :
    c ∉ integerToString i := by
  have hnat := natText_notMem hd i.natAbs
  unfold integerToString
  split
  · simp [hm, hnat]
  · exact hnat

/-! ## Text to numbers -/

/-- The blanks number conversions skip: the space and the control characters from tab to carriage
return. -/
def isSpace (c : Char) : Bool := c = ' ' || (decide (9 ≤ c.toNat) && decide (c.toNat ≤ 13))

/-- `StringToInteger`: the decimal integer a text starts with, clamped to
`long`; zero when there is none. -/
def stringToInteger (t : Text) : ℤ :=
  match t.dropWhile isSpace with
  | '-' :: t => max (-(digitsValue (digitRun t).1 : ℤ)) (-2 ^ 63)
  | '+' :: t => min (digitsValue (digitRun t).1 : ℤ) (2 ^ 63 - 1)
  | t => min (digitsValue (digitRun t).1 : ℤ) (2 ^ 63 - 1)

/-- The fraction digits after a whole part, and what follows them. -/
def fractionRun (t : Text) : List Digit × Text :=
  match t with
  | '.' :: t => digitRun t
  | t => ([], t)

/-- The exponent a text starts with; zero when it is not a complete one. -/
def exponentOf (t : Text) : ℤ :=
  match scanExp t with
  | some (some e, _) => e.value
  | _ => 0

/-- The value of the unsigned decimal a text starts with. -/
def unsignedDecimal (t : Text) : ℚ :=
  let whole := digitRun t
  let frac := fractionRun whole.2
  (digitsValue (whole.1 ++ frac.1) : ℚ) *
    (10 : ℚ) ^ (exponentOf frac.2 - (frac.1.length : ℤ))

/-- The value of the decimal a text starts with, zero when there is none. A sign may stand before
it, and blanks before that. -/
def decimalPart (t : Text) : ℚ :=
  match t.dropWhile isSpace with
  | '-' :: t => -unsignedDecimal t
  | '+' :: t => unsignedDecimal t
  | t => unsignedDecimal t

/-- `StringToDouble`: the double nearest to the decimal a text starts with.  A
decimal past the largest double is left unbounded here; none is ever printed by
`JSON.stringify`, whose texts the handlers read. -/
def stringToDouble (t : Text) : ℚ := nearest (decimalPart t)

/-! ## What the conversions read back -/

/-- A digit is neither a blank nor a sign. -/
theorem digit_no_lead (d : Digit) :
    isSpace d.char = false ∧ d.char ≠ '-' ∧ d.char ≠ '+' := by
  revert d
  decide

theorem Whole.digits_eq_cons (w : Whole) : ∃ d ds, w.digits = d :: ds := by
  cases w with
  | zero => exact ⟨_, _, rfl⟩
  | pos first rest => exact ⟨_, _, rfl⟩

/-- The decimal text of a natural number is read back, clamped to `long`. -/
theorem stringToInteger_natText (n : ℕ) :
    stringToInteger (natText n) = min (n : ℤ) (2 ^ 63 - 1) := by
  obtain ⟨d, ds, hdigits⟩ := Whole.digits_eq_cons (Whole.ofNat n)
  obtain ⟨hspace, hminus, hplus⟩ := digit_no_lead d
  have hvalue := Whole.value_ofNat n
  have hrun := digitRun_append (d :: ds) noDigit_nil
  rw [hdigits] at hvalue
  simp only [digitsText_cons, List.append_nil] at hrun
  simp only [natText, hdigits, digitsText_cons, stringToInteger]
  rw [List.dropWhile_cons_of_neg (by simp [hspace])]
  split
  · next heq => exact absurd (List.cons.inj heq).1 hminus
  · next heq => exact absurd (List.cons.inj heq).1 hplus
  · rw [hrun, hvalue]

/-- The unsigned part of a numeral has the numeral's absolute value. -/
theorem unsignedDecimal_text (w : Whole) (ds : List Digit) (e : Option Exponent) :
    unsignedDecimal (digitsText w.digits ++ (Numeral.fracText ds ++ Numeral.expText e)) =
      (Numeral.mk false w ds e).value := by
  have hends := noDigit_expText e endsNumeral_nil
  rw [List.append_nil] at hends
  have hscan := scanExp_text e endsNumeral_nil
  rw [List.append_nil] at hscan
  have hexp : exponentOf (Numeral.expText e) = e.elim 0 Exponent.value := by
    cases e <;> simp [exponentOf, hscan]
  have hfrac : fractionRun (Numeral.fracText ds ++ Numeral.expText e) =
      (ds, Numeral.expText e) := by
    cases ds with
    | nil =>
        obtain ⟨-, hdot⟩ := hends
        simp only [Numeral.fracText, List.nil_append]
        unfold fractionRun
        split
        · next heq => simp [heq] at hdot
        · rfl
    | cons d ds => exact digitRun_append (d :: ds) hends.1
  have hwhole := digitRun_append w.digits (noDigit_fracText ds hends.1)
  simp [unsignedDecimal, hwhole, hfrac, hexp, Numeral.value]

theorem decimalPart_text (n : Numeral) : decimalPart n.text = n.value := by
  obtain ⟨neg, w, ds, e⟩ := n
  have hunsigned := unsignedDecimal_text w ds e
  cases neg with
  | true =>
      simp only [Numeral.text, if_true, List.singleton_append, decimalPart]
      rw [List.dropWhile_cons_of_neg (by decide)]
      simp only [hunsigned]
      simp [Numeral.value]
  | false =>
      obtain ⟨d, ds', hdigits⟩ := Whole.digits_eq_cons w
      obtain ⟨hspace, hminus, hplus⟩ := digit_no_lead d
      simp only [Numeral.text, Bool.false_eq_true, if_false, List.nil_append, decimalPart]
      simp only [hdigits, digitsText_cons, List.cons_append] at hunsigned ⊢
      rw [List.dropWhile_cons_of_neg (by simp [hspace])]
      split
      · next heq => exact absurd (List.cons.inj heq).1 hminus
      · next heq => exact absurd (List.cons.inj heq).1 hplus
      · exact hunsigned

/-- **`StringToDouble` of a JSON number is the nearest double.** -/
theorem stringToDouble_text (n : Numeral) : stringToDouble n.text = nearest n.value := by
  rw [stringToDouble, decimalPart_text]

/-- A text that starts with neither blank, sign nor digit converts to zero. -/
theorem stringToDouble_of_noNumber {c : Char} {t : Text} (hspace : isSpace c = false)
    (hdigit : digitOf? c = none) (hc : c ∉ numeralMarks) : stringToDouble (c :: t) = 0 := by
  suffices hdecimal : decimalPart (c :: t) = 0 by rw [stringToDouble, hdecimal, nearest_zero]
  simp only [numeralMarks, List.mem_cons, List.not_mem_nil, or_false, not_or] at hc
  obtain ⟨hminus, hplus, hdot, -, -⟩ := hc
  have hrun : digitRun (c :: t) = ([], c :: t) := digitRun_of_noDigit (noDigit_cons.mpr hdigit)
  have hfrac : fractionRun (c :: t) = ([], c :: t) := by
    unfold fractionRun
    split
    · next heq => exact absurd (List.cons.inj heq).1 hdot
    · rfl
  unfold decimalPart
  rw [List.dropWhile_cons_of_neg (by simp [hspace])]
  split
  · next heq => exact absurd (List.cons.inj heq).1 hminus
  · next heq => exact absurd (List.cons.inj heq).1 hplus
  · simp [unsignedDecimal, hrun, hfrac, digitsValue]

@[simp] theorem stringToDouble_nil : stringToDouble [] = 0 := by
  simp [stringToDouble, decimalPart, unsignedDecimal, digitRun, fractionRun, digitsValue]

end AkronSlot.Mql5
