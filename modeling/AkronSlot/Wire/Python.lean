import AkronSlot.Wire.Numeral

/-!
# Texts in Python

What the services written in Python use of `str`: white space and `strip`, decimal digits of
every script and `isdigit`, `rfind`, and `float`.

The value of `float` is exact.  Rounding to a double, as everywhere in this development, is
left to whoever uses it.

## Which texts

The services strip and test titles and lines that come from other programs, so the functions are
those of all Unicode scalar values: white space and decimal digits of every script count, as
they do for `str`. The tables are the ones of the Unicode database, as ranges.

## Main Definitions

* `isspace`, `strip`
* `splitlines`
* `decimal?`, `isdigit`
* `rfind`
* `FloatValue`, `float`

## Main Results

* `stripBy_of_ends`
* `splitlines_newline`, `splitlines_one`
* `float_whole`, `float_fraction`, `float_two_points`
-/

namespace Wire.Python

/-! ## White space -/

/-- The white space of `str.isspace`. -/
def whitespace : List ℕ :=
  [0x9, 0xA, 0xB, 0xC, 0xD, 0x1C, 0x1D, 0x1E, 0x1F, 0x20, 0x85, 0xA0, 0x1680, 0x2000, 0x2001,
    0x2002, 0x2003, 0x2004, 0x2005, 0x2006, 0x2007, 0x2008, 0x2009, 0x200A, 0x2028, 0x2029, 0x202F,
    0x205F, 0x3000]

/-- `isspace` of one character. -/
def isspace (c : Char) : Bool := whitespace.contains c.toNat

/-- A text without the characters of a kind at its ends. -/
def stripBy (p : Char → Bool) (t : Text) : Text := (t.dropWhile p).rdropWhile p

/-- `s.strip()`. -/
def strip (t : Text) : Text := stripBy isspace t

/-- A text whose first and last characters are not of the kind keeps them. -/
theorem stripBy_of_ends {p : Char → Bool} {t : Text} (hfirst : ∀ c ∈ t.head?, p c = false)
    (hlast : ∀ c ∈ t.getLast?, p c = false) : stripBy p t = t := by
  have hdrop : t.dropWhile p = t := by
    cases t with
    | nil => rfl
    | cons c t => simp [hfirst c rfl]
  rw [stripBy, hdrop, List.rdropWhile_eq_self_iff]
  intro hne
  have hc := hlast (t.getLast hne) (List.getLast_mem_getLast? hne)
  simp [hc]

/-! ## Lines -/

/-- The characters that end a line for `splitlines`. -/
def lineBreaks : List ℕ := [0xA, 0xB, 0xC, 0xD, 0x1C, 0x1D, 0x1E, 0x85, 0x2028, 0x2029]

/-- The character ends a line. -/
def isLineBreak (c : Char) : Bool := lineBreaks.contains c.toNat

/-- Put a character in front of the first line; of none it makes one. -/
def consLine (c : Char) : List Text → List Text
  | [] => [[c]]
  | l :: ls => (c :: l) :: ls

/-- `s.splitlines()`: a carriage return and a newline end one line together. -/
def splitlines : Text → List Text
  | [] => []
  | [c] => if isLineBreak c then [[]] else [[c]]
  | c :: d :: t =>
      if c = '\r' ∧ d = '\n' then [] :: splitlines t
      else if isLineBreak c then [] :: splitlines (d :: t)
      else consLine c (splitlines (d :: t))

theorem splitlines_cons {c : Char} (hc : c ≠ '\r') (t : Text) :
    splitlines (c :: t) =
      if isLineBreak c then [] :: splitlines t else consLine c (splitlines t) := by
  cases t with
  | nil => rfl
  | cons d t => rw [splitlines, if_neg fun h => hc h.1]

theorem consLine_append (c : Char) {ls : List Text} (h : ls ≠ []) (ms : List Text) :
    consLine c ls ++ ms = consLine c (ls ++ ms) := by
  cases ls with
  | nil => exact absurd rfl h
  | cons l ls => rfl

@[simp] theorem splitlines_newline_cons (t : Text) :
    splitlines ('\n' :: t) = [] :: splitlines t := by
  rw [splitlines_cons (by decide), if_pos (by decide)]

theorem splitlines_ne_nil (c : Char) (t : Text) : splitlines (c :: t) ≠ [] := by
  cases t with
  | nil =>
      rw [splitlines]
      split_ifs <;> simp
  | cons d t =>
      rw [splitlines]
      split_ifs
      · simp
      · simp
      · cases splitlines (d :: t) <;> simp [consLine]

/-- **A newline ends a line wherever it stands.** -/
theorem splitlines_newline (s t : Text) :
    splitlines (s ++ '\n' :: t) = splitlines (s ++ ['\n']) ++ splitlines t := by
  have hbreak : isLineBreak '\n' = true := by decide
  induction s using splitlines.induct with
  | case1 => simp [splitlines]
  | case2 c hc =>
      simp only [List.cons_append, List.nil_append, splitlines, hc]
      by_cases hr : c = '\r' <;> simp [hr, hbreak]
  | case3 c hc =>
      have hr : c ≠ '\r' := fun h => hc (h ▸ by decide)
      simp [splitlines, hr, hc, consLine, hbreak]
  | case4 c d s hpair ih =>
      simp only [List.cons_append, splitlines, hpair]
      simpa using ih
  | case5 c d s hpair hc ih =>
      simp only [List.cons_append, splitlines, if_neg hpair, if_pos hc] at ih ⊢
      rw [ih]
  | case6 c d s hpair hc ih =>
      simp only [List.cons_append, splitlines, if_neg hpair, hc] at ih ⊢
      rw [ih]
      exact (consLine_append c (splitlines_ne_nil _ _) _).symm

/-- A text without line breaks is one line. -/
theorem splitlines_one {t : Text} (h : ∀ c ∈ t, isLineBreak c = false) :
    splitlines (t ++ ['\n']) = [t] := by
  induction t with
  | nil => rfl
  | cons c t ih =>
      obtain ⟨hc, ht⟩ := List.forall_mem_cons.mp h
      have hr : c ≠ '\r' := by
        rintro rfl
        revert hc
        decide
      rw [List.cons_append, splitlines_cons hr, ih ht, hc]
      rfl

/-! ## Digits -/

/-- The zeros of the decimal digits of every script; the nine others follow each. -/
def zeros : List ℕ :=
  [0x30, 0x660, 0x6F0, 0x7C0, 0x966, 0x9E6, 0xA66, 0xAE6, 0xB66, 0xBE6, 0xC66, 0xCE6, 0xD66, 0xDE6,
    0xE50, 0xED0, 0xF20, 0x1040, 0x1090, 0x17E0, 0x1810, 0x1946, 0x19D0, 0x1A80, 0x1A90, 0x1B50,
    0x1BB0, 0x1C40, 0x1C50, 0xA620, 0xA8D0, 0xA900, 0xA9D0, 0xA9F0, 0xAA50, 0xABF0, 0xFF10, 0x104A0,
    0x10D30, 0x11066, 0x110F0, 0x11136, 0x111D0, 0x112F0, 0x11450, 0x114D0, 0x11650, 0x116C0,
    0x11730, 0x118E0, 0x11950, 0x11C50, 0x11D50, 0x11DA0, 0x16A60, 0x16AC0, 0x16B50, 0x1D7CE,
    0x1D7D8, 0x1D7E2, 0x1D7EC, 0x1D7F6, 0x1E140, 0x1E2F0, 0x1E950, 0x1FBF0]

/-- The digits that are not decimal (superscripts, circled digits and so on), first and last of
each range. -/
def otherDigits : List (ℕ × ℕ) :=
  [(0xB2, 0xB3), (0xB9, 0xB9), (0x1369, 0x1371), (0x19DA, 0x19DA), (0x2070, 0x2070),
    (0x2074, 0x2079), (0x2080, 0x2089), (0x2460, 0x2468), (0x2474, 0x247C), (0x2488, 0x2490),
    (0x24EA, 0x24EA), (0x24F5, 0x24FD), (0x24FF, 0x24FF), (0x2776, 0x277E), (0x2780, 0x2788),
    (0x278A, 0x2792), (0x10A40, 0x10A43), (0x10E60, 0x10E68), (0x11052, 0x1105A),
    (0x1F100, 0x1F10A)]

/-- The value of a decimal digit. -/
def decimal? (c : Char) : Option ℕ :=
  (zeros.find? fun z => decide (z ≤ c.toNat ∧ c.toNat < z + 10)).map (c.toNat - ·)

/-- `s.isdigit()`. -/
def isdigit (t : Text) : Bool :=
  t ≠ [] ∧ t.all fun c =>
    (decimal? c).isSome || otherDigits.any fun r => decide (r.1 ≤ c.toNat ∧ c.toNat ≤ r.2)

theorem isdigit_digitsText {ds : List Digit} (h : ds ≠ []) : isdigit (digitsText ds) = true := by
  have hdigit : ∀ d : Digit, (decimal? d.char).isSome = true := by decide
  have hne : digitsText ds ≠ [] := by simpa [digitsText] using h
  have hall : ∀ c ∈ digitsText ds, (decimal? c).isSome = true := by
    intro c hc
    obtain ⟨d, -, rfl⟩ := List.mem_map.mp hc
    exact hdigit d
  unfold isdigit
  simp only [ne_eq, hne, not_false_eq_true, true_and, decide_eq_true_eq, List.all_eq_true]
  intro c hc
  rw [hall c hc, Bool.true_or]

/-! ## Positions -/

/-- `s.rfind(c)`. -/
def rfind (c : Char) : Text → ℤ
  | [] => -1
  | x :: t => if 0 ≤ rfind c t then rfind c t + 1 else if x = c then 0 else -1

theorem rfind_of_notMem {c : Char} {t : Text} (h : c ∉ t) : rfind c t = -1 := by
  induction t with
  | nil => rfl
  | cons x t ih =>
      rw [List.mem_cons, not_or] at h
      obtain ⟨hx, ht⟩ := h
      simp [rfind, ih ht, Ne.symm hx]

theorem rfind_lt_length (c : Char) (t : Text) : rfind c t < t.length := by
  induction t with
  | nil => simp [rfind]
  | cons x t ih =>
      simp only [rfind, List.length_cons, Nat.cast_add, Nat.cast_one]
      split_ifs <;> omega

/-- The last occurrence is the one after which there is none. -/
theorem rfind_append_cons {c : Char} {t : Text} (h : c ∉ t) (s : Text) :
    rfind c (s ++ c :: t) = s.length := by
  induction s with
  | nil => simp [rfind, rfind_of_notMem h]
  | cons x s ih => simp [rfind, ih, show (0 : ℤ) ≤ s.length from by omega]

theorem rfind_append {c : Char} {t : Text} (h : c ∉ t) (s : Text) :
    rfind c (s ++ t) = rfind c s := by
  induction s with
  | nil => exact rfind_of_notMem h
  | cons x s ih => simp only [List.cons_append, rfind, ih]

/-! ## Numbers -/

/-- A value of `float`. -/
inductive FloatValue where
  | finite (q : ℚ)
  | infinity (neg : Bool)
  | nan
  deriving DecidableEq

/-- White space becomes a space and a decimal digit its ASCII digit; what else is no ASCII
becomes a question mark. -/
def toAscii (c : Char) : Char :=
  if c.toNat < 0x80 then c
  else if isspace c then ' '
  else
    match decimal? c with
    | some d => Nat.digitChar d
    | none => '?'

/-- The white space of ASCII that `float` strips. -/
def asciiSpace (c : Char) : Bool := c = ' ' || (0x9 ≤ c.toNat && c.toNat ≤ 0xD)

/-- Every underscore stands between two digits. -/
def underscoresOk : Option Char → Text → Bool
  | before, [] => before ≠ some '_'
  | before, c :: t =>
      (c ≠ '_' || before.any Char.isDigit) && (before ≠ some '_' || c.isDigit) &&
        underscoresOk (some c) t

/-- A sign, if one is there: whether it is a minus, and the rest. -/
def scanSign : Text → Bool × Text
  | '-' :: t => (true, t)
  | '+' :: t => (false, t)
  | t => (false, t)

/-- The digits before and after an optional point, and the rest. -/
def scanMantissa (t : Text) : List Digit × List Digit × Text :=
  match digitRun t with
  | (whole, '.' :: t) => (whole, digitRun t)
  | (whole, t) => (whole, [], t)

/-- An exponent, or nothing, up to the end. -/
def scanExponent : Text → Option ℤ
  | [] => some 0
  | c :: t =>
      if c = 'e' ∨ c = 'E' then
        match digitRun (scanSign t).2 with
        | (d :: ds, []) => some ((if (scanSign t).1 then -1 else 1) * digitsValue (d :: ds))
        | _ => none
      else none

/-- The number of a text without a sign: it has a digit before or after the point. -/
def unsigned (t : Text) : Option ℚ :=
  match scanMantissa t with
  | (whole, frac, rest) =>
      if whole ++ frac = [] then none
      else
        (scanExponent rest).map fun e : ℤ =>
          (digitsValue (whole ++ frac) : ℚ) * 10 ^ (e - (frac.length : ℤ))

/-- The number of a text without white space and underscores. -/
def number (t : Text) : Option FloatValue :=
  let (neg, t) := scanSign t
  let lower := t.map Char.toLower
  if lower = "inf".toList ∨ lower = "infinity".toList then some (.infinity neg)
  else if lower = "nan".toList then some .nan
  else (unsigned t).map fun q => .finite (if neg then -q else q)

/-- `float(s)`; `none` is a ValueError. -/
def float (t : Text) : Option FloatValue :=
  let t := stripBy asciiSpace (t.map toAscii)
  if underscoresOk none t then number (t.filter (· ≠ '_')) else none

/-- A digit or a point. -/
def DigitOrPoint (c : Char) : Prop := c = '.' ∨ ∃ d : Digit, c = d.char

theorem digitOrPoint_digitsText (ds : List Digit) : ∀ c ∈ digitsText ds, DigitOrPoint c := by
  intro c hc
  obtain ⟨d, -, rfl⟩ := List.mem_map.mp hc
  exact .inr ⟨d, rfl⟩

namespace DigitOrPoint

variable {c : Char}

theorem toAscii_eq (h : DigitOrPoint c) : toAscii c = c := by
  have hdigit : ∀ d : Digit, toAscii d.char = d.char := by decide
  obtain rfl | ⟨d, rfl⟩ := h
  · rfl
  · exact hdigit d

theorem asciiSpace_eq (h : DigitOrPoint c) : asciiSpace c = false := by
  have hdigit : ∀ d : Digit, asciiSpace d.char = false := by decide
  obtain rfl | ⟨d, rfl⟩ := h
  · rfl
  · exact hdigit d

theorem ne_underscore (h : DigitOrPoint c) : c ≠ '_' := by
  have hdigit : ∀ d : Digit, d.char ≠ '_' := by decide
  obtain rfl | ⟨d, rfl⟩ := h
  · decide
  · exact hdigit d

/-- It is no sign and starts neither `inf` nor `nan`. -/
theorem starts_number (h : DigitOrPoint c) :
    c ≠ '-' ∧ c ≠ '+' ∧ c.toLower ≠ 'i' ∧ c.toLower ≠ 'n' := by
  have hdigit : ∀ d : Digit,
      d.char ≠ '-' ∧ d.char ≠ '+' ∧ d.char.toLower ≠ 'i' ∧ d.char.toLower ≠ 'n' := by decide
  obtain rfl | ⟨d, rfl⟩ := h
  · decide
  · exact hdigit d

end DigitOrPoint

theorem underscoresOk_of_notMem {before : Option Char} {t : Text} (hbefore : before ≠ some '_')
    (h : '_' ∉ t) : underscoresOk before t = true := by
  induction t generalizing before with
  | nil => simp [underscoresOk, hbefore]
  | cons c t ih =>
      rw [List.mem_cons, not_or] at h
      have hc : c ≠ '_' := Ne.symm h.1
      have htail : underscoresOk (some c) t = true := ih (by simpa using hc) h.2
      simp [underscoresOk, hc, hbefore, htail]

/-- The number of a text of digits and points. -/
theorem number_of_digitOrPoint {t : Text} (h : ∀ c ∈ t, DigitOrPoint c) :
    number t = (unsigned t).map .finite := by
  cases t with
  | nil => rfl
  | cons c t =>
      obtain ⟨hminus, hplus, hi, hn⟩ := (h c List.mem_cons_self).starts_number
      have hsign : scanSign (c :: t) = (false, c :: t) := by simp [scanSign, hminus, hplus]
      simp [number, hsign, hi, hn]

theorem float_of_digitOrPoint {t : Text} (h : ∀ c ∈ t, DigitOrPoint c) :
    float t = (unsigned t).map .finite := by
  have hascii : t.map toAscii = t := by
    have hid : t.map toAscii = t.map id := List.map_congr_left fun c hc => (h c hc).toAscii_eq
    rw [hid, List.map_id]
  have hstrip : stripBy asciiSpace t = t :=
    stripBy_of_ends (fun c hc => (h c (List.mem_of_mem_head? hc)).asciiSpace_eq)
      (fun c hc => (h c (List.mem_of_getLast? hc)).asciiSpace_eq)
  have hscore : '_' ∉ t := fun hmem => (h _ hmem).ne_underscore rfl
  have hfilter : t.filter (· ≠ '_') = t := by
    rw [List.filter_eq_self]
    intro c hc
    simpa using (h c hc).ne_underscore
  rw [float, hascii, hstrip, if_pos (underscoresOk_of_notMem (by simp) hscore), hfilter,
    number_of_digitOrPoint h]

/-- **Digits are their number.** -/
theorem float_whole {ds : List Digit} (h : ds ≠ []) :
    float (digitsText ds) = some (.finite (digitsValue ds)) := by
  have hrun : digitRun (digitsText ds) = (ds, []) := by
    simpa using digitRun_append ds noDigit_nil
  rw [float_of_digitOrPoint (digitOrPoint_digitsText ds)]
  simp [unsigned, scanMantissa, hrun, h, scanExponent]

/-- **Digits around a point are their number.** -/
theorem float_fraction {ds : List Digit} (h : ds ≠ []) (fs : List Digit) :
    float (digitsText ds ++ '.' :: digitsText fs) =
      some (.finite (digitsValue (ds ++ fs) / 10 ^ fs.length)) := by
  have hchars : ∀ c ∈ digitsText ds ++ '.' :: digitsText fs, DigitOrPoint c := by
    simp only [List.mem_append, List.mem_cons]
    rintro c (hc | rfl | hc)
    · exact digitOrPoint_digitsText ds c hc
    · exact .inl rfl
    · exact digitOrPoint_digitsText fs c hc
  have hwhole : digitRun (digitsText ds ++ '.' :: digitsText fs) = (ds, '.' :: digitsText fs) :=
    digitRun_append ds (noDigit_cons.mpr (by decide))
  have hfrac : digitRun (digitsText fs) = (fs, []) := by
    simpa using digitRun_append fs noDigit_nil
  rw [float_of_digitOrPoint hchars]
  simp [unsigned, scanMantissa, hwhole, hfrac, h, scanExponent, div_eq_mul_inv]

/-- **Digits with two points among them are no number.** -/
theorem float_two_points (ds fs : List Digit) {t : Text} (ht : ∀ c ∈ t, DigitOrPoint c) :
    float (digitsText ds ++ '.' :: (digitsText fs ++ '.' :: t)) = none := by
  have hchars : ∀ c ∈ digitsText ds ++ '.' :: (digitsText fs ++ '.' :: t), DigitOrPoint c := by
    simp only [List.mem_append, List.mem_cons]
    rintro c (hc | rfl | hc | rfl | hc)
    · exact digitOrPoint_digitsText ds c hc
    · exact .inl rfl
    · exact digitOrPoint_digitsText fs c hc
    · exact .inl rfl
    · exact ht c hc
  have hwhole := digitRun_append ds (t := '.' :: (digitsText fs ++ '.' :: t))
    (noDigit_cons.mpr (by decide))
  have hfrac := digitRun_append fs (t := '.' :: t) (noDigit_cons.mpr (by decide))
  rw [float_of_digitOrPoint hchars]
  simp [unsigned, scanMantissa, hwhole, hfrac, scanExponent]

end Wire.Python
