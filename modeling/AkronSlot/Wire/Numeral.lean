import AkronSlot.Wire.Text

/-!
# Decimal numerals

The decimal notation that JSON texts, `printf` formats and string-to-number
conversions share: an optional sign, a whole part, a fraction and an exponent.

## Notation and value

A `Numeral` is the parsed form, and its fields are exactly the freedom the JSON
grammar leaves, so that every value of the type prints as a number a JSON
parser reads back (`scanNumeral_text`).  `Numeral.value` is its exact rational
value; rounding to a machine format is left to whoever uses it.

## Main Definitions

* `Numeral`, `Numeral.text`, `Numeral.value` — notation, its text, its value
* `scanNumeral` — the longest numeral a text starts with (JSON grammar)
* `Numeral.ofNat`, `Numeral.fixed` — `%d` and `%.kf` notation of a number
-/

namespace Wire

/-! ## Digits -/

/-- A decimal digit. -/
abbrev Digit := Fin 10

/-- The character of a digit. -/
def Digit.char (d : Digit) : Char := Nat.digitChar d.val

/-- The digit a character stands for. -/
def digitOf? (c : Char) : Option Digit :=
  if h : '0'.toNat ≤ c.toNat ∧ c.toNat ≤ '9'.toNat then
    some ⟨c.toNat - '0'.toNat, by have := h.2; simp at this; simp; omega⟩
  else none

@[simp] theorem digitOf?_char (d : Digit) : digitOf? d.char = some d := by
  revert d
  decide

/-- The text of a digit string. -/
def digitsText (ds : List Digit) : Text := ds.map Digit.char

@[simp] theorem digitsText_nil : digitsText [] = [] := rfl

@[simp] theorem digitsText_cons (d : Digit) (ds : List Digit) :
    digitsText (d :: ds) = d.char :: digitsText ds := rfl

/-- The value of a digit string, most significant digit first. -/
def digitsValue (ds : List Digit) : ℕ := ds.foldl (fun n d => 10 * n + d.val) 0

theorem digitsValue_concat (ds : List Digit) (d : Digit) :
    digitsValue (ds ++ [d]) = 10 * digitsValue ds + d.val := by
  simp [digitsValue]

theorem digitsValue_append (ds es : List Digit) :
    digitsValue (ds ++ es) = digitsValue ds * 10 ^ es.length + digitsValue es := by
  induction es using List.reverseRecOn with
  | nil => simp [digitsValue]
  | append_singleton es e ih =>
      rw [← List.append_assoc, digitsValue_concat, ih, digitsValue_concat, List.length_append,
        List.length_singleton]
      ring

/-- The digits a text starts with, and the rest of the text. -/
def digitRun : Text → List Digit × Text
  | [] => ([], [])
  | c :: t =>
      match digitOf? c with
      | some d => (d :: (digitRun t).1, (digitRun t).2)
      | none => ([], c :: t)

/-- A text that does not start with a digit. -/
def NoDigit (t : Text) : Prop := ∀ c ∈ t.head?, digitOf? c = none

theorem noDigit_nil : NoDigit [] := by simp [NoDigit]

theorem noDigit_cons {c : Char} {t : Text} : NoDigit (c :: t) ↔ digitOf? c = none := by
  simp [NoDigit]

theorem digitRun_of_noDigit {t : Text} (h : NoDigit t) : digitRun t = ([], t) := by
  cases t with
  | nil => rfl
  | cons c t => simp [digitRun, noDigit_cons.mp h]

/-- The run stops exactly where a digit string is followed by something else. -/
theorem digitRun_append (ds : List Digit) {t : Text} (h : NoDigit t) :
    digitRun (digitsText ds ++ t) = (ds, t) := by
  induction ds with
  | nil => exact digitRun_of_noDigit h
  | cons d ds ih => simp [digitRun, ih]

/-- Digit characters are none of the characters that delimit or quote. -/
theorem digitsText_notMem {ds : List Digit} {c : Char} (h : digitOf? c = none) :
    c ∉ digitsText ds := by
  intro hc
  obtain ⟨d, -, rfl⟩ := List.mem_map.mp hc
  simp at h

/-! ## Numerals -/

/-- The whole part of a JSON number: zero, or digits that start above zero. A leading zero cannot
be built. -/
inductive Whole where
  | zero
  | pos (first : Fin 9) (rest : List Digit)
  deriving DecidableEq, Repr

/-- The digits of a whole part. -/
def Whole.digits : Whole → List Digit
  | .zero => [0]
  | .pos first rest => first.succ :: rest

/-- The exponent of a JSON number: its letter, its sign character if one is
written (`true` for minus), and its digits. -/
structure Exponent where
  upper : Bool
  sign : Option Bool
  first : Digit
  rest : List Digit
  deriving DecidableEq, Repr

/-- The text of an exponent. -/
def Exponent.text (e : Exponent) : Text :=
  (if e.upper then 'E' else 'e') ::
    ((match e.sign with
      | none => []
      | some true => ['-']
      | some false => ['+']) ++ digitsText (e.first :: e.rest))

/-- The value of an exponent. -/
def Exponent.value (e : Exponent) : ℤ :=
  match e.sign with
  | some true => -(digitsValue (e.first :: e.rest) : ℤ)
  | _ => digitsValue (e.first :: e.rest)

/-- A JSON number as it is written. An empty `frac` means that no decimal point is written. Two
numerals of one value may differ, as `1.0` and `1` do, and a program that passes a notation on
keeps it. -/
structure Numeral where
  neg : Bool
  whole : Whole
  frac : List Digit
  exp : Option Exponent
  deriving DecidableEq, Repr

namespace Numeral

/-- The text of the fraction and of the exponent. -/
def fracText (ds : List Digit) : Text :=
  match ds with
  | [] => []
  | d :: ds => '.' :: digitsText (d :: ds)

/-- The text of an optional exponent. -/
def expText (e : Option Exponent) : Text :=
  match e with
  | none => []
  | some e => e.text

/-- The text of a numeral. -/
def text (n : Numeral) : Text :=
  (if n.neg then ['-'] else []) ++
    (digitsText n.whole.digits ++ (fracText n.frac ++ expText n.exp))

/-- The exact value of a numeral. -/
def value (n : Numeral) : ℚ :=
  (if n.neg then -1 else 1) * (digitsValue (n.whole.digits ++ n.frac) : ℚ) *
    (10 : ℚ) ^ ((n.exp.elim 0 Exponent.value) - (n.frac.length : ℤ))

end Numeral

/-! ## Scanning -/

/-- The whole part a text starts with. -/
def scanWhole (t : Text) : Option (Whole × Text) :=
  match t with
  | [] => none
  | c :: t =>
      match digitOf? c with
      | none => none
      | some ⟨0, _⟩ => some (.zero, t)
      | some ⟨d + 1, h⟩ =>
          some (.pos ⟨d, by omega⟩ (digitRun t).1, (digitRun t).2)

/-- The fraction a text starts with; a decimal point asks for digits. -/
def scanFrac (t : Text) : Option (List Digit × Text) :=
  match t with
  | '.' :: t =>
      match digitRun t with
      | ([], _) => none
      | (ds, t) => some (ds, t)
  | t => some ([], t)

/-- The optional sign of an exponent. -/
def scanExpSign (t : Text) : Option Bool × Text :=
  match t with
  | '-' :: t => (some true, t)
  | '+' :: t => (some false, t)
  | t => (none, t)

/-- The digits of an exponent after its letter. -/
def scanExpDigits (upper : Bool) (t : Text) : Option (Option Exponent × Text) :=
  match digitRun (scanExpSign t).2 with
  | ([], _) => none
  | (d :: ds, t') => some (some ⟨upper, (scanExpSign t).1, d, ds⟩, t')

/-- The exponent a text starts with; its letter asks for digits. -/
def scanExp (t : Text) : Option (Option Exponent × Text) :=
  match t with
  | 'e' :: t => scanExpDigits false t
  | 'E' :: t => scanExpDigits true t
  | t => some (none, t)

/-- The parts of a numeral after its sign. -/
def scanUnsigned (neg : Bool) (t : Text) : Option (Numeral × Text) :=
  (scanWhole t).bind fun w =>
    (scanFrac w.2).bind fun f =>
      (scanExp f.2).map fun e => (⟨neg, w.1, f.1, e.1⟩, e.2)

/-- The numeral a text starts with, by the JSON grammar, and the rest. -/
def scanNumeral (t : Text) : Option (Numeral × Text) :=
  match t with
  | '-' :: t => scanUnsigned true t
  | t => scanUnsigned false t

/-- A text that no numeral continues into. -/
def EndsNumeral (t : Text) : Prop :=
  ∀ c ∈ t.head?, digitOf? c = none ∧ c ≠ '.' ∧ c ≠ 'e' ∧ c ≠ 'E'

theorem endsNumeral_nil : EndsNumeral [] := by simp [EndsNumeral]

theorem EndsNumeral.noDigit {t : Text} (h : EndsNumeral t) : NoDigit t :=
  fun c hc => (h c hc).1

theorem scanWhole_text (w : Whole) {t : Text} (h : NoDigit t) :
    scanWhole (digitsText w.digits ++ t) = some (w, t) := by
  cases w with
  | zero => simp [Whole.digits, scanWhole]
  | pos first rest =>
      have hrun := digitRun_append rest h
      have hdigit : digitOf? (Digit.char first.succ) = some first.succ := digitOf?_char first.succ
      simp only [Whole.digits, digitsText_cons, List.cons_append, scanWhole, hdigit, hrun]
      rfl

theorem scanFrac_text (ds : List Digit) {t : Text} (h : NoDigit t) (hdot : t.head? ≠ some '.') :
    scanFrac (Numeral.fracText ds ++ t) = some (ds, t) := by
  cases ds with
  | nil =>
      cases t with
      | nil => rfl
      | cons c t =>
          have hc : c ≠ '.' := by simpa using hdot
          simp [Numeral.fracText, scanFrac, hc]
  | cons d ds =>
      have hrun := digitRun_append (d :: ds) h
      simp only [digitsText_cons, List.cons_append] at hrun
      simp [Numeral.fracText, scanFrac, hrun]

/-- A digit is no sign character. -/
theorem Digit.char_ne_sign (d : Digit) : d.char ≠ '-' ∧ d.char ≠ '+' := by
  revert d
  decide

theorem scanExpDigits_text (e : Exponent) {t : Text} (h : NoDigit t) :
    ∃ body, e.text ++ t = (if e.upper then 'E' else 'e') :: body ∧
      scanExpDigits e.upper body = some (some e, t) := by
  obtain ⟨upper, sign, first, rest⟩ := e
  refine ⟨_, by simp only [Exponent.text, List.cons_append]; rfl, ?_⟩
  have hrun := digitRun_append (first :: rest) h
  simp only [digitsText_cons, List.cons_append] at hrun
  obtain ⟨hminus, hplus⟩ := Digit.char_ne_sign first
  match sign with
  | none => simp [scanExpDigits, scanExpSign, hminus, hplus, hrun]
  | some true => simp [scanExpDigits, scanExpSign, hrun]
  | some false => simp [scanExpDigits, scanExpSign, hrun]

theorem scanExp_text (e : Option Exponent) {t : Text} (h : EndsNumeral t) :
    scanExp (Numeral.expText e ++ t) = some (e, t) := by
  cases e with
  | none =>
      cases t with
      | nil => rfl
      | cons c t =>
          obtain ⟨-, -, he, hE⟩ := h c (by simp)
          simp [Numeral.expText, scanExp, he, hE]
  | some e =>
      obtain ⟨body, htext, hscan⟩ := scanExpDigits_text e h.noDigit
      simp only [Numeral.expText, htext]
      cases hu : e.upper with
      | true => simpa [scanExp, hu] using hscan
      | false => simpa [scanExp, hu] using hscan

/-- What follows the fraction of a numeral continues neither digits nor point. -/
theorem noDigit_expText (e : Option Exponent) {t : Text} (h : EndsNumeral t) :
    NoDigit (Numeral.expText e ++ t) ∧ (Numeral.expText e ++ t).head? ≠ some '.' := by
  cases e with
  | none =>
      refine ⟨h.noDigit, fun hdot => ?_⟩
      exact (h '.' hdot).2.1 rfl
  | some e => cases hu : e.upper <;> simp [Numeral.expText, Exponent.text, hu, NoDigit] <;> decide

theorem noDigit_fracText (ds : List Digit) {t : Text} (h : NoDigit t) :
    NoDigit (Numeral.fracText ds ++ t) := by
  cases ds with
  | nil => exact h
  | cons d ds => exact noDigit_cons.mpr (by decide)

theorem scanUnsigned_text (neg : Bool) (w : Whole) (ds : List Digit) (e : Option Exponent)
    {t : Text} (h : EndsNumeral t) :
    scanUnsigned neg
        (digitsText w.digits ++ (Numeral.fracText ds ++ (Numeral.expText e ++ t))) =
      some (⟨neg, w, ds, e⟩, t) := by
  obtain ⟨hdigit, hdot⟩ := noDigit_expText e h
  rw [scanUnsigned, scanWhole_text w (noDigit_fracText ds hdigit)]
  simp only [Option.bind_some, scanFrac_text ds hdigit hdot, scanExp_text e h, Option.map_some]

/-- A whole part does not start with a minus sign. -/
theorem Whole.digitsText_head_ne_minus (w : Whole) (t : Text) :
    (digitsText w.digits ++ t).head? ≠ some '-' := by
  cases w with
  | zero => simp [Whole.digits]; decide
  | pos first rest =>
      have := (Digit.char_ne_sign first.succ).1
      simpa [Whole.digits] using this

/-- **A numeral is read back from its own text**, whatever follows it, as long
as that does not continue a numeral. -/
theorem scanNumeral_text (n : Numeral) {t : Text} (h : EndsNumeral t) :
    scanNumeral (n.text ++ t) = some (n, t) := by
  obtain ⟨neg, w, ds, e⟩ := n
  have hscan := fun b => scanUnsigned_text b w ds e h
  cases neg with
  | true => simpa [Numeral.text, scanNumeral] using hscan true
  | false =>
      have hhead := Whole.digitsText_head_ne_minus w
        (Numeral.fracText ds ++ (Numeral.expText e ++ t))
      simp only [Numeral.text, Bool.false_eq_true, if_false, List.nil_append, List.append_assoc]
      unfold scanNumeral
      split
      · next t' heq => rw [heq] at hhead; simp at hhead
      · exact hscan false

/-! ## Characters of a numeral -/

/-- The characters of a numeral that are not digits. -/
def numeralMarks : List Char := ['-', '+', '.', 'e', 'E']

theorem Numeral.fracText_notMem {c : Char} (hd : digitOf? c = none) (hm : c ∉ numeralMarks)
    (ds : List Digit) : c ∉ fracText ds := by
  cases ds with
  | nil => simp [fracText]
  | cons d ds =>
      have hds : c ∉ digitsText (d :: ds) := digitsText_notMem hd
      simp only [fracText, List.mem_cons, not_or]
      refine ⟨?_, hds⟩
      rintro rfl
      simp [numeralMarks] at hm

theorem Exponent.text_notMem {c : Char} (hd : digitOf? c = none) (hm : c ∉ numeralMarks)
    (e : Exponent) : c ∉ e.text := by
  obtain ⟨upper, sign, first, rest⟩ := e
  have hds : c ∉ digitsText (first :: rest) := digitsText_notMem hd
  simp only [numeralMarks, List.mem_cons, List.not_mem_nil, or_false, not_or] at hm
  obtain ⟨hminus, hplus, -, he, hE⟩ := hm
  simp only [Exponent.text, List.mem_cons, List.mem_append, not_or]
  refine ⟨by split <;> assumption, ?_, hds⟩
  match sign with
  | none => simp
  | some true => simpa using hminus
  | some false => simpa using hplus

/-- A numeral has no character but digits, signs, a point and an exponent
letter. -/
theorem Numeral.text_notMem {c : Char} (hd : digitOf? c = none) (hm : c ∉ numeralMarks)
    (n : Numeral) : c ∉ n.text := by
  obtain ⟨neg, whole, frac, exp⟩ := n
  have hminus : c ≠ '-' := by
    rintro rfl
    simp [numeralMarks] at hm
  have hexp : c ∉ expText exp := by
    cases exp with
    | none => simp [expText]
    | some e => exact Exponent.text_notMem hd hm e
  simp only [text, List.mem_append, not_or]
  refine ⟨?_, digitsText_notMem hd, fracText_notMem hd hm frac, hexp⟩
  cases neg <;> simp [hminus]

/-! ## The notation of a number -/

/-- The whole part that denotes `n`. -/
def Whole.ofNat (n : ℕ) : Whole :=
  match (Nat.digits 10 n).reverse with
  | [] => .zero
  | d :: ds => .pos (Fin.ofNat 9 (d - 1)) (ds.map (Fin.ofNat 10))

theorem digitsValue_reverse {l : List ℕ} (h : ∀ d ∈ l, d < 10) :
    digitsValue (l.reverse.map (Fin.ofNat 10)) = Nat.ofDigits 10 l := by
  induction l with
  | nil => rfl
  | cons d l ih =>
      have hd : d < 10 := h d (by simp)
      have ih := ih fun e he => h e (by simp [he])
      rw [List.reverse_cons, List.map_append, List.map_singleton, digitsValue_concat, ih,
        Nat.ofDigits_cons]
      simp only [Fin.ofNat, Nat.mod_eq_of_lt hd]
      omega

/-- A whole part denotes the number it was made from. -/
theorem Whole.value_ofNat (n : ℕ) : digitsValue (Whole.ofNat n).digits = n := by
  have hlt : ∀ d ∈ Nat.digits 10 n, d < 10 := fun d hd => Nat.digits_lt_base (by omega) hd
  have hvalue := digitsValue_reverse hlt
  rw [Nat.ofDigits_digits] at hvalue
  unfold Whole.ofNat
  split
  · next heq =>
      rw [heq] at hvalue
      simpa [Whole.digits, digitsValue] using hvalue
  · next d ds heq =>
      have hne : Nat.digits 10 n ≠ [] := by
        intro hnil
        simp [hnil] at heq
      have hn : n ≠ 0 := Nat.digits_ne_nil_iff_ne_zero.mp hne
      have hlast : d = (Nat.digits 10 n).getLast hne := by
        have := List.head_reverse (l := Nat.digits 10 n) (by simpa using hne)
        simpa [heq] using this
      have hpos : d ≠ 0 := by
        rw [hlast]
        exact Nat.getLast_digit_ne_zero 10 hn
      have hd10 : d < 10 := by
        rw [hlast]
        exact hlt _ (List.getLast_mem hne)
      have hsucc : (Fin.ofNat 9 (d - 1)).succ = Fin.ofNat 10 d := by
        apply Fin.ext
        simp only [Fin.ofNat, Fin.val_succ, Nat.mod_eq_of_lt hd10]
        omega
      rw [heq] at hvalue
      simp only [Whole.digits, hsucc]
      exact hvalue

/-- The decimal text of a natural number. -/
def natText (n : ℕ) : Text := digitsText (Whole.ofNat n).digits

/-- The last `k` decimal digits of `n`, most significant first. -/
def lastDigits : ℕ → ℕ → List Digit
  | 0, _ => []
  | k + 1, n => lastDigits k (n / 10) ++ [Fin.ofNat 10 n]

@[simp] theorem length_lastDigits (k n : ℕ) : (lastDigits k n).length = k := by
  induction k generalizing n with
  | zero => rfl
  | succ k ih => simp [lastDigits, ih]

theorem digitsValue_lastDigits (k n : ℕ) : digitsValue (lastDigits k n) = n % 10 ^ k := by
  induction k generalizing n with
  | zero => simp [lastDigits, digitsValue, Nat.mod_one]
  | succ k ih =>
      rw [lastDigits, digitsValue_concat, ih, Nat.pow_succ', Nat.mod_mul]
      simp only [Fin.ofNat]
      omega

/-- The numeral of `q` with exactly `k` decimals, halves away from zero, as
`printf("%.kf")` writes it. -/
def Numeral.fixed (k : ℕ) (q : ℚ) : Numeral :=
  let scaled := ⌊|q| * 10 ^ k + 1 / 2⌋₊
  ⟨decide (q < 0), Whole.ofNat (scaled / 10 ^ k), lastDigits k (scaled % 10 ^ k), none⟩

/-- The value of a numeral with `k` decimals. -/
theorem Numeral.value_fixed (k : ℕ) (x : ℚ) :
    (fixed k x).value =
      (if x < 0 then -1 else 1) * (⌊|x| * 10 ^ k + 1 / 2⌋₊ : ℚ) / 10 ^ k := by
  have hdigits : ∀ n : ℕ,
      digitsValue ((Whole.ofNat (n / 10 ^ k)).digits ++ lastDigits k (n % 10 ^ k)) = n := by
    intro n
    rw [digitsValue_append, Whole.value_ofNat, digitsValue_lastDigits, length_lastDigits,
      Nat.mod_mod]
    exact Nat.div_add_mod' n _
  simp only [fixed, value, hdigits, length_lastDigits, Option.elim_none,
    decide_eq_true_eq, zero_sub, zpow_neg, zpow_natCast]
  rfl

/-- The numeral of a natural number. -/
def Numeral.ofNat (n : ℕ) : Numeral := ⟨false, Whole.ofNat n, [], none⟩

@[simp] theorem Numeral.text_ofNat (n : ℕ) : (Numeral.ofNat n).text = natText n := by
  simp [Numeral.ofNat, Numeral.text, Numeral.fracText, Numeral.expText, natText]

@[simp] theorem Numeral.value_ofNat (n : ℕ) : (Numeral.ofNat n).value = n := by
  simp [Numeral.ofNat, Numeral.value, Whole.value_ofNat]

/-- The text of a natural number is made of digits. -/
theorem natText_notMem {c : Char} (h : digitOf? c = none) (n : ℕ) : c ∉ natText n :=
  digitsText_notMem h

end Wire
