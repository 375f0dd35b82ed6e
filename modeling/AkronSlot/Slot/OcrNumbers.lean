import AkronSlot.Wire.Python

/-!
# Amounts read off the screen (`mt5-ocr-bridge.py`)

`parse_number` gets the amount that the OCR has read and does not know the locale that wrote
it.  From what marks are there, and in which order, it decides which one is the decimal mark.

A `Rendering` is an amount as one of the locales writes it.  All of them are read back, with
any number of groups, except for one kind: several commas and no fraction
(`parseNumber_text_iff`).

## Locales as renderings

There is no right answer for a text, only for an amount in a locale: `1,234` is a thousand for
one and one and a bit for another. So the statement starts from an amount and a way to write it,
and asks for the amount back. A `Rendering` has the parameters of its locale (which mark, which
space, whether there are cents), and its text is built from the digits in groups of three.

`settleMarks` is the part of the function that guesses; its lemmas are about texts with marks at
certain places, and know nothing of renderings.

## Main Definitions

* `parseNumber`, `settleMarks`
* `grouped`, `Rendering`
* `Rendering.ManyCommas`

## Main Results

* `settleMarks_point`, `settleMarks_comma`
* `parseNumber_text_iff`
-/

namespace AkronSlot.Slot

open Wire

namespace OcrBridge

open Wire.Python

/-! ## The parser -/

/-- The no-break space. -/
def nbsp : Char := '\u00A0'

/-- Spaces are thousands separators. -/
def unspaced (s : Text) : Text := replaceChar nbsp [] (replaceChar ' ' [] s)

/-- Thousands separators go and the decimal mark becomes a point. With both marks there, the later
one is the decimal mark; a comma alone is a separator only if there is no other and three digits
follow it. -/
def settleMarks (s : Text) : Text :=
  if ',' ∈ s ∧ '.' ∈ s then
    if rfind '.' s < rfind ',' s then replaceChar ',' "." (replaceChar '.' [] s)
    else replaceChar ',' [] s
  else if ',' ∈ s then
    let parts := s.splitOn ','
    if parts.length = 2 ∧ (parts.getD 1 []).length = 3 ∧ isdigit (parts.getD 1 []) then
      replaceChar ',' [] s
    else replaceChar ',' "." s
  else s

/-- `parse_number`. -/
def parseNumber (s : Text) : Option FloatValue :=
  let s := strip s
  if s = [] then none else float (settleMarks (unspaced s))

/-! ## Renderings -/

/-- A number with its digits in groups of three, as all the locales have it; they differ in what
stands between the groups. -/
def grouped (sep : Text) (n : ℕ) : Text :=
  if n < 1000 then natText n
  else grouped sep (n / 1000) ++ (sep ++ digitsText (lastDigits 3 (n % 1000)))
decreasing_by omega

/-- Two digits. -/
def cents (c : Fin 100) : Text := digitsText (lastDigits 2 c)

theorem notMem_cents {a : Char} (ha : digitOf? a = none) (c : Fin 100) : a ∉ cents c :=
  digitsText_notMem ha

@[simp] theorem length_cents (c : Fin 100) : (cents c).length = 2 := by
  rw [cents, digitsText, List.length_map, length_lastDigits]

/-- A space between groups. -/
inductive Space where
  | plain
  | noBreak
  deriving DecidableEq

def Space.char : Space → Char
  | .plain => ' '
  | .noBreak => nbsp

/-- A decimal mark. -/
inductive Mark where
  | point
  | comma
  deriving DecidableEq

def Mark.char : Mark → Char
  | .point => '.'
  | .comma => ','

/-- An amount as a locale writes it, from the number of units and, where they are shown, of cents.
The text is a function of the rendering, so every amount has one text in each locale. -/
inductive Rendering where
  | us (n : ℕ)
  | usCents (n : ℕ) (c : Fin 100)
  | european (n : ℕ) (c : Fin 100)
  | spaced (space : Space) (n : ℕ)
  | spacedCents (space : Space) (mark : Mark) (n : ℕ) (c : Fin 100)
  deriving DecidableEq

namespace Rendering

/-- The text of a rendering. -/
def text : Rendering → Text
  | us n => grouped [','] n
  | usCents n c => grouped [','] n ++ '.' :: cents c
  | european n c => grouped ['.'] n ++ ',' :: cents c
  | spaced space n => grouped [space.char] n
  | spacedCents space mark n c => grouped [space.char] n ++ mark.char :: cents c

/-- The amount. -/
def amount : Rendering → ℚ
  | us n => n
  | usCents n c => n + c / 100
  | european n c => n + c / 100
  | spaced _ n => n
  | spacedCents _ _ n c => n + c / 100

/-- The American rendering of a whole number of millions or more: the one kind of text that has
several commas and no point. -/
def ManyCommas : Rendering → Prop
  | us n => 1000000 ≤ n
  | _ => False

instance (r : Rendering) : Decidable r.ManyCommas := by
  cases r <;> unfold ManyCommas <;> infer_instance

end Rendering

/-! ## Groups -/

/-- The digits of a number, group by group. -/
def groupedDigits (n : ℕ) : List Digit :=
  if n < 1000 then (Whole.ofNat n).digits
  else groupedDigits (n / 1000) ++ lastDigits 3 (n % 1000)
decreasing_by omega

theorem digitsValue_groupedDigits (n : ℕ) : digitsValue (groupedDigits n) = n := by
  induction n using Nat.strong_induction_on with
  | _ n ih =>
      rw [groupedDigits]
      split_ifs with h
      · exact Whole.value_ofNat n
      · rw [digitsValue_append, ih (n / 1000) (by omega), digitsValue_lastDigits, length_lastDigits]
        omega

theorem groupedDigits_ne_nil (n : ℕ) : groupedDigits n ≠ [] := by
  have hwhole : ∀ w : Whole, w.digits ≠ [] := by
    intro w
    cases w <;> simp [Whole.digits]
  rw [groupedDigits]
  split_ifs
  · exact hwhole _
  · intro hnil
    have hlen := congrArg List.length hnil
    simp at hlen

/-- Only the separators of a number are replaced. -/
theorem replaceChar_grouped {a : Char} (ha : digitOf? a = none) (r : Text) (n : ℕ) :
    replaceChar a r (grouped [a] n) = grouped r n := by
  induction n using Nat.strong_induction_on with
  | _ n ih =>
      rw [grouped, grouped.eq_def r n]
      split_ifs with h
      · exact replaceChar_of_notMem (natText_notMem ha n)
      · have hlast : replaceChar a r (digitsText (lastDigits 3 (n % 1000))) =
            digitsText (lastDigits 3 (n % 1000)) := replaceChar_of_notMem (digitsText_notMem ha)
        have hsep : replaceChar a r [a] = r := by simp [replaceChar]
        rw [replaceChar_append, replaceChar_append, ih (n / 1000) (by omega), hlast, hsep]

/-- Without separators a number is its digits. -/
theorem grouped_nil (n : ℕ) : grouped [] n = digitsText (groupedDigits n) := by
  induction n using Nat.strong_induction_on with
  | _ n ih =>
      rw [grouped, groupedDigits]
      split_ifs with h
      · rfl
      · rw [ih (n / 1000) (by omega), List.nil_append, digitsText, digitsText, digitsText,
          List.map_append]

/-- A character that is neither a digit nor the separator does not occur. -/
theorem notMem_grouped {c a : Char} (hc : digitOf? c = none) (hne : c ≠ a) (n : ℕ) :
    c ∉ grouped [a] n := by
  induction n using Nat.strong_induction_on with
  | _ n ih =>
      rw [grouped]
      split_ifs with h
      · exact natText_notMem hc n
      · simp only [List.mem_append, List.mem_singleton, not_or]
        exact ⟨ih (n / 1000) (by omega), hne, digitsText_notMem hc⟩

/-- The first two separators of a number that has two. -/
theorem grouped_two (a : Char) (n : ℕ) (h : 1000000 ≤ n) :
    ∃ ds fs t, grouped [a] n = digitsText ds ++ a :: (digitsText fs ++ a :: t) ∧
      (a = '.' → ∀ c ∈ t, DigitOrPoint c) := by
  induction n using Nat.strong_induction_on with
  | _ n ih =>
      rw [grouped, if_neg (by omega)]
      by_cases hmore : 1000000 ≤ n / 1000
      · obtain ⟨ds, fs, t, htext, ht⟩ := ih (n / 1000) (by omega) hmore
        refine ⟨ds, fs, t ++ ([a] ++ digitsText (lastDigits 3 (n % 1000))), ?_, ?_⟩
        · simp [htext]
        · rintro ha c hc
          simp only [List.mem_append, List.mem_singleton] at hc
          rcases hc with hc | rfl | hc
          · exact ht ha c hc
          · exact .inl ha
          · exact digitOrPoint_digitsText _ c hc
      · refine ⟨(Whole.ofNat (n / 1000 / 1000)).digits, lastDigits 3 (n / 1000 % 1000),
          digitsText (lastDigits 3 (n % 1000)), ?_, fun _ => digitOrPoint_digitsText _⟩
        rw [grouped, if_neg (by omega), grouped, if_pos (by omega)]
        simp [natText]

/-! ## Ends -/

/-- The text starts and ends with a digit. -/
def DigitEnds (t : Text) : Prop :=
  (∃ d, t.head? = some (Digit.char d)) ∧ ∃ d, t.getLast? = some (Digit.char d)

theorem digitEnds_digitsText {ds : List Digit} (h : ds ≠ []) : DigitEnds (digitsText ds) := by
  constructor
  · refine ⟨ds.head h, ?_⟩
    rw [digitsText, List.head?_map, List.head?_eq_some_head h]
    rfl
  · refine ⟨ds.getLast h, ?_⟩
    rw [digitsText, List.getLast?_map, List.getLast?_eq_some_getLast h]
    rfl

theorem DigitEnds.append {s t : Text} (hs : DigitEnds s) (ht : DigitEnds t) (m : Text) :
    DigitEnds (s ++ (m ++ t)) := by
  obtain ⟨d, hd⟩ := hs.1
  obtain ⟨e, he⟩ := ht.2
  constructor
  · exact ⟨d, by simp [List.head?_append, hd]⟩
  · exact ⟨e, by simp [List.getLast?_append, he]⟩

theorem digitEnds_grouped (sep : Text) (n : ℕ) : DigitEnds (grouped sep n) := by
  have hthree : ∀ k, lastDigits 3 k ≠ [] := by
    intro k hnil
    simpa [hnil] using length_lastDigits 3 k
  induction n using Nat.strong_induction_on with
  | _ n ih =>
      rw [grouped]
      split_ifs with h
      · have hdigits := groupedDigits_ne_nil n
        rw [groupedDigits, if_pos h] at hdigits
        exact digitEnds_digitsText hdigits
      · exact (ih (n / 1000) (by omega)).append (digitEnds_digitsText (hthree _)) sep

theorem digitEnds_cents (c : Fin 100) : DigitEnds (cents c) :=
  digitEnds_digitsText fun hnil => by simpa [hnil] using length_lastDigits 2 c

/-- A rendering starts and ends with a digit. -/
theorem digitEnds_text (r : Rendering) : DigitEnds r.text := by
  cases r with
  | us n => exact digitEnds_grouped _ n
  | usCents n c => exact (digitEnds_grouped _ n).append (digitEnds_cents c) ['.']
  | european n c => exact (digitEnds_grouped _ n).append (digitEnds_cents c) [',']
  | spaced space n => exact digitEnds_grouped _ n
  | spacedCents space mark n c =>
      exact (digitEnds_grouped _ n).append (digitEnds_cents c) [mark.char]

/-- Nothing is stripped of such a text. -/
theorem parseNumber_of_digitEnds {t : Text} (h : DigitEnds t) :
    parseNumber t = float (settleMarks (unspaced t)) := by
  have hspace : ∀ d : Digit, isspace d.char = false := by decide
  obtain ⟨⟨d, hd⟩, e, he⟩ := h
  have hstrip : strip t = t := by
    refine stripBy_of_ends (fun c hc => ?_) (fun c hc => ?_)
    · obtain rfl : d.char = c := by simpa [hd] using hc
      exact hspace d
    · obtain rfl : e.char = c := by simpa [he] using hc
      exact hspace e
  have hne : t ≠ [] := by
    rintro rfl
    simp at hd
  simp only [parseNumber, hstrip, if_neg hne]

/-! ## The decision -/

theorem settleMarks_digits {s : Text} (hcomma : ',' ∉ s) : settleMarks s = s := by
  rw [settleMarks, if_neg (fun h => hcomma h.1), if_neg hcomma]

/-- **A point after which there is no comma is the decimal mark.** -/
theorem settleMarks_point {s f : Text} (hcomma : ',' ∉ f) (hpoint : '.' ∉ f) :
    settleMarks (s ++ '.' :: f) = replaceChar ',' [] s ++ '.' :: f := by
  have htail : ',' ∉ '.' :: f := by simpa using hcomma
  by_cases hgroups : ',' ∈ s
  · have hboth : ',' ∈ s ++ '.' :: f ∧ '.' ∈ s ++ '.' :: f := by simp [hgroups]
    have hlast : ¬ rfind '.' (s ++ '.' :: f) < rfind ',' (s ++ '.' :: f) := by
      rw [rfind_append_cons hpoint, rfind_append htail]
      have := rfind_lt_length ',' s
      omega
    rw [settleMarks, if_pos hboth, if_neg hlast, replaceChar_append, replaceChar_of_notMem htail]
  · have hnone : ',' ∉ s ++ '.' :: f := by simpa [hgroups] using hcomma
    rw [settleMarks_digits hnone, replaceChar_of_notMem hgroups]

/-- **A single comma, before two digits, is the decimal mark.** -/
theorem settleMarks_comma {s f : Text} (hs : ',' ∉ s) (hcomma : ',' ∉ f) (hpoint : '.' ∉ f)
    (hlength : f.length = 2) :
    settleMarks (s ++ ',' :: f) = replaceChar '.' [] s ++ '.' :: f := by
  have htail : '.' ∉ ',' :: f := by simpa using hpoint
  have hmark : ∀ t, ',' ∉ t → replaceChar ',' "." (t ++ ',' :: f) = t ++ '.' :: f := by
    intro t ht
    have hone : replaceChar ',' "." (',' :: f) = '.' :: replaceChar ',' "." f := rfl
    rw [replaceChar_append, replaceChar_of_notMem ht, hone, replaceChar_of_notMem hcomma]
  by_cases hgroups : '.' ∈ s
  · have hboth : ',' ∈ s ++ ',' :: f ∧ '.' ∈ s ++ ',' :: f := by simp [hgroups]
    have hlast : rfind '.' (s ++ ',' :: f) < rfind ',' (s ++ ',' :: f) := by
      rw [rfind_append_cons hcomma, rfind_append htail]
      exact rfind_lt_length '.' s
    have hgone : ',' ∉ replaceChar '.' [] s := by
      simp only [replaceChar, List.mem_flatMap, not_exists, not_and]
      intro x hx
      split_ifs with hdot
      · exact List.not_mem_nil
      · exact fun hmem => hs (List.mem_singleton.mp hmem ▸ hx)
    rw [settleMarks, if_pos hboth, if_pos hlast, replaceChar_append, replaceChar_of_notMem htail,
      hmark _ hgone]
  · have hnone : '.' ∉ s ++ ',' :: f := by simpa [hgroups] using hpoint
    have hmem : ',' ∈ s ++ ',' :: f := by simp
    have hsplit : (s ++ ',' :: f).splitOn ',' = [s, f] := splitOn_pair hs hcomma
    rw [settleMarks, if_neg (fun h => hnone h.2), if_pos hmem]
    simp only [hsplit, List.getD_cons_succ, List.getD_cons_zero, hlength]
    rw [if_neg (by omega), hmark _ hs, replaceChar_of_notMem hgroups]

/-- One comma before three digits is a separator. -/
theorem settleMarks_thousands {s f : Text} (hs : ',' ∉ s) (hf : ',' ∉ f)
    (hpoint : '.' ∉ s ++ ',' :: f) (hlength : f.length = 3) (hdigit : isdigit f = true) :
    settleMarks (s ++ ',' :: f) = replaceChar ',' [] (s ++ ',' :: f) := by
  have hmem : ',' ∈ s ++ ',' :: f := by simp
  have hsplit : (s ++ ',' :: f).splitOn ',' = [s, f] := splitOn_pair hs hf
  rw [settleMarks, if_neg (fun h => hpoint h.2), if_pos hmem]
  simp only [hsplit, List.getD_cons_succ, List.getD_cons_zero, hlength, hdigit]
  rw [if_pos (by simp)]

/-- **Several commas without a point all become points.** -/
theorem settleMarks_manyCommas {s f t : Text} (hpoint : '.' ∉ s ++ ',' :: (f ++ ',' :: t)) :
    settleMarks (s ++ ',' :: (f ++ ',' :: t)) =
      replaceChar ',' "." (s ++ ',' :: (f ++ ',' :: t)) := by
  have hmem : ',' ∈ s ++ ',' :: (f ++ ',' :: t) := by simp
  have hlength : ((s ++ ',' :: (f ++ ',' :: t)).splitOn ',').length ≠ 2 := by
    have hparts := fun u : Text => List.length_pos_of_ne_nil (List.splitOn_ne_nil ',' u)
    rw [List.splitOn_append_cons_self, List.splitOn_append_cons_self, List.length_append,
      List.length_append]
    have hs := hparts s
    have hf := hparts f
    have ht := hparts t
    omega
  rw [settleMarks, if_neg (fun h => hpoint h.2), if_pos hmem]
  exact if_neg fun h => hlength h.1

/-! ## Reading back -/

theorem unspaced_of_notMem {s : Text} (hspace : ' ' ∉ s) (hnbsp : nbsp ∉ s) : unspaced s = s := by
  rw [unspaced, replaceChar_of_notMem hspace, replaceChar_of_notMem hnbsp]

theorem unspaced_append (s t : Text) : unspaced (s ++ t) = unspaced s ++ unspaced t := by
  rw [unspaced, unspaced, unspaced, replaceChar_append, replaceChar_append]

/-- Groups with spaces between them are the digits. -/
theorem unspaced_grouped (space : Space) (n : ℕ) :
    unspaced (grouped [space.char] n) = digitsText (groupedDigits n) := by
  have hnbsp : nbsp ∉ digitsText (groupedDigits n) := digitsText_notMem (by decide)
  cases space with
  | plain =>
      rw [unspaced, Space.char, replaceChar_grouped (by decide), grouped_nil,
        replaceChar_of_notMem hnbsp]
  | noBreak =>
      have hspace : ' ' ∉ grouped [Space.noBreak.char] n :=
        notMem_grouped (by decide) (by decide) n
      rw [unspaced, replaceChar_of_notMem hspace, Space.char, replaceChar_grouped (by decide),
        grouped_nil]

/-- Commas and points are kept. -/
theorem unspaced_marked {a : Char} (ha : a = ',' ∨ a = '.') (n : ℕ) :
    unspaced (grouped [a] n) = grouped [a] n := by
  rcases ha with rfl | rfl
  · exact unspaced_of_notMem (notMem_grouped (by decide) (by decide) n)
      (notMem_grouped (by decide) (by decide) n)
  · exact unspaced_of_notMem (notMem_grouped (by decide) (by decide) n)
      (notMem_grouped (by decide) (by decide) n)

theorem unspaced_cents {a : Char} (ha : a = ',' ∨ a = '.') (c : Fin 100) :
    unspaced (a :: cents c) = a :: cents c := by
  have hspace : ' ' ∉ cents c := notMem_cents (by decide) c
  have hnbsp : nbsp ∉ cents c := notMem_cents (by decide) c
  rcases ha with rfl | rfl
  · exact unspaced_of_notMem (List.not_mem_cons_of_ne_of_not_mem (by decide) hspace)
      (List.not_mem_cons_of_ne_of_not_mem (by decide) hnbsp)
  · exact unspaced_of_notMem (List.not_mem_cons_of_ne_of_not_mem (by decide) hspace)
      (List.not_mem_cons_of_ne_of_not_mem (by decide) hnbsp)

/-- Digits, a point and two digits. -/
theorem float_cents (n : ℕ) (c : Fin 100) :
    float (digitsText (groupedDigits n) ++ '.' :: cents c) = some (.finite (n + c / 100)) := by
  have hvalue : ((digitsValue (groupedDigits n ++ lastDigits 2 c) : ℕ) : ℚ) = n * 100 + c := by
    have hc : (c : ℕ) % 10 ^ 2 = c := Nat.mod_eq_of_lt c.isLt
    rw [digitsValue_append, digitsValue_groupedDigits, digitsValue_lastDigits, length_lastDigits,
      hc]
    push_cast
    ring
  rw [cents, float_fraction (groupedDigits_ne_nil n), hvalue, length_lastDigits]
  congr 2
  ring

theorem float_groups (n : ℕ) : float (digitsText (groupedDigits n)) = some (.finite n) := by
  rw [float_whole (groupedDigits_ne_nil n), digitsValue_groupedDigits]

/-- The fraction of a number grouped by commas. -/
theorem settleMarks_usCents (n : ℕ) (c : Fin 100) :
    settleMarks (grouped [','] n ++ '.' :: cents c) =
      digitsText (groupedDigits n) ++ '.' :: cents c := by
  have hcomma : ',' ∉ cents c := notMem_cents (by decide) c
  have hpoint : '.' ∉ cents c := notMem_cents (by decide) c
  rw [settleMarks_point hcomma hpoint, replaceChar_grouped (by decide), grouped_nil]

/-- The fraction of a number grouped by points. -/
theorem settleMarks_european (n : ℕ) (c : Fin 100) :
    settleMarks (grouped ['.'] n ++ ',' :: cents c) =
      digitsText (groupedDigits n) ++ '.' :: cents c := by
  have hcomma : ',' ∉ cents c := notMem_cents (by decide) c
  have hpoint : '.' ∉ cents c := notMem_cents (by decide) c
  have hgroups : ',' ∉ grouped ['.'] n := notMem_grouped (by decide) (by decide) n
  rw [settleMarks_comma hgroups hcomma hpoint (length_cents c), replaceChar_grouped (by decide),
    grouped_nil]

/-- The fraction of a number without separators. -/
theorem settleMarks_plainCents (mark : Mark) (ds : List Digit) (c : Fin 100) :
    settleMarks (digitsText ds ++ mark.char :: cents c) = digitsText ds ++ '.' :: cents c := by
  have hcomma : ',' ∉ cents c := notMem_cents (by decide) c
  have hpoint : '.' ∉ cents c := notMem_cents (by decide) c
  have hnocomma : ',' ∉ digitsText ds := digitsText_notMem (by decide)
  have hnopoint : '.' ∉ digitsText ds := digitsText_notMem (by decide)
  cases mark with
  | point => rw [Mark.char, settleMarks_point hcomma hpoint, replaceChar_of_notMem hnocomma]
  | comma =>
      rw [Mark.char, settleMarks_comma hnocomma hcomma hpoint (length_cents c),
        replaceChar_of_notMem hnopoint]

/-- A number below a million has at most one separator. -/
theorem settleMarks_us {n : ℕ} (h : n < 1000000) :
    settleMarks (grouped [','] n) = digitsText (groupedDigits n) := by
  have hpoint : '.' ∉ grouped [','] n := notMem_grouped (by decide) (by decide) n
  by_cases hone : n < 1000
  · rw [grouped, if_pos hone, settleMarks_digits (natText_notMem (by decide) n), groupedDigits,
      if_pos hone]
    rfl
  · have htext : grouped [','] n =
        natText (n / 1000) ++ ',' :: digitsText (lastDigits 3 (n % 1000)) := by
      rw [grouped, if_neg hone, grouped, if_pos (by omega)]
      rfl
    have hlength : (digitsText (lastDigits 3 (n % 1000))).length = 3 := by
      rw [digitsText, List.length_map, length_lastDigits]
    have hdigit : isdigit (digitsText (lastDigits 3 (n % 1000))) = true :=
      isdigit_digitsText fun hnil => by simpa [hnil] using length_lastDigits 3 (n % 1000)
    rw [htext] at hpoint
    rw [htext, settleMarks_thousands (natText_notMem (by decide) _)
      (digitsText_notMem (by decide)) hpoint hlength hdigit, ← htext,
      replaceChar_grouped (by decide), grouped_nil]

/-- **Several commas and no fraction are no number.** -/
theorem parseNumber_manyCommas {n : ℕ} (h : 1000000 ≤ n) :
    parseNumber (grouped [','] n) = none := by
  have hspace : ' ' ∉ grouped [','] n := notMem_grouped (by decide) (by decide) n
  have hnbsp : nbsp ∉ grouped [','] n := notMem_grouped (by decide) (by decide) n
  have hpoint : '.' ∉ grouped [','] n := notMem_grouped (by decide) (by decide) n
  obtain ⟨ds, fs, t, htext, -⟩ := grouped_two ',' n h
  obtain ⟨ds', fs', t', htext', ht'⟩ := grouped_two '.' n h
  have hmarks : settleMarks (grouped [','] n) = grouped ['.'] n := by
    rw [htext] at hpoint
    rw [htext, settleMarks_manyCommas hpoint, ← htext]
    exact replaceChar_grouped (by decide) ['.'] n
  rw [parseNumber_of_digitEnds (digitEnds_grouped _ n), unspaced_of_notMem hspace hnbsp, hmarks,
    htext']
  exact float_two_points ds' fs' (ht' rfl)

/-- **An amount is read back exactly when it does not have several commas and no fraction.** With
both marks the last one is the decimal mark. With commas alone, one that has three digits behind
it separates a group and any other becomes a point; several points are no number for `float`. -/
theorem parseNumber_text_iff (r : Rendering) :
    parseNumber r.text = some (.finite r.amount) ↔ ¬ r.ManyCommas := by
  cases r with
  | us n =>
      -- below a million there is one comma at most
      by_cases h : 1000000 ≤ n
      · simp [Rendering.text, Rendering.ManyCommas, parseNumber_manyCommas h, h]
      · have hread : parseNumber (grouped [','] n) = some (.finite n) := by
          rw [parseNumber_of_digitEnds (digitEnds_grouped _ n), unspaced_marked (.inl rfl),
            settleMarks_us (by omega), float_groups]
        simp [Rendering.text, Rendering.amount, Rendering.ManyCommas, hread, h]
  | usCents n c =>
      refine iff_of_true ?_ not_false
      rw [parseNumber_of_digitEnds (digitEnds_text _), Rendering.text, unspaced_append,
        unspaced_marked (.inl rfl), unspaced_cents (.inr rfl), settleMarks_usCents, float_cents]
      rfl
  | european n c =>
      refine iff_of_true ?_ not_false
      rw [parseNumber_of_digitEnds (digitEnds_text _), Rendering.text, unspaced_append,
        unspaced_marked (.inr rfl), unspaced_cents (.inl rfl), settleMarks_european, float_cents]
      rfl
  | spaced space n =>
      refine iff_of_true ?_ not_false
      rw [parseNumber_of_digitEnds (digitEnds_text _), Rendering.text, unspaced_grouped,
        settleMarks_digits (digitsText_notMem (by decide)), float_groups]
      rfl
  | spacedCents space mark n c =>
      have hmark : mark.char = ',' ∨ mark.char = '.' := by cases mark <;> simp [Mark.char]
      refine iff_of_true ?_ not_false
      rw [parseNumber_of_digitEnds (digitEnds_text _), Rendering.text, unspaced_append,
        unspaced_grouped, unspaced_cents hmark, settleMarks_plainCents, float_cents]
      rfl

/-- A European amount. -/
def savings : Rendering := .european 1234567 89

example : savings.text = "1.234.567,89".toList := by
  have hone : natText 1 = "1".toList := by decide
  rw [savings, Rendering.text, grouped, if_neg (by decide), grouped, if_neg (by decide), grouped,
    if_pos (by decide), hone]
  decide

/-- The amount of `1,234,567` is not read. -/
theorem million_not_read :
    (Rendering.us 1234567).text = "1,234,567".toList ∧
      parseNumber (Rendering.us 1234567).text ≠ some (.finite (Rendering.us 1234567).amount) := by
  constructor
  · have hone : natText 1 = "1".toList := by decide
    rw [Rendering.text, grouped, if_neg (by decide), grouped, if_neg (by decide), grouped,
      if_pos (by decide), hone]
    decide
  · rw [Rendering.text, parseNumber_manyCommas (by decide)]
    exact nofun

end OcrBridge

end AkronSlot.Slot
