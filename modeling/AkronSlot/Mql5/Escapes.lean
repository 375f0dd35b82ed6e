import AkronSlot.Mql5.JsonField

/-!
# The two escapes of the MQL5 programs (`SlotService.mq5`, `AccountReporter.mq5`)

SlotService escapes a string by five replacements of the whole string, one after the other;
AccountReporter goes over its characters once.  A string of MQL5 is a list of UTF-16 code
units, surrogates in pairs or alone.

Every replacement acts on the units one by one, and so do five of them together.  What they
make of one unit is what the single pass makes of it, and a reader of JSON gets it back.

## Strings as units

`JsonEscape` of the other modules works on texts, which have no half of a surrogate pair. An
MQL5 string may hold one, so here a string is a list of units, and `jsonEscape_utf16` says that
on the units of a text the two agree. Nothing of the five replacements depends on the
difference: each looks at a unit of the basic plane.

## Main Definitions

* `MqlString`, `stringReplace`
* `JsonEscape`, `EscapeJson`
* `decodeBody` — the body of a JSON string literal, read

## Main Results

* `jsonEscape_eq_escapeJson`, `decodeBody_escapeJson`
* `escapes_agree`
* `jsonEscape_utf16` — the escape of a text
-/

namespace AkronSlot.Mql5

open Wire

/-! ## Strings -/

/-- A string: its UTF-16 code units. -/
abbrev MqlString := List UInt16

/-- The code unit of a character of the basic plane. -/
def codeUnit (c : Char) : UInt16 := UInt16.ofNat c.toNat

/-- The code units of a character. -/
def charUnits (c : Char) : MqlString :=
  if c.toNat < 0x10000 then [codeUnit c]
  else
    [UInt16.ofNat (0xD800 + (c.toNat - 0x10000) / 0x400),
      UInt16.ofNat (0xDC00 + (c.toNat - 0x10000) % 0x400)]

/-- The string of a text. -/
def utf16 (t : Text) : MqlString := t.flatMap charUnits

/-- `StringReplace` of a string of one unit. The pattern being a single unit, occurrences do not
overlap, and the result is made unit by unit. -/
def stringReplace (c : UInt16) (r s : MqlString) : MqlString :=
  s.flatMap fun x => if x = c then r else [x]

/-! ## The escapes -/

namespace SlotService

/-- `JsonEscape`. -/
def jsonEscape (s : MqlString) : MqlString :=
  let r := stringReplace (codeUnit '\\') (utf16 "\\\\") s
  let r := stringReplace (codeUnit '"') (utf16 "\\\"") r
  let r := stringReplace (codeUnit '\n') (utf16 "\\n") r
  let r := stringReplace (codeUnit '\r') (utf16 "\\r") r
  stringReplace (codeUnit '\t') (utf16 "\\t") r

end SlotService

namespace AccountReporter

/-- What `EscapeJson` adds for a code unit: an escape of two units for the five, and the unit
itself for every other, control characters included. -/
def escapeUnit (c : UInt16) : MqlString :=
  if c = codeUnit '"' ∨ c = codeUnit '\\' then utf16 "\\" ++ [c]
  else if c = codeUnit '\n' then utf16 "\\n"
  else if c = codeUnit '\r' then utf16 "\\r"
  else if c = codeUnit '\t' then utf16 "\\t"
  else [c]

/-- `EscapeJson`. -/
def escapeJson (s : MqlString) : MqlString := s.foldl (fun out c => out ++ escapeUnit c) []

end AccountReporter

/-! ## Reading -/

/-- The value of a hexadecimal digit. -/
def hexUnit? (c : UInt16) : Option ℕ := hexValue? (Char.ofNat c.toNat)

/-- What the unit after a backslash stands for. -/
def shortEscapeUnit? (c : UInt16) : Option UInt16 :=
  (shortEscape? (Char.ofNat c.toNat)).map codeUnit

/-- The body of a JSON string literal, read: quotes, control characters and unknown escapes
are not in it. -/
def decodeBody : MqlString → Option MqlString
  | [] => some []
  | c :: s =>
      if c = codeUnit '"' ∨ c < 0x20 then none
      else if c = codeUnit '\\' then
        match s with
        | [] => none
        | e :: s =>
            if e = codeUnit 'u' then
              match s with
              | h₁ :: h₂ :: h₃ :: h₄ :: s => do
                  let a ← hexUnit? h₁
                  let b ← hexUnit? h₂
                  let c ← hexUnit? h₃
                  let d ← hexUnit? h₄
                  let s ← decodeBody s
                  return UInt16.ofNat (((a * 16 + b) * 16 + c) * 16 + d) :: s
              | _ => none
            else do
              let x ← shortEscapeUnit? e
              let s ← decodeBody s
              return x :: s
      else (decodeBody s).map (c :: ·)

/-! ## One unit -/

theorem stringReplace_append (c : UInt16) (r s t : MqlString) :
    stringReplace c r (s ++ t) = stringReplace c r s ++ stringReplace c r t :=
  List.flatMap_append

namespace SlotService

theorem jsonEscape_append (s t : MqlString) :
    jsonEscape (s ++ t) = jsonEscape s ++ jsonEscape t := by
  simp only [jsonEscape, stringReplace_append]

end SlotService

/-- **On one unit five replacements do what the single pass does**: none of them finds what
an earlier one has put in. -/
theorem jsonEscape_singleton_eq (c : UInt16) :
    SlotService.jsonEscape [c] = AccountReporter.escapeUnit c := by
  by_cases hslash : c = codeUnit '\\'
  · subst hslash
    decide
  by_cases hquote : c = codeUnit '"'
  · subst hquote
    decide
  by_cases hn : c = codeUnit '\n'
  · subst hn
    decide
  by_cases hr : c = codeUnit '\r'
  · subst hr
    decide
  by_cases ht : c = codeUnit '\t'
  · subst ht
    decide
  simp [SlotService.jsonEscape, AccountReporter.escapeUnit, stringReplace, hslash, hquote, hn, hr,
    ht]

/-- The unit after a backslash stands for another one. -/
theorem decodeBody_short {e x : UInt16} (he : e ≠ codeUnit 'u') (hx : shortEscapeUnit? e = some x)
    (s : MqlString) :
    decodeBody (codeUnit '\\' :: e :: s) = (decodeBody s).map (x :: ·) := by
  have hquote : ¬ (codeUnit '\\' = codeUnit '"' ∨ codeUnit '\\' < 0x20) := by decide
  rw [decodeBody.eq_def]
  dsimp only
  rw [if_neg hquote, if_pos rfl, if_neg he, hx]
  cases decodeBody s <;> rfl

/-- A unit that needs no escape stands for itself. -/
theorem decodeBody_self {c : UInt16} (hquote : c ≠ codeUnit '"') (hslash : c ≠ codeUnit '\\')
    (hctrl : ¬ c < 0x20) (s : MqlString) :
    decodeBody (c :: s) = (decodeBody s).map (c :: ·) := by
  rw [decodeBody.eq_def]
  dsimp only
  rw [if_neg (not_or.mpr ⟨hquote, hctrl⟩), if_neg hslash]

/-- The only control characters of a string are line breaks and tabs. Any other is printed raw by
both, and a reader of JSON refuses it. -/
def PlainControls (s : MqlString) : Prop :=
  ∀ c ∈ s, c < 0x20 → c = codeUnit '\n' ∨ c = codeUnit '\r' ∨ c = codeUnit '\t'

/-- What is written for a unit is read as the unit. -/
theorem decodeBody_escapeUnit {c : UInt16}
    (h : c < 0x20 → c = codeUnit '\n' ∨ c = codeUnit '\r' ∨ c = codeUnit '\t') (s : MqlString) :
    decodeBody (AccountReporter.escapeUnit c ++ s) = (decodeBody s).map (c :: ·) := by
  by_cases hquote : c = codeUnit '"'
  · subst hquote
    exact decodeBody_short (by decide) (by decide) s
  by_cases hslash : c = codeUnit '\\'
  · subst hslash
    exact decodeBody_short (by decide) (by decide) s
  by_cases hn : c = codeUnit '\n'
  · subst hn
    exact @decodeBody_short (codeUnit 'n') _ (by decide) (by decide) s
  by_cases hr : c = codeUnit '\r'
  · subst hr
    exact @decodeBody_short (codeUnit 'r') _ (by decide) (by decide) s
  by_cases ht : c = codeUnit '\t'
  · subst ht
    exact @decodeBody_short (codeUnit 't') _ (by decide) (by decide) s
  -- every other unit stands for itself
  have hself : AccountReporter.escapeUnit c = [c] := by
    simp [AccountReporter.escapeUnit, hquote, hslash, hn, hr, ht]
  have hctrl : ¬ c < 0x20 := fun hctrl => (h hctrl).elim hn fun hor => hor.elim hr ht
  rw [hself]
  exact decodeBody_self hquote hslash hctrl s

/-! ## Strings -/

theorem escapeJson_cons (c : UInt16) (s : MqlString) :
    AccountReporter.escapeJson (c :: s) =
      AccountReporter.escapeUnit c ++ AccountReporter.escapeJson s := by
  simp only [AccountReporter.escapeJson, ← List.flatMap_eq_foldl, List.flatMap_cons]

/-- **The five replacements of a string are the single pass over it.** -/
theorem jsonEscape_eq_escapeJson (s : MqlString) :
    SlotService.jsonEscape s = AccountReporter.escapeJson s := by
  induction s with
  | nil => rfl
  | cons c s ih =>
      have happ : SlotService.jsonEscape (c :: s) =
          SlotService.jsonEscape [c] ++ SlotService.jsonEscape s :=
        SlotService.jsonEscape_append [c] s
      rw [happ, jsonEscape_singleton_eq, ih, escapeJson_cons]

/-- **What is written for a string is read as the string.** -/
theorem decodeBody_escapeJson {s : MqlString} (h : PlainControls s) :
    decodeBody (AccountReporter.escapeJson s) = some s := by
  induction s with
  | nil => rfl
  | cons c s ih =>
      obtain ⟨hc, hs⟩ := List.forall_mem_cons.mp h
      rw [escapeJson_cons, decodeBody_escapeUnit hc, ih hs]
      rfl

/-- **The two escapes agree**, and a reader gets the string back. No replacement makes a unit that
a later one looks for, because the backslashes are replaced first. -/
theorem escapes_agree {s : MqlString} (h : PlainControls s) :
    SlotService.jsonEscape s = AccountReporter.escapeJson s ∧
      decodeBody (SlotService.jsonEscape s) = some s := by
  rw [jsonEscape_eq_escapeJson]
  exact ⟨rfl, decodeBody_escapeJson h⟩

/-! ## Texts -/

/-- The numbers of the units that are escaped. -/
def escapedNumbers : List ℕ := [34, 92, 10, 13, 9]

theorem escapeUnit_self {x : UInt16} (h : x.toNat ∉ escapedNumbers) :
    AccountReporter.escapeUnit x = [x] := by
  have hne : ∀ d : Char, d.toNat ∈ escapedNumbers → x ≠ codeUnit d := by
    rintro d hd rfl
    refine h ?_
    have hsmall : d.toNat < 2 ^ 16 := by
      simp only [escapedNumbers, List.mem_cons, List.not_mem_nil, or_false] at hd
      omega
    rwa [codeUnit, UInt16.toNat_ofNat_of_lt' hsmall]
  have hquote := hne '"' (by decide)
  have hslash := hne '\\' (by decide)
  have hn := hne '\n' (by decide)
  have hr := hne '\r' (by decide)
  have ht := hne '\t' (by decide)
  simp [AccountReporter.escapeUnit, hquote, hslash, hn, hr, ht]

theorem escapeJson_self {s : MqlString} (h : ∀ x ∈ s, x.toNat ∉ escapedNumbers) :
    AccountReporter.escapeJson s = s := by
  induction s with
  | nil => rfl
  | cons x s ih =>
      obtain ⟨hx, hs⟩ := List.forall_mem_cons.mp h
      rw [escapeJson_cons, escapeUnit_self hx, ih hs]
      rfl

/-- A unit of a character has the character's number or is a surrogate. -/
theorem toNat_charUnits {c : Char} {x : UInt16} (h : x ∈ charUnits c) :
    x.toNat = c.toNat ∨ 0xD800 ≤ x.toNat := by
  have hbound : c.toNat < 0x110000 := by
    have hvalid : c.toNat < 0xD800 ∨ 0xDFFF < c.toNat ∧ c.toNat < 0x110000 := c.valid
    omega
  unfold charUnits at h
  split_ifs at h with hsmall
  · obtain rfl := List.mem_singleton.mp h
    exact .inl (UInt16.toNat_ofNat_of_lt' hsmall)
  · right
    rcases List.mem_pair.mp h with rfl | rfl
    · rw [UInt16.toNat_ofNat_of_lt' (by simp [UInt16.size]; omega)]
      omega
    · rw [UInt16.toNat_ofNat_of_lt' (by simp [UInt16.size]; omega)]
      omega

/-- The units of a character are escaped with it. -/
theorem escapeJson_charUnits (c : Char) :
    AccountReporter.escapeJson (charUnits c) = utf16 (jsonEscape [c]) := by
  by_cases hc : c.toNat ∈ escapedNumbers
  · have hcases : c = '"' ∨ c = '\\' ∨ c = '\n' ∨ c = '\r' ∨ c = '\t' := by
      simp only [escapedNumbers, List.mem_cons, List.not_mem_nil, or_false] at hc
      rcases hc with hc | hc | hc | hc | hc
      · exact .inl (Char.toNat_inj.mp hc)
      · exact .inr (.inl (Char.toNat_inj.mp hc))
      · exact .inr (.inr (.inl (Char.toNat_inj.mp hc)))
      · exact .inr (.inr (.inr (.inl (Char.toNat_inj.mp hc))))
      · exact .inr (.inr (.inr (.inr (Char.toNat_inj.mp hc))))
    rcases hcases with rfl | rfl | rfl | rfl | rfl <;> decide
  · have hself : jsonEscape [c] = [c] := by
      have hne : ∀ d : Char, d.toNat ∈ escapedNumbers → c ≠ d := by
        rintro d hd rfl
        exact hc hd
      simp [jsonEscape, replaceChar, hne '"' (by decide), hne '\\' (by decide),
        hne '\n' (by decide), hne '\r' (by decide), hne '\t' (by decide)]
    -- a surrogate is no unit that is escaped
    have hunits : ∀ x ∈ charUnits c, x.toNat ∉ escapedNumbers := by
      intro x hx hmem
      rcases toNat_charUnits hx with hsame | hlarge
      · exact hc (hsame ▸ hmem)
      · simp only [escapedNumbers, List.mem_cons, List.not_mem_nil, or_false] at hmem
        omega
    rw [hself, escapeJson_self hunits, utf16, List.flatMap_singleton]

/-- **The escape of a text** is that of its units. -/
theorem jsonEscape_utf16 (t : Text) : SlotService.jsonEscape (utf16 t) = utf16 (jsonEscape t) := by
  induction t with
  | nil => rfl
  | cons c t ih =>
      have hunits : utf16 (c :: t) = charUnits c ++ utf16 t := List.flatMap_cons
      have happ : jsonEscape (c :: t) = jsonEscape [c] ++ jsonEscape t := jsonEscape_append [c] t
      rw [hunits, SlotService.jsonEscape_append, jsonEscape_eq_escapeJson (charUnits c),
        escapeJson_charUnits, ih, happ, utf16, utf16, utf16, List.flatMap_append]

/-- A string with every unit that is escaped, and half of a pair. -/
def mixedString : MqlString := utf16 "a\\\"\n\r\t\\n" ++ [0xD83D]

theorem mixedString_agrees :
    SlotService.jsonEscape mixedString = AccountReporter.escapeJson mixedString ∧
      decodeBody (SlotService.jsonEscape mixedString) = some mixedString :=
  escapes_agree (by simp [PlainControls, mixedString, utf16, charUnits, codeUnit])

end AkronSlot.Mql5
