import AkronSlot.Wire.Numeral

/-!
# JSON values, their text, and a parser

The values of ECMA-404 with the two operations every JSON program uses:
`Json.print` (the text without insignificant blanks, as `JSON.stringify`
writes it) and `Json.parse` (a whole text, blanks allowed, as `JSON.parse`
reads it).  A number keeps its notation; its value is `Numeral.value`.

## Members and surrogates

Object members are kept in textual order.  Lookup follows JavaScript: the last
member of a name wins.

A `\u` escape that is half of a surrogate pair has no Unicode scalar value of
its own; it is read as U+FFFD unless the other half follows.

## Main Definitions

* `Json`, `Json.get`, `Json.print`
* `escapeText`, `readBody` — writing and reading the body of a string literal
* `Json.parse`
-/

namespace Wire

/-! ## String literals -/

/-- The character a hexadecimal digit value is written as. -/
def hexChar (n : ℕ) : Char := Nat.digitChar n

/-- One character inside a string literal, as `JSON.stringify` writes it. -/
def escapeChar (c : Char) : Text :=
  if c = '"' then ['\\', '"']
  else if c = '\\' then ['\\', '\\']
  else if c = '\n' then ['\\', 'n']
  else if c = '\r' then ['\\', 'r']
  else if c = '\t' then ['\\', 't']
  else if c = '\x08' then ['\\', 'b']
  else if c = '\x0c' then ['\\', 'f']
  else if c.toNat < 0x20 then
    ['\\', 'u', '0', '0', hexChar (c.toNat / 16), hexChar (c.toNat % 16)]
  else [c]

/-- The body of the string literal of a text. -/
def escapeText (s : Text) : Text := s.flatMap escapeChar

@[simp] theorem escapeText_nil : escapeText [] = [] := rfl

@[simp] theorem escapeText_cons (c : Char) (s : Text) :
    escapeText (c :: s) = escapeChar c ++ escapeText s := rfl

theorem escapeText_append (s t : Text) : escapeText (s ++ t) = escapeText s ++ escapeText t := by
  simp [escapeText]

/-- The string literal of a text. -/
def quote (s : Text) : Text := '"' :: (escapeText s ++ ['"'])

theorem quote_append (s t : Text) : quote s ++ t = '"' :: (escapeText s ++ '"' :: t) := by
  simp [quote]

/-- The value of a hexadecimal digit. -/
def hexValue? (c : Char) : Option ℕ :=
  if '0'.toNat ≤ c.toNat ∧ c.toNat ≤ '9'.toNat then some (c.toNat - '0'.toNat)
  else if 'a'.toNat ≤ c.toNat ∧ c.toNat ≤ 'f'.toNat then some (c.toNat - 'a'.toNat + 10)
  else if 'A'.toNat ≤ c.toNat ∧ c.toNat ≤ 'F'.toNat then some (c.toNat - 'A'.toNat + 10)
  else none

/-- The UTF-16 code unit of the four digits of a `\u` escape. -/
def codeUnit? (a b c d : Char) : Option ℕ :=
  (hexValue? a).bind fun a => (hexValue? b).bind fun b =>
    (hexValue? c).bind fun c => (hexValue? d).map fun d =>
      ((a * 16 + b) * 16 + c) * 16 + d

/-- What a short escape stands for. -/
def shortEscape? (c : Char) : Option Char :=
  if c = '"' then some '"'
  else if c = '\\' then some '\\'
  else if c = '/' then some '/'
  else if c = 'b' then some '\x08'
  else if c = 'f' then some '\x0c'
  else if c = 'n' then some '\n'
  else if c = 'r' then some '\r'
  else if c = 't' then some '\t'
  else none

/-- A leading surrogate code unit. -/
def isHighSurrogate (u : ℕ) : Bool := decide (0xD800 ≤ u ∧ u < 0xDC00)

/-- A trailing surrogate code unit. -/
def isLowSurrogate (u : ℕ) : Bool := decide (0xDC00 ≤ u ∧ u < 0xE000)

/-- The character of a code unit that may follow the leading surrogate `high`.
A leading surrogate without its other half becomes U+FFFD. -/
def unitText (high : Option ℕ) (u : ℕ) : Text :=
  match high with
  | some h =>
      if isLowSurrogate u then [Char.ofNat (0x10000 + (h - 0xD800) * 0x400 + (u - 0xDC00))]
      else ['\uFFFD', Char.ofNat u]
  | none => if isLowSurrogate u then ['\uFFFD'] else [Char.ofNat u]

/-- The text of a leading surrogate that nothing completed. -/
def loneText (high : Option ℕ) : Text :=
  match high with
  | some _ => ['\uFFFD']
  | none => []

/-- Put a text in front of what is read next. -/
def before (s : Text) (r : Option (Text × Text)) : Option (Text × Text) :=
  r.map fun p => (s ++ p.1, p.2)

@[simp] theorem before_some (s a b : Text) : before s (some (a, b)) = some (s ++ a, b) := rfl

@[simp] theorem before_none (s : Text) : before s none = none := rfl

/-- Read the body of a string literal up to its closing quote: the text it
stands for and what follows the quote.  `high` is a leading surrogate still
waiting for its other half. -/
def readBody : Option ℕ → Text → Option (Text × Text)
  | _, [] => none
  | high, '"' :: t => some (loneText high, t)
  | high, '\\' :: 'u' :: a :: b :: c :: d :: t =>
      match codeUnit? a b c d with
      | none => none
      | some u =>
          if isHighSurrogate u then before (loneText high) (readBody (some u) t)
          else before (unitText high u) (readBody none t)
  | high, '\\' :: c :: t =>
      match shortEscape? c with
      | none => none
      | some x => before (loneText high ++ [x]) (readBody none t)
  | high, c :: t =>
      if c.toNat < 0x20 then none
      else before (loneText high ++ [c]) (readBody none t)

/-- A character that stands for itself in a string literal. -/
def Plain (c : Char) : Prop := c ≠ '"' ∧ c ≠ '\\' ∧ 0x20 ≤ c.toNat

instance decidablePlain (c : Char) : Decidable (Plain c) :=
  inferInstanceAs (Decidable (_ ∧ _ ∧ _))

theorem escapeChar_of_plain {c : Char} (h : Plain c) : escapeChar c = [c] := by
  obtain ⟨hquote, hslash, hctrl⟩ := h
  have hlow : ∀ d : Char, d.toNat < 0x20 → c ≠ d := by
    rintro d hd rfl
    omega
  rw [escapeChar, if_neg hquote, if_neg hslash, if_neg (hlow _ (by decide)),
    if_neg (hlow _ (by decide)), if_neg (hlow _ (by decide)), if_neg (hlow _ (by decide)),
    if_neg (hlow _ (by decide)), if_neg (by omega)]

/-- A text of plain characters is its own escape. -/
theorem escapeText_of_plain {s : Text} (h : ∀ c ∈ s, Plain c) : escapeText s = s := by
  induction s with
  | nil => rfl
  | cons c s ih =>
      rw [List.forall_mem_cons] at h
      rw [escapeText_cons, escapeChar_of_plain h.1, ih h.2]
      rfl

/-- Any other character takes a backslash. -/
theorem two_le_length_escapeChar {c : Char} (h : ¬ Plain c) : 2 ≤ (escapeChar c).length := by
  unfold escapeChar
  split_ifs with hquote hslash hn hr ht hb hf hctrl
  case neg => exact absurd ⟨hquote, hslash, not_lt.mp hctrl⟩ h
  all_goals simp

theorem length_le_escapeText (s : Text) : s.length ≤ (escapeText s).length := by
  induction s with
  | nil => exact le_rfl
  | cons c s ih =>
      have hchar : 1 ≤ (escapeChar c).length := by
        by_cases hc : Plain c
        · rw [escapeChar_of_plain hc]
          exact le_rfl
        · exact (two_le_length_escapeChar hc).trans' (by omega)
      rw [escapeText_cons, List.length_append, List.length_cons]
      omega

/-- An escape that is no longer than the text escapes nothing. -/
theorem plain_of_length_escapeText {s : Text} (h : (escapeText s).length = s.length) :
    ∀ c ∈ s, Plain c := by
  induction s with
  | nil => simp
  | cons c s ih =>
      have hrest := length_le_escapeText s
      rw [escapeText_cons, List.length_append, List.length_cons] at h
      have hc : Plain c := by
        by_contra hc
        have htwo := two_le_length_escapeChar hc
        omega
      rw [escapeChar_of_plain hc, List.length_singleton] at h
      exact List.forall_mem_cons.mpr ⟨hc, ih (by omega)⟩

/-- Only a text of plain characters is its own escape. -/
theorem escapeText_eq_self_iff {s : Text} : escapeText s = s ↔ ∀ c ∈ s, Plain c :=
  ⟨fun h => plain_of_length_escapeText (congrArg List.length h), escapeText_of_plain⟩

theorem readBody_plain {c : Char} (h : Plain c) (t : Text) :
    readBody none (c :: t) = before [c] (readBody none t) := by
  obtain ⟨hquote, hslash, hctrl⟩ := h
  rw [readBody]
  · simp [loneText, Nat.not_lt.mpr hctrl]
  · exact hquote
  · intro _ _ _ _ _ hc
    exact absurd hc hslash
  · intro _ _ hc
    exact absurd hc hslash

/-- A raw control character ends the reading: the literal is malformed. -/
theorem readBody_control {c : Char} (h : c.toNat < 0x20) (t : Text) :
    readBody none (c :: t) = none := by
  rw [readBody]
  · simp [h]
  · rintro rfl; simp at h
  · rintro _ _ _ _ _ rfl; simp at h
  · rintro _ _ rfl; simp at h

theorem readBody_short {c x : Char} (h : shortEscape? c = some x) (t : Text) :
    readBody none ('\\' :: c :: t) = before [x] (readBody none t) := by
  have hu : c ≠ 'u' := by
    rintro rfl
    simp [shortEscape?] at h
  rw [readBody]
  · simp [h, loneText]
  · intro _ _ _ _ _ hc
    exact absurd hc hu

theorem readBody_unit {a b c d : Char} {u : ℕ} (h : codeUnit? a b c d = some u)
    (hu : u < 0xD800) (t : Text) :
    readBody none ('\\' :: 'u' :: a :: b :: c :: d :: t) =
      before [Char.ofNat u] (readBody none t) := by
  have hhigh : isHighSurrogate u = false := by simp [isHighSurrogate]; omega
  have hlow : isLowSurrogate u = false := by simp [isLowSurrogate]; omega
  rw [readBody]
  simp [h, hhigh, hlow, unitText]

/-- The two digits of a control character read back as its code. -/
theorem codeUnit?_control {n : ℕ} (h : n < 0x20) :
    codeUnit? '0' '0' (hexChar (n / 16)) (hexChar (n % 16)) = some n := by
  have all : ∀ n < 0x20,
      codeUnit? '0' '0' (hexChar (n / 16)) (hexChar (n % 16)) = some n := by decide
  exact all n h

/-- An escaped character is read back as itself. -/
theorem readBody_escapeChar (c : Char) (t : Text) :
    readBody none (escapeChar c ++ t) = before [c] (readBody none t) := by
  unfold escapeChar
  split_ifs with hquote hslash hn hr ht hb hf hctrl
  · subst hquote; exact readBody_short (by decide) t
  · subst hslash; exact readBody_short (by decide) t
  · subst hn; exact readBody_short (by decide) t
  · subst hr; exact readBody_short (by decide) t
  · subst ht; exact readBody_short (by decide) t
  · subst hb; exact readBody_short (by decide) t
  · subst hf; exact readBody_short (by decide) t
  · have hread := readBody_unit (codeUnit?_control hctrl) (by omega) t
    rw [Char.ofNat_toNat] at hread
    exact hread
  · exact readBody_plain ⟨hquote, hslash, by omega⟩ t

/-- **A text is read back from its own string literal.** -/
theorem readBody_escapeText (s t : Text) :
    readBody none (escapeText s ++ '"' :: t) = some (s, t) := by
  induction s with
  | nil => simp [readBody, loneText]
  | cons c s ih =>
      rw [escapeText_cons, List.append_assoc, readBody_escapeChar, ih]
      rfl

/-! ## Values -/

/-- A JSON value. A number is a numeral, not a value, so that a program that passes it on unread
passes on what was written. -/
inductive Json where
  | null
  | bool (b : Bool)
  | num (n : Numeral)
  | str (s : Text)
  | arr (vs : List Json)
  | obj (ms : List (Text × Json))

namespace Json

/-- The last member of a name. -/
def lookup (k : Text) : List (Text × Json) → Option Json
  | [] => none
  | (k', v) :: ms =>
      match lookup k ms with
      | some w => some w
      | none => if k = k' then some v else none

/-- Property access `v.k`; `none` is JavaScript's `undefined`. -/
def get (v : Json) (k : Text) : Option Json :=
  match v with
  | .obj ms => lookup k ms
  | _ => none

/-- JavaScript's truth value of an optional value. -/
def truthy : Option Json → Bool
  | none => false
  | some .null => false
  | some (.bool b) => b
  | some (.num n) => n.value ≠ 0
  | some (.str s) => !s.isEmpty
  | some _ => true

mutual

/-- The text of a value, as `JSON.stringify` writes it. -/
def print : Json → Text
  | .null => "null".toList
  | .bool true => "true".toList
  | .bool false => "false".toList
  | .num n => n.text
  | .str s => quote s
  | .arr [] => "[]".toList
  | .arr (v :: vs) => '[' :: (print v ++ printElems vs)
  | .obj [] => "{}".toList
  | .obj ((k, v) :: ms) => '{' :: (quote k ++ ':' :: (print v ++ printMembers ms))

/-- The elements after the first, each with its comma, and the bracket. -/
def printElems : List Json → Text
  | [] => [']']
  | v :: vs => ',' :: (print v ++ printElems vs)

/-- The members after the first, each with its comma, and the brace. -/
def printMembers : List (Text × Json) → Text
  | [] => ['}']
  | (k, v) :: ms => ',' :: (quote k ++ ':' :: (print v ++ printMembers ms))

end

/-! ## Parsing -/

/-- The blanks JSON allows between tokens. -/
def isBlank (c : Char) : Bool := c = ' ' || c = '\t' || c = '\n' || c = '\r'

/-- Skip the blanks a text starts with. -/
def skipBlanks (t : Text) : Text := t.dropWhile isBlank

theorem skipBlanks_cons {c : Char} {t : Text} (h : isBlank c = false) :
    skipBlanks (c :: t) = c :: t := by
  simp [skipBlanks, h]

mutual

/-- Parse the value a text starts with.  Every recursive call spends one unit
of fuel, and a text of length `l` never needs more than `2 * l + 2`. -/
def parseValue : ℕ → Text → Option (Json × Text)
  | 0, _ => none
  | n + 1, t =>
      match skipBlanks t with
      | '{' :: t =>
          match skipBlanks t with
          | '}' :: t => some (.obj [], t)
          | t => (parseMembers n t).map fun r => (.obj r.1, r.2)
      | '[' :: t =>
          match skipBlanks t with
          | ']' :: t => some (.arr [], t)
          | t => (parseElems n t).map fun r => (.arr r.1, r.2)
      | '"' :: t => (readBody none t).map fun r => (.str r.1, r.2)
      | 't' :: 'r' :: 'u' :: 'e' :: t => some (.bool true, t)
      | 'f' :: 'a' :: 'l' :: 's' :: 'e' :: t => some (.bool false, t)
      | 'n' :: 'u' :: 'l' :: 'l' :: t => some (.null, t)
      | t => (scanNumeral t).map fun r => (.num r.1, r.2)

/-- Parse the elements of a non-empty array and its bracket. -/
def parseElems : ℕ → Text → Option (List Json × Text)
  | 0, _ => none
  | n + 1, t =>
      (parseValue n t).bind fun r =>
        match skipBlanks r.2 with
        | ',' :: t => (parseElems n t).map fun q => (r.1 :: q.1, q.2)
        | ']' :: t => some ([r.1], t)
        | _ => none

/-- Parse the members of a non-empty object and its brace. -/
def parseMembers : ℕ → Text → Option (List (Text × Json) × Text)
  | 0, _ => none
  | n + 1, t =>
      match skipBlanks t with
      | '"' :: t =>
          (readBody none t).bind fun k =>
            match skipBlanks k.2 with
            | ':' :: t =>
                (parseValue n t).bind fun r =>
                  match skipBlanks r.2 with
                  | ',' :: t => (parseMembers n t).map fun q => ((k.1, r.1) :: q.1, q.2)
                  | '}' :: t => some ([(k.1, r.1)], t)
                  | _ => none
            | _ => none
      | _ => none

end

/-- Parse a whole text: one value with blanks around it. -/
def parse (t : Text) : Option Json :=
  match parseValue (2 * t.length + 2) t with
  | some (v, r) => if skipBlanks r = [] then some v else none
  | none => none

end Json

end Wire
