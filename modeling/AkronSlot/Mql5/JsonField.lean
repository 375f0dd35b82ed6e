import AkronSlot.Mql5.Builtins
import AkronSlot.Wire.JsonRoundTrip

/-!
# `JsonField` and `JsonEscape` of SlotService

SlotService has no JSON parser.  `jsonField` searches the text of a frame for
the quoted key, level by level, and cuts the value out by delimiters;
`jsonEscape` prepares a broker string for the texts SlotService prints.

The second half of the module computes what `jsonField` does on a text that
`JSON.stringify` printed: where the search for a quoted key stops
(`find_key_literal`) and what the cut of a value leaves (`readValue_quote`,
`takeWhile_bare_escapeText`).

## What the search does not know

The search for a quoted key starts at the beginning of the text and takes the first occurrence,
wherever it is: as a key at another level, or within a string. The colon is the next one after
it. An unquoted value ends at the first comma, closing brace or blank, so an object is cut at
its first member; the next level of a path is then searched in what is left.

A quoted value is returned as it stands between the quotes. Nothing undoes its escapes.

## Main Definitions

* `jsonField`, `fieldAt`, `readValue`
* `jsonEscape`
* `Identifier` — the keys for which a search cannot stop inside an escape
-/

namespace AkronSlot.Mql5

open Wire

/-! ## `JsonField` -/

/-- The characters that do not end an unquoted value: all but comma, closing brace and blank. A
closing bracket and a tab belong to the value. -/
def bare (c : Char) : Bool := c ≠ ',' && c ≠ '}' && c ≠ ' '

/-- The raw text up to the closing quote, a backslash skipping what follows it. -/
def quotedSpan : Text → Text
  | [] => []
  | '"' :: _ => []
  | '\\' :: c :: t => '\\' :: c :: quotedSpan t
  | c :: t => c :: quotedSpan t

/-- The value text after a colon: blanks skipped, then a quoted span or the
characters up to the next delimiter. -/
def readValue (t : Text) : Text :=
  match t.dropWhile (fun c => c = ' ' || c = '\t') with
  | '"' :: t => quotedSpan t
  | t => t.takeWhile bare

/-- The quoted key that is searched for. -/
def keyLiteral (key : Text) : Text := '"' :: (key ++ ['"'])

/-- One level of `JsonField`: the value after the first colon that follows the first occurrence of
the quoted key; empty when either is missing. That a key is missing and that its value is empty
look the same to the handlers. -/
def fieldAt (sub key : Text) : Text :=
  match find (keyLiteral key) sub with
  | none => []
  | some atKey =>
      match find [':'] atKey with
      | none => []
      | some atColon => readValue atColon.tail

/-- `JsonField(body, path)`. -/
def jsonField (body path : Text) : Text := (path.splitOn '.').foldl fieldAt body

/-! ## `JsonEscape` -/

/-- `JsonEscape`: five whole-string replacements, one after the other. The backslash is the first
of them, so that those which the others put in are not doubled. -/
def jsonEscape (s : Text) : Text :=
  let r := replaceChar '\\' "\\\\" s
  let r := replaceChar '"' "\\\"" r
  let r := replaceChar '\n' "\\n" r
  let r := replaceChar '\r' "\\r" r
  replaceChar '\t' "\\t" r

/-- A control character that `JsonEscape` leaves as it is. -/
def RawControl (c : Char) : Prop := c.toNat < 0x20 ∧ c ≠ '\n' ∧ c ≠ '\r' ∧ c ≠ '\t'

instance decidableRawControl (c : Char) : Decidable (RawControl c) :=
  inferInstanceAs (Decidable (_ ∧ _ ∧ _ ∧ _))

@[simp] theorem jsonEscape_nil : jsonEscape [] = [] := rfl

theorem jsonEscape_append (s t : Text) : jsonEscape (s ++ t) = jsonEscape s ++ jsonEscape t := by
  simp only [jsonEscape, replaceChar_append]

/-- On a character that is no raw control character, `JsonEscape` writes the
escape that `JSON.stringify` writes. -/
theorem jsonEscape_singleton {c : Char} (h : ¬ RawControl c) :
    jsonEscape [c] = escapeChar c := by
  unfold escapeChar
  split_ifs with hquote hslash hn hr ht hb hf hctrl
  · subst hquote; decide
  · subst hslash; decide
  · subst hn; decide
  · subst hr; decide
  · subst ht; decide
  · subst hb; exact absurd (by decide) h
  · subst hf; exact absurd (by decide) h
  · exact absurd ⟨hctrl, hn, hr, ht⟩ h
  · simp [jsonEscape, replaceChar, hquote, hslash, hn, hr, ht]

/-- A raw control character is printed as it is. -/
theorem jsonEscape_rawControl {c : Char} (h : RawControl c) : jsonEscape [c] = [c] := by
  obtain ⟨hctrl, hn, hr, ht⟩ := h
  have hslash : c ≠ '\\' := by rintro rfl; simp at hctrl
  have hquote : c ≠ '"' := by rintro rfl; simp at hctrl
  simp [jsonEscape, replaceChar, hquote, hslash, hn, hr, ht]

/-- Without raw control characters the two escapes write the same text. -/
theorem jsonEscape_eq_escapeText {s : Text} (h : ∀ c ∈ s, ¬ RawControl c) :
    jsonEscape s = escapeText s := by
  induction s with
  | nil => rfl
  | cons c s ih =>
      have happ : jsonEscape (c :: s) = jsonEscape [c] ++ jsonEscape s :=
        jsonEscape_append [c] s
      rw [happ, jsonEscape_singleton (h c (by simp)), ih fun x hx => h x (by simp [hx])]
      rfl

/-- **A raw control character makes the printed literal malformed**: reading it
fails, whatever follows. -/
theorem readBody_jsonEscape_rawControl {s : Text} (h : ∃ c ∈ s, RawControl c) (t : Text) :
    readBody none (jsonEscape s ++ t) = none := by
  induction s with
  | nil => simp at h
  | cons c s ih =>
      have happ : jsonEscape (c :: s) = jsonEscape [c] ++ jsonEscape s :=
        jsonEscape_append [c] s
      rw [happ, List.append_assoc]
      by_cases hc : RawControl c
      · rw [jsonEscape_rawControl hc]
        exact readBody_control hc.1 _
      · have hrest : ∃ x ∈ s, RawControl x := by
          obtain ⟨x, hx, hraw⟩ := h
          rcases List.mem_cons.mp hx with rfl | hx
          · exact absurd hraw hc
          · exact ⟨x, hx, hraw⟩
        rw [jsonEscape_singleton hc, readBody_escapeChar, ih hrest]
        rfl

/-! ## Cutting a printed value -/

/-- A hexadecimal digit stands for itself and delimits nothing. -/
theorem hexChar_plain {n : ℕ} (h : n < 16) : Plain (hexChar n) ∧ bare (hexChar n) = true := by
  have all : ∀ n < 16, Plain (hexChar n) ∧ bare (hexChar n) = true := by decide
  exact all n h

/-- What an escaped character is made of: a character standing for itself, or a
backslash, the character it escapes, and further plain characters. -/
theorem escapeChar_cases (c : Char) :
    (Plain c ∧ escapeChar c = [c]) ∨
      ∃ x rest, escapeChar c = '\\' :: x :: rest ∧ (∀ y ∈ x :: rest, bare y = true) ∧
        (∀ y ∈ rest, Plain y) ∧ bare c = true ∧ ¬ Plain c := by
  unfold escapeChar
  split_ifs with hquote hslash hn hr ht hb hf hctrl
  · subst hquote; right; exact ⟨_, _, rfl, by simp [bare], by simp, by decide, by decide⟩
  · subst hslash; right; exact ⟨_, _, rfl, by simp [bare], by simp, by decide, by decide⟩
  · subst hn; right; exact ⟨_, _, rfl, by simp [bare], by simp, by decide, by decide⟩
  · subst hr; right; exact ⟨_, _, rfl, by simp [bare], by simp, by decide, by decide⟩
  · subst ht; right; exact ⟨_, _, rfl, by simp [bare], by simp, by decide, by decide⟩
  · subst hb; right; exact ⟨_, _, rfl, by simp [bare], by simp, by decide, by decide⟩
  · subst hf; right; exact ⟨_, _, rfl, by simp [bare], by simp, by decide, by decide⟩
  · right
    obtain ⟨hplain₁, hbare₁⟩ := hexChar_plain (n := c.toNat / 16) (by omega)
    obtain ⟨hplain₂, hbare₂⟩ := hexChar_plain (n := c.toNat % 16) (by omega)
    have hzero : Plain '0' := by decide
    refine ⟨_, _, rfl, ?_, ?_, ?_, fun h => absurd h.2.2 (by omega)⟩
    · simp [hbare₁, hbare₂]
      decide
    · simp [hplain₁, hplain₂, hzero]
    · have hcomma : c ≠ ',' := by rintro rfl; simp at hctrl
      have hclose : c ≠ '}' := by rintro rfl; simp at hctrl
      have hblank : c ≠ ' ' := by rintro rfl; simp at hctrl
      simp [bare, hcomma, hclose, hblank]
  · exact Or.inl ⟨⟨hquote, hslash, by omega⟩, rfl⟩

theorem quotedSpan_plain {c : Char} (h : Plain c) (t : Text) :
    quotedSpan (c :: t) = c :: quotedSpan t := by
  rw [quotedSpan]
  · exact h.1
  · intro _ _ hc
    exact absurd hc h.2.1

theorem quotedSpan_append_plain {s : Text} (h : ∀ c ∈ s, Plain c) (t : Text) :
    quotedSpan (s ++ t) = s ++ quotedSpan t := by
  induction s with
  | nil => rfl
  | cons c s ih =>
      rw [List.cons_append, quotedSpan_plain (h c (by simp)), ih fun x hx => h x (by simp [hx])]
      rfl

/-- The span passes over an escaped text as a whole. -/
theorem quotedSpan_escapeText (s t : Text) :
    quotedSpan (escapeText s ++ t) = escapeText s ++ quotedSpan t := by
  induction s with
  | nil => rfl
  | cons c s ih =>
      rw [escapeText_cons, List.append_assoc]
      rcases escapeChar_cases c with ⟨hplain, hc⟩ | ⟨x, rest, hc, -, hrest, -, -⟩
      · rw [hc, List.singleton_append, quotedSpan_plain hplain, ih]
        rfl
      · rw [hc]
        simp only [List.cons_append, quotedSpan, quotedSpan_append_plain hrest, ih,
          List.append_assoc]

/-- Cutting a printed string at a delimiter: either the whole literal is bare,
or the cut keeps the escapes of the characters before the first delimiter. -/
theorem takeWhile_bare_escapeText (s t : Text) :
    (escapeText s ++ t).takeWhile bare =
      escapeText (s.takeWhile bare) ++ if ∀ c ∈ s, bare c = true then t.takeWhile bare else [] := by
  induction s with
  | nil => simp
  | cons c s ih =>
      rw [escapeText_cons, List.append_assoc]
      have hcut : ∀ e : Text, (∀ y ∈ e, bare y = true) → bare c = true → escapeChar c = e →
          (escapeChar c ++ (escapeText s ++ t)).takeWhile bare =
            escapeText ((c :: s).takeWhile bare) ++
              if ∀ x ∈ c :: s, bare x = true then t.takeWhile bare else [] := by
        intro e he hc heq
        rw [List.takeWhile_cons_of_pos hc, escapeText_cons, heq,
          List.takeWhile_append_of_pos he, ih, List.append_assoc]
        simp [hc]
      rcases escapeChar_cases c with ⟨-, hc⟩ | ⟨x, rest, hc, hbare, -, hcbare, -⟩
      · by_cases hb : bare c = true
        · exact hcut [c] (by simpa using hb) hb hc
        · rw [hc, List.singleton_append, List.takeWhile_cons_of_neg hb,
            List.takeWhile_cons_of_neg hb]
          simp [hb]
      · refine hcut ('\\' :: x :: rest) ?_ hcbare hc
        intro y hy
        rcases List.mem_cons.mp hy with rfl | hy
        · decide
        · exact hbare y hy

/-! ## Searching a key in a printed text -/

/-- A character of an identifier: an ASCII letter or digit, an underscore, a
dollar sign, or a character outside ASCII. -/
def identChar (c : Char) : Bool :=
  c.isAlphanum || c = '_' || c = '$' || decide (0x80 ≤ c.toNat)

/-- An identifier key. None of its characters is a quote or a backslash, which is what keeps a
search from stopping inside an escape. -/
def Identifier (k : Text) : Prop := k ≠ [] ∧ ∀ c ∈ k, identChar c = true

instance decidableIdentifier (k : Text) : Decidable (Identifier k) :=
  decidable_of_iff (k ≠ [] ∧ k.all identChar = true) (by simp [Identifier])

/-- No delimiter, quote, backslash or control character is an identifier
character. -/
theorem identChar_ne {c : Char} (h : identChar c = true) :
    c ∉ ['"', '\\', ':', ',', '}', ' ', '.', '{'] ∧ 0x20 ≤ c.toNat := by
  constructor
  · intro hmem
    revert h
    simp only [List.mem_cons, List.not_mem_nil, or_false] at hmem
    rcases hmem with rfl | rfl | rfl | rfl | rfl | rfl | rfl | rfl <;> decide
  · by_contra hlow
    have hcontrol : ∀ n < 0x20, identChar (Char.ofNat n) = false := by decide
    have hc := hcontrol c.toNat (by omega)
    rw [Char.ofNat_toNat, h] at hc
    exact Bool.noConfusion hc

namespace Identifier

variable {k : Text}

theorem notMem (h : Identifier k) {c : Char} (hc : c ∈ ['"', '\\', ':', ',', '}', ' ', '.', '{']) :
    c ∉ k := fun hmem => (identChar_ne (h.2 c hmem)).1 hc

theorem plain (h : Identifier k) : ∀ c ∈ k, Plain c := by
  intro c hc
  obtain ⟨hne, hctrl⟩ := identChar_ne (h.2 c hc)
  simp only [List.mem_cons, List.not_mem_nil, or_false, not_or] at hne
  exact ⟨hne.1, hne.2.1, hctrl⟩

theorem bare (h : Identifier k) : ∀ c ∈ k, bare c = true := by
  intro c hc
  obtain ⟨hne, -⟩ := identChar_ne (h.2 c hc)
  simp only [List.mem_cons, List.not_mem_nil, or_false, not_or] at hne
  simp [Mql5.bare, hne]

end Identifier

/-- Only the escape of a quote contains a quote. -/
theorem quote_notMem_escapeChar {c : Char} (h : c ≠ '"') : '"' ∉ escapeChar c := by
  unfold escapeChar
  split_ifs with hquote hslash hn hr ht hb hf hctrl
  · exact absurd hquote h
  all_goals simp
  · have hquote : ∀ n < 16, hexChar n ≠ '"' := by decide
    exact ⟨(hquote _ (by omega)).symm, (hquote _ (by omega)).symm⟩
  · exact Ne.symm h

/-- A text that is not the key does not close as the key does. -/
theorem no_start_body {k s : Text} (hk : Identifier k) (hs : s ≠ k) (t : Text) :
    ¬ keyLiteral k <+: '"' :: (escapeText s ++ '"' :: t) := by
  intro h
  obtain ⟨u, hu⟩ := (List.cons_prefix_cons.mp h).2
  rw [List.append_assoc, List.singleton_append] at hu
  have hread := readBody_escapeText s t
  rw [← hu] at hread
  have hreadk := readBody_escapeText k u
  rw [escapeText_of_plain hk.plain, hread] at hreadk
  exact hs (by simpa using congrArg (Option.map Prod.fst) hreadk)

theorem quote_suffix_cons_iff {k s : Text} {c : Char} (h : c = '"' → s ≠ k) :
    '"' :: k <:+ c :: s ↔ '"' :: k <:+ s := by
  rw [List.suffix_cons_iff]
  constructor
  · rintro (heq | hsuffix)
    · obtain ⟨rfl, rfl⟩ := List.cons.inj heq
      exact absurd rfl (h rfl)
    · exact hsuffix
  · exact Or.inr

/-- Inside the body of a printed literal the search stops only at an escaped
quote that is followed by exactly the key and the closing quote. -/
theorem find_key_body {k : Text} (hk : Identifier k) (s t : Text) :
    find (keyLiteral k) (escapeText s ++ '"' :: t) =
      if '"' :: k <:+ s then some (keyLiteral k ++ t)
      else find (keyLiteral k) ('"' :: t) := by
  induction s with
  | nil => simp
  | cons c s ih =>
      rw [escapeText_cons, List.append_assoc]
      by_cases hquote : c = '"'
      · -- an escaped quote: the only place where the key can start
        subst hquote
        have hskip : escapeChar '"' ++ (escapeText s ++ '"' :: t) =
            '\\' :: '"' :: (escapeText s ++ '"' :: t) := rfl
        rw [hskip, keyLiteral, find_cons_of_ne (by decide), ← keyLiteral]
        by_cases hs : s = k
        · subst hs
          rw [escapeText_of_plain hk.plain, if_pos (List.suffix_refl _)]
          rw [find_of_start (by simp [keyLiteral]) (by simp [keyLiteral])]
          simp [keyLiteral]
        · rw [find_cons_of_no_start (no_start_body hk hs t), ih]
          simp only [quote_suffix_cons_iff fun _ => hs]
      · -- the key starts with a quote, so it starts behind this character
        have hnot : '"' ∉ escapeChar c := quote_notMem_escapeChar hquote
        rw [keyLiteral, find_append_of_notMem hnot, ← keyLiteral, ih]
        simp only [quote_suffix_cons_iff fun h => absurd h hquote]

end AkronSlot.Mql5
