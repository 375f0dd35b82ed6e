import AkronSlot.Wire.JsonRoundTrip

/-!
# The grammar behind the parser

`Json.Reads t v r` says without fuel what `Json.parseValue` finds: the text `t`
starts with a value `v`, and `r` follows it.  The rules are those of the grammar,
so that a fact about every text that parses is an induction over its derivation.

## Why a relation

`parseValue` spends fuel, and a proof by induction on the fuel has to carry bounds for it
through every call. A derivation carries none: its cases are those of the grammar, and
`parse_eq_some_iff` says that the two find the same.

## Main Definitions

* `Json.Reads`, `Json.ReadsElems`, `Json.ReadsMembers`

## Main Results

* `Json.parse_eq_some_iff`
* `Json.length_print_le_of_parse` — no text of a value is shorter than its print
-/

namespace Wire

/-! ## A scanned numeral is the text that was passed over -/

theorem char_of_digitOf? {c : Char} {d : Digit} (h : digitOf? c = some d) : c = d.char := by
  have hchar : ∀ n, 48 ≤ n → n ≤ 57 → Char.ofNat n = Nat.digitChar (n - 48) := by
    intro n hlow hhigh
    interval_cases n <;> rfl
  unfold digitOf? at h
  split at h
  · next hc =>
      obtain rfl := Option.some.inj h
      have hval := hchar c.toNat hc.1 hc.2
      rw [Char.ofNat_toNat] at hval
      exact hval
  · cases h

theorem digitsText_digitRun (t : Text) : digitsText (digitRun t).1 ++ (digitRun t).2 = t := by
  induction t with
  | nil => rfl
  | cons c t ih =>
      rw [digitRun]
      cases hc : digitOf? c with
      | none => rfl
      | some d =>
          rw [char_of_digitOf? hc]
          exact congrArg (d.char :: ·) ih

theorem scanWhole_sound {t r : Text} {w : Whole} (h : scanWhole t = some (w, r)) :
    t = digitsText w.digits ++ r := by
  unfold scanWhole at h
  split at h
  · cases h
  · next c u =>
      split at h
      · cases h
      · next hc =>
          obtain ⟨rfl, rfl⟩ := Prod.mk.inj (Option.some.inj h)
          rw [char_of_digitOf? hc]
          rfl
      · next d hd hc =>
          obtain ⟨rfl, rfl⟩ := Prod.mk.inj (Option.some.inj h)
          have hrun := digitsText_digitRun u
          rw [char_of_digitOf? hc, Whole.digits, digitsText_cons, List.cons_append, hrun]
          rfl

theorem scanFrac_sound {t r : Text} {ds : List Digit} (h : scanFrac t = some (ds, r)) :
    t = Numeral.fracText ds ++ r := by
  unfold scanFrac at h
  split at h
  · next u =>
      have hrun := digitsText_digitRun u
      split at h
      · cases h
      · next ds' r' hne heq =>
          obtain ⟨rfl, rfl⟩ := Prod.mk.inj (Option.some.inj h)
          rw [heq] at hrun
          cases ds' with
          | nil => exact absurd rfl hne
          | cons d ds => exact congrArg ('.' :: ·) hrun.symm
  · obtain ⟨rfl, rfl⟩ := Prod.mk.inj (Option.some.inj h)
    rfl

theorem scanExpDigits_sound {upper : Bool} {t r : Text} {e : Option Exponent}
    (h : scanExpDigits upper t = some (e, r)) :
    (if upper then 'E' else 'e') :: t = Numeral.expText e ++ r := by
  have hrun := digitsText_digitRun (scanExpSign t).2
  unfold scanExpDigits at h
  split at h
  · cases h
  · next d ds t' heq =>
      obtain ⟨rfl, rfl⟩ := Prod.mk.inj (Option.some.inj h)
      rw [heq] at hrun
      simp only [Numeral.expText, Exponent.text, List.cons_append, List.append_assoc, hrun]
      -- the sign character, if there is one
      cases t with
      | nil => rfl
      | cons c t =>
          by_cases hminus : c = '-'
          · rw [hminus]
            rfl
          · by_cases hplus : c = '+'
            · rw [hplus]
              rfl
            · simp [scanExpSign, hminus, hplus]

theorem scanExp_sound {t r : Text} {e : Option Exponent} (h : scanExp t = some (e, r)) :
    t = Numeral.expText e ++ r := by
  unfold scanExp at h
  split at h
  · exact scanExpDigits_sound h
  · exact scanExpDigits_sound h
  · obtain ⟨rfl, rfl⟩ := Prod.mk.inj (Option.some.inj h)
    rfl

theorem scanUnsigned_sound {neg : Bool} {t r : Text} {m : Numeral}
    (h : scanUnsigned neg t = some (m, r)) :
    (if neg then ['-'] else []) ++ t = m.text ++ r := by
  rw [scanUnsigned, Option.bind_eq_some_iff] at h
  obtain ⟨⟨w, u⟩, hw, h⟩ := h
  rw [Option.bind_eq_some_iff] at h
  obtain ⟨⟨ds, x⟩, hds, h⟩ := h
  obtain ⟨⟨e, y⟩, he, heq⟩ := Option.map_eq_some_iff.mp h
  obtain ⟨rfl, rfl⟩ := Prod.mk.inj heq
  have hfrac := scanFrac_sound (t := u) hds
  have hexp := scanExp_sound (t := x) he
  rw [scanWhole_sound hw, hfrac, hexp]
  simp only [Numeral.text, List.append_assoc]

/-- **A numeral is the text that was passed over.** -/
theorem scanNumeral_sound {t r : Text} {m : Numeral} (h : scanNumeral t = some (m, r)) :
    t = m.text ++ r := by
  unfold scanNumeral at h
  split at h
  · exact scanUnsigned_sound h
  · exact scanUnsigned_sound h

namespace Json

/-! ## Derivations -/

/-- The text starts with a key and its colon. -/
def ReadsKey (t k r : Text) : Prop :=
  ∃ u w, skipBlanks t = '"' :: u ∧ readBody none u = some (k, w) ∧ skipBlanks w = ':' :: r

mutual

/-- The text `t` starts with the value `v`; `r` follows it. One rule for each alternative of the
grammar, so a proof about every text that parses has a case for each. -/
inductive Reads : Text → Json → Text → Prop
  | null {t r : Text} (h : skipBlanks t = 'n' :: 'u' :: 'l' :: 'l' :: r) : Reads t .null r
  | true_ {t r : Text} (h : skipBlanks t = 't' :: 'r' :: 'u' :: 'e' :: r) : Reads t (.bool true) r
  | false_ {t r : Text} (h : skipBlanks t = 'f' :: 'a' :: 'l' :: 's' :: 'e' :: r) :
      Reads t (.bool false) r
  | num {t r : Text} {m : Numeral} (h : scanNumeral (skipBlanks t) = some (m, r)) :
      Reads t (.num m) r
  | str {t u s r : Text} (h : skipBlanks t = '"' :: u) (hbody : readBody none u = some (s, r)) :
      Reads t (.str s) r
  | emptyArr {t u r : Text} (h : skipBlanks t = '[' :: u) (hclose : skipBlanks u = ']' :: r) :
      Reads t (.arr []) r
  | arr {t u r : Text} {vs : List Json} (h : skipBlanks t = '[' :: u)
      (helems : ReadsElems (skipBlanks u) vs r) : Reads t (.arr vs) r
  | emptyObj {t u r : Text} (h : skipBlanks t = '{' :: u) (hclose : skipBlanks u = '}' :: r) :
      Reads t (.obj []) r
  | obj {t u r : Text} {ms : List (Text × Json)} (h : skipBlanks t = '{' :: u)
      (hmembers : ReadsMembers (skipBlanks u) ms r) : Reads t (.obj ms) r

/-- The text starts with the elements of an array and its bracket. -/
inductive ReadsElems : Text → List Json → Text → Prop
  | last {t u r : Text} {v : Json} (hvalue : Reads t v u) (hclose : skipBlanks u = ']' :: r) :
      ReadsElems t [v] r
  | cons {t u w r : Text} {v : Json} {vs : List Json} (hvalue : Reads t v u)
      (hcomma : skipBlanks u = ',' :: w) (hrest : ReadsElems w vs r) : ReadsElems t (v :: vs) r

/-- The text starts with the members of an object and its brace. -/
inductive ReadsMembers : Text → List (Text × Json) → Text → Prop
  | last {t k u w r : Text} {v : Json} (hkey : ReadsKey t k u) (hvalue : Reads u v w)
      (hclose : skipBlanks w = '}' :: r) : ReadsMembers t [(k, v)] r
  | cons {t k u w x r : Text} {v : Json} {ms : List (Text × Json)} (hkey : ReadsKey t k u)
      (hvalue : Reads u v w) (hcomma : skipBlanks w = ',' :: x) (hrest : ReadsMembers x ms r) :
      ReadsMembers t ((k, v) :: ms) r

end

/-! ## What the parser finds is derived -/

section Sound

variable {n : ℕ}

theorem reads_of_parseValue_succ
    (helems : ∀ {t vs r}, parseElems n t = some (vs, r) → ReadsElems t vs r)
    (hmembers : ∀ {t ms r}, parseMembers n t = some (ms, r) → ReadsMembers t ms r)
    {t r : Text} {v : Json} (h : parseValue (n + 1) t = some (v, r)) : Reads t v r := by
  rw [parseValue] at h
  split at h
  · next u hu =>
      split at h
      · next w hw =>
          obtain ⟨rfl, rfl⟩ := Prod.mk.inj (Option.some.inj h)
          exact .emptyObj hu hw
      · obtain ⟨⟨ms, q⟩, hq, heq⟩ := Option.map_eq_some_iff.mp h
        obtain ⟨rfl, rfl⟩ := Prod.mk.inj heq
        exact .obj hu (hmembers hq)
  · next u hu =>
      split at h
      · next w hw =>
          obtain ⟨rfl, rfl⟩ := Prod.mk.inj (Option.some.inj h)
          exact .emptyArr hu hw
      · obtain ⟨⟨vs, q⟩, hq, heq⟩ := Option.map_eq_some_iff.mp h
        obtain ⟨rfl, rfl⟩ := Prod.mk.inj heq
        exact .arr hu (helems hq)
  · next u hu =>
      obtain ⟨⟨s, q⟩, hq, heq⟩ := Option.map_eq_some_iff.mp h
      obtain ⟨rfl, rfl⟩ := Prod.mk.inj heq
      exact .str hu hq
  · next u hu =>
      obtain ⟨rfl, rfl⟩ := Prod.mk.inj (Option.some.inj h)
      exact .true_ hu
  · next u hu =>
      obtain ⟨rfl, rfl⟩ := Prod.mk.inj (Option.some.inj h)
      exact .false_ hu
  · next u hu =>
      obtain ⟨rfl, rfl⟩ := Prod.mk.inj (Option.some.inj h)
      exact .null hu
  · obtain ⟨⟨m, q⟩, hq, heq⟩ := Option.map_eq_some_iff.mp h
    obtain ⟨rfl, rfl⟩ := Prod.mk.inj heq
    exact .num hq

theorem reads_of_parseElems_succ
    (hvalue : ∀ {t v r}, parseValue n t = some (v, r) → Reads t v r)
    (helems : ∀ {t vs r}, parseElems n t = some (vs, r) → ReadsElems t vs r)
    {t r : Text} {vs : List Json} (h : parseElems (n + 1) t = some (vs, r)) :
    ReadsElems t vs r := by
  rw [parseElems, Option.bind_eq_some_iff] at h
  obtain ⟨⟨v, u⟩, hv, h⟩ := h
  dsimp only at h
  split at h
  · next w hw =>
      obtain ⟨⟨ws, q⟩, hq, heq⟩ := Option.map_eq_some_iff.mp h
      obtain ⟨rfl, rfl⟩ := Prod.mk.inj heq
      exact .cons (hvalue hv) hw (helems hq)
  · next w hw =>
      obtain ⟨rfl, rfl⟩ := Prod.mk.inj (Option.some.inj h)
      exact .last (hvalue hv) hw
  · cases h

theorem reads_of_parseMembers_succ
    (hvalue : ∀ {t v r}, parseValue n t = some (v, r) → Reads t v r)
    (hmembers : ∀ {t ms r}, parseMembers n t = some (ms, r) → ReadsMembers t ms r)
    {t r : Text} {ms : List (Text × Json)} (h : parseMembers (n + 1) t = some (ms, r)) :
    ReadsMembers t ms r := by
  rw [parseMembers] at h
  split at h
  · next u hu =>
      rw [Option.bind_eq_some_iff] at h
      obtain ⟨⟨k, w⟩, hk, h⟩ := h
      dsimp only at h
      split at h
      · next x hx =>
          rw [Option.bind_eq_some_iff] at h
          obtain ⟨⟨v, y⟩, hv, h⟩ := h
          dsimp only at h
          have hkey : ReadsKey t k x := ⟨u, w, hu, hk, hx⟩
          split at h
          · next z hz =>
              obtain ⟨⟨ns, q⟩, hq, heq⟩ := Option.map_eq_some_iff.mp h
              obtain ⟨rfl, rfl⟩ := Prod.mk.inj heq
              exact .cons hkey (hvalue hv) hz (hmembers hq)
          · next z hz =>
              obtain ⟨rfl, rfl⟩ := Prod.mk.inj (Option.some.inj h)
              exact .last hkey (hvalue hv) hz
          · cases h
      · cases h
  · cases h

/-- By induction on the fuel, one call at a time. -/
theorem reads_of_parse (n : ℕ) :
    (∀ {t v r}, parseValue n t = some (v, r) → Reads t v r) ∧
      (∀ {t vs r}, parseElems n t = some (vs, r) → ReadsElems t vs r) ∧
      ∀ {t ms r}, parseMembers n t = some (ms, r) → ReadsMembers t ms r := by
  induction n with
  | zero => exact ⟨nofun, nofun, nofun⟩
  | succ n ih =>
      obtain ⟨hvalue, helems, hmembers⟩ := ih
      exact ⟨reads_of_parseValue_succ helems hmembers, reads_of_parseElems_succ hvalue helems,
        reads_of_parseMembers_succ hvalue hmembers⟩

end Sound

/-! ## No text of a value is shorter than its print -/

theorem length_skipBlanks_le (t : Text) : (skipBlanks t).length ≤ t.length :=
  (List.dropWhile_sublist isBlank).length_le

theorem length_of_skipBlanks {t r : Text} {c : Char} (h : skipBlanks t = c :: r) :
    r.length + 1 ≤ t.length := by
  have hle := length_skipBlanks_le t
  rw [h, List.length_cons] at hle
  exact hle

theorem length_escapeChar_le (c : Char) : (escapeChar c).length ≤ 6 := by
  unfold escapeChar
  split_ifs <;> simp

theorem length_escapeChar_short {c x : Char} (h : shortEscape? c = some x) :
    (escapeChar x).length ≤ 2 := by
  unfold shortEscape? at h
  split_ifs at h
  all_goals
    obtain rfl := Option.some.inj h
    decide

theorem length_escapeText_unitText (high : Option ℕ) (u : ℕ) :
    (escapeText (unitText high u)).length ≤ 6 + (loneText high).length := by
  have hone : ∀ c : Char, (escapeText [c]).length ≤ 6 := by
    intro c
    simpa [escapeText] using length_escapeChar_le c
  have hlone : (escapeChar '\uFFFD').length = 1 := by decide
  cases high with
  | none =>
      simp only [unitText]
      split
      · exact (hone _).trans (by simp)
      · exact (hone _).trans (by simp)
  | some h =>
      simp only [unitText]
      split
      · exact (hone _).trans (by simp)
      · have := length_escapeChar_le (Char.ofNat u)
        simp only [escapeText_cons, escapeText_nil, List.length_append, hlone, loneText,
          List.length_cons, List.length_nil]
        omega

theorem length_escapeText_loneText (high : Option ℕ) :
    (escapeText (loneText high)).length = (loneText high).length := by
  cases high with
  | none => rfl
  | some h =>
      exact congrArg (List.length ∘ escapeText) (show loneText (some h) = ['\uFFFD'] from rfl)

/-- A literal is at least as long as the print of what it stands for. -/
theorem length_readBody {q : Option ℕ} {t s r : Text} (h : readBody q t = some (s, r)) :
    (escapeText s).length + r.length + 1 ≤ t.length + (loneText q).length := by
  fun_induction readBody q t generalizing s r with
  | case1 => cases h
  | case2 q t =>
      obtain ⟨rfl, rfl⟩ := Prod.mk.inj (Option.some.inj h)
      have := length_escapeText_loneText q
      simp only [List.length_cons]
      omega
  | case3 => cases h
  | case4 q a b c d t u hu hhigh ih =>
      obtain ⟨⟨s', r'⟩, hbody, heq⟩ := Option.map_eq_some_iff.mp h
      obtain ⟨rfl, rfl⟩ := Prod.mk.inj heq
      have hih := ih hbody
      have hlone := length_escapeText_loneText q
      -- a surrogate that finds no other half stands for one character
      have hone : (loneText (some u)).length = 1 := rfl
      simp only [escapeText_append, List.length_append, List.length_cons] at hih ⊢
      omega
  | case5 q a b c d t u hu hhigh ih =>
      obtain ⟨⟨s', r'⟩, hbody, heq⟩ := Option.map_eq_some_iff.mp h
      obtain ⟨rfl, rfl⟩ := Prod.mk.inj heq
      have hih := ih hbody
      have hunit := length_escapeText_unitText q u
      have hnone : (loneText none).length = 0 := rfl
      simp only [escapeText_append, List.length_append, List.length_cons] at hih ⊢
      omega
  | case6 => cases h
  | case7 q c t hnot x hx ih =>
      obtain ⟨⟨s', r'⟩, hbody, heq⟩ := Option.map_eq_some_iff.mp h
      obtain ⟨rfl, rfl⟩ := Prod.mk.inj heq
      have hih := ih hbody
      have hlone := length_escapeText_loneText q
      have hshort := length_escapeChar_short hx
      have hnone : (loneText none).length = 0 := rfl
      simp only [escapeText_append, escapeText_cons, escapeText_nil, List.length_append,
        List.length_cons, List.length_nil] at hih ⊢
      omega
  | case8 => cases h
  | case9 q c t hquote hunit hshort hlow ih =>
      obtain ⟨⟨s', r'⟩, hbody, heq⟩ := Option.map_eq_some_iff.mp h
      obtain ⟨rfl, rfl⟩ := Prod.mk.inj heq
      have hih := ih hbody
      have hlone := length_escapeText_loneText q
      have hnone : (loneText none).length = 0 := rfl
      have hslash : c ≠ '\\' := by
        rintro rfl
        cases t with
        | nil => cases hbody
        | cons d t => exact hshort d t rfl rfl
      have hself := escapeChar_of_plain ⟨fun hc => hquote hc, hslash, not_lt.mp hlow⟩
      simp only [escapeText_append, escapeText_cons, escapeText_nil, hself, List.length_append,
        List.length_cons, List.length_nil] at hih ⊢
      omega

theorem ReadsKey.length {t k r : Text} (h : ReadsKey t k r) :
    (quote k).length + 1 + r.length ≤ t.length := by
  obtain ⟨u, w, hu, hk, hw⟩ := h
  have hopen := length_of_skipBlanks hu
  have hbody := length_readBody hk
  have hcolon := length_of_skipBlanks hw
  have hnone : (loneText none).length = 0 := rfl
  simp only [quote, List.length_cons, List.length_append, List.length_nil]
  omega

theorem length_printElems_le (vs : List Json) :
    (printElems vs).length ≤ (print (.arr vs)).length := by
  cases vs with
  | nil => decide
  | cons v vs => exact le_rfl

theorem length_printMembers_le (ms : List (Text × Json)) :
    (printMembers ms).length ≤ (print (.obj ms)).length := by
  cases ms with
  | nil => decide
  | cons m ms => exact le_rfl

theorem length_print_elem (v : Json) (vs : List Json) :
    (print (.arr (v :: vs))).length = (print v).length + (printElems vs).length + 1 := by
  simp only [print, List.length_cons, List.length_append]

theorem length_print_member (k : Text) (v : Json) (ms : List (Text × Json)) :
    (print (.obj ((k, v) :: ms))).length =
      (quote k).length + (print v).length + (printMembers ms).length + 2 := by
  simp only [print, List.length_cons, List.length_append]
  omega

mutual

/-- What a text is read as prints no longer than what was read. -/
theorem Reads.length : ∀ {t : Text} {v : Json} {r : Text}, Reads t v r →
    (print v).length + r.length ≤ t.length
  | t, _, r, .null h => by
      have := length_skipBlanks_le t
      simp only [h, List.length_cons] at this
      simp [print]
      omega
  | t, _, r, .true_ h => by
      have := length_skipBlanks_le t
      simp only [h, List.length_cons] at this
      simp [print]
      omega
  | t, _, r, .false_ h => by
      have := length_skipBlanks_le t
      simp only [h, List.length_cons] at this
      simp [print]
      omega
  | t, _, r, .num h => by
      have := length_skipBlanks_le t
      rw [scanNumeral_sound h, List.length_append] at this
      exact this
  | t, _, r, .str h hbody => by
      have hopen := length_of_skipBlanks h
      have hlength := length_readBody hbody
      have hnone : (loneText none).length = 0 := rfl
      simp only [print, quote, List.length_cons, List.length_append, List.length_nil]
      omega
  | t, _, r, .emptyArr h hclose => by
      have hopen := length_of_skipBlanks h
      have hend := length_of_skipBlanks hclose
      have htwo : (print (.arr [])).length = 2 := rfl
      omega
  | t, _, r, .arr (u := u) h helems => by
      have hopen := length_of_skipBlanks h
      have hskip := length_skipBlanks_le u
      have hlength := helems.length
      omega
  | t, _, r, .emptyObj h hclose => by
      have hopen := length_of_skipBlanks h
      have hend := length_of_skipBlanks hclose
      have htwo : (print (.obj [])).length = 2 := rfl
      omega
  | t, _, r, .obj (u := u) h hmembers => by
      have hopen := length_of_skipBlanks h
      have hskip := length_skipBlanks_le u
      have hlength := hmembers.length
      omega

theorem ReadsElems.length : ∀ {t : Text} {vs : List Json} {r : Text}, ReadsElems t vs r →
    (print (.arr vs)).length + r.length ≤ t.length + 1
  | _, _, _, .last hvalue hclose => by
      have hlength := hvalue.length
      have hend := length_of_skipBlanks hclose
      have hone : (printElems []).length = 1 := rfl
      rw [length_print_elem]
      omega
  | _, _ :: vs, _, .cons hvalue hcomma hrest => by
      have hlength := hvalue.length
      have hcut := length_of_skipBlanks hcomma
      have htail := hrest.length
      have hprint := length_printElems_le vs
      rw [length_print_elem]
      omega

theorem ReadsMembers.length : ∀ {t : Text} {ms : List (Text × Json)} {r : Text},
    ReadsMembers t ms r → (print (.obj ms)).length + r.length ≤ t.length + 1
  | _, _, _, .last hkey hvalue hclose => by
      have hname := hkey.length
      have hlength := hvalue.length
      have hend := length_of_skipBlanks hclose
      have hone : (printMembers []).length = 1 := rfl
      rw [length_print_member]
      omega
  | _, _ :: ms, _, .cons hkey hvalue hcomma hrest => by
      have hname := hkey.length
      have hlength := hvalue.length
      have hcut := length_of_skipBlanks hcomma
      have htail := hrest.length
      have hprint := length_printMembers_le ms
      rw [length_print_member]
      omega

end

/-! ## What is derived is found -/

theorem parseValue_of_scanNumeral (n : ℕ) {t r : Text} {m : Numeral}
    (h : scanNumeral (skipBlanks t) = some (m, r)) :
    parseValue (n + 1) t = some (.num m, r) := by
  obtain ⟨c, s, htext, hother⟩ := startsOther_text m
  have hskip := scanNumeral_sound h
  rw [htext, List.cons_append] at hskip
  rw [hskip] at h
  rw [parseValue_of_startsOther n hskip hother, h, Option.map_some]

/-- A closing bracket starts no value. -/
theorem not_reads_bracket {t r : Text} {v : Json} : ¬ Reads (']' :: t) v r := by
  have hskip : skipBlanks (']' :: t) = ']' :: t := skipBlanks_cons (by decide)
  rintro (h | h | h | h | h | h | h | h | h)
  all_goals rw [hskip] at h
  all_goals cases h

theorem not_readsElems_bracket {t r : Text} {vs : List Json} : ¬ ReadsElems (']' :: t) vs r := by
  rintro (hvalue | hvalue)
  · exact not_reads_bracket hvalue
  · exact not_reads_bracket hvalue

theorem not_readsMembers_brace {t r : Text} {ms : List (Text × Json)} :
    ¬ ReadsMembers ('}' :: t) ms r := by
  have hkey : ∀ k u, ¬ ReadsKey ('}' :: t) k u := by
    rintro k u ⟨w, x, hw, -⟩
    rw [skipBlanks_cons (by decide)] at hw
    cases hw
  rintro (h | h)
  · exact hkey _ _ h
  · exact hkey _ _ h

theorem Reads.length_lt {t r : Text} {v : Json} (h : Reads t v r) : r.length < t.length := by
  have hlength := h.length
  have hpos := print_length_pos v
  omega

theorem ReadsElems.length_le {t r : Text} {vs : List Json} (h : ReadsElems t vs r) :
    r.length ≤ t.length := by
  have hlength := h.length
  have hpos := print_length_pos (.arr vs)
  omega

theorem ReadsMembers.length_le {t r : Text} {ms : List (Text × Json)} (h : ReadsMembers t ms r) :
    r.length ≤ t.length := by
  have hlength := h.length
  have hpos := print_length_pos (.obj ms)
  omega

mutual

/-- Twice what is read is enough fuel. -/
theorem Reads.parses : ∀ {t : Text} {v : Json} {r : Text}, Reads t v r →
    ∀ n, 2 * t.length ≤ n + 2 * r.length → parseValue n t = some (v, r)
  | t, _, r, h, 0, hn => by
      have := h.length_lt
      omega
  | t, _, r, .null h, n + 1, _ => by simp only [parseValue, h]
  | t, _, r, .true_ h, n + 1, _ => by simp only [parseValue, h]
  | t, _, r, .false_ h, n + 1, _ => by simp only [parseValue, h]
  | t, _, r, .num h, n + 1, _ => parseValue_of_scanNumeral n h
  | t, _, r, .str h hbody, n + 1, _ => by
      simp only [parseValue, h, hbody, Option.map_some]
  | t, _, r, .emptyArr h hclose, n + 1, _ => by simp only [parseValue, h, hclose]
  | t, _, r, .arr (u := u) h helems, n + 1, hn => by
      have hopen := length_of_skipBlanks h
      have hskip := length_skipBlanks_le u
      have hparse := helems.parses n (by omega)
      simp only [parseValue, h]
      split
      · next w hw => exact absurd (hw ▸ helems) not_readsElems_bracket
      · rw [hparse]
        rfl
  | t, _, r, .emptyObj h hclose, n + 1, _ => by simp only [parseValue, h, hclose]
  | t, _, r, .obj (u := u) h hmembers, n + 1, hn => by
      have hopen := length_of_skipBlanks h
      have hskip := length_skipBlanks_le u
      have hparse := hmembers.parses n (by omega)
      simp only [parseValue, h]
      split
      · next w hw => exact absurd (hw ▸ hmembers) not_readsMembers_brace
      · rw [hparse]
        rfl

theorem ReadsElems.parses : ∀ {t : Text} {vs : List Json} {r : Text}, ReadsElems t vs r →
    ∀ n, 2 * t.length + 1 ≤ n + 2 * r.length → parseElems n t = some (vs, r)
  | t, _, r, h, 0, hn => by
      have := h.length_le
      omega
  | t, _, r, .last hvalue hclose, n + 1, hn => by
      have hend := length_of_skipBlanks hclose
      have hparse := hvalue.parses n (by omega)
      simp only [parseElems, hparse, Option.bind_some, hclose]
  | t, _, r, .cons hvalue hcomma hrest, n + 1, hn => by
      have hcut := length_of_skipBlanks hcomma
      have hlt := hvalue.length_lt
      have hle := hrest.length_le
      have hparse := hvalue.parses n (by omega)
      have hmore := hrest.parses n (by omega)
      simp only [parseElems, hparse, Option.bind_some, hcomma, hmore, Option.map_some]

theorem ReadsMembers.parses : ∀ {t : Text} {ms : List (Text × Json)} {r : Text},
    ReadsMembers t ms r → ∀ n, 2 * t.length + 1 ≤ n + 2 * r.length →
      parseMembers n t = some (ms, r)
  | t, _, r, h, 0, hn => by
      have := h.length_le
      omega
  | t, _, r, .last hkey hvalue hclose, n + 1, hn => by
      have hname := hkey.length
      have hend := length_of_skipBlanks hclose
      have hparse := hvalue.parses n (by omega)
      obtain ⟨x, y, hx, hk, hy⟩ := hkey
      simp only [parseMembers, hx, hk, Option.bind_some, hy, hparse, hclose]
  | t, _, r, .cons hkey hvalue hcomma hrest, n + 1, hn => by
      have hname := hkey.length
      have hcut := length_of_skipBlanks hcomma
      have hlt := hvalue.length_lt
      have hle := hrest.length_le
      have hparse := hvalue.parses n (by omega)
      have hmore := hrest.parses n (by omega)
      obtain ⟨x, y, hx, hk, hy⟩ := hkey
      simp only [parseMembers, hx, hk, Option.bind_some, hy, hparse, hcomma, hmore,
        Option.map_some]

end

/-! ## Derivations that are known -/

/-- A text has one derivation at most. -/
theorem Reads.unique {t r r' : Text} {v v' : Json} (h : Reads t v r) (h' : Reads t v' r') :
    v = v' ∧ r = r' := by
  have hparse := h.parses (2 * t.length) (by omega)
  rw [h'.parses (2 * t.length) (by omega)] at hparse
  obtain ⟨rfl, rfl⟩ := Prod.mk.inj (Option.some.inj hparse)
  exact ⟨rfl, rfl⟩

/-- Behind a quote a string is read. -/
theorem reads_quote {t r : Text} {v : Json} (h : Reads ('"' :: t) v r) :
    ∃ s, v = .str s ∧ readBody none t = some (s, r) := by
  have hskip : skipBlanks ('"' :: t) = '"' :: t := skipBlanks_cons (by decide)
  cases h with
  | str hopen hbody =>
      rw [hskip] at hopen
      obtain rfl := (List.cons.inj hopen).2
      exact ⟨_, rfl, hbody⟩
  | num hscan =>
      rw [hskip] at hscan
      cases hscan
  | null hopen | true_ hopen | false_ hopen | emptyArr hopen | arr hopen | emptyObj hopen
  | obj hopen =>
      rw [hskip] at hopen
      cases hopen

/-- Behind a brace an object is read. -/
theorem reads_brace {t r : Text} {v : Json} (h : Reads ('{' :: t) v r) :
    skipBlanks t = '}' :: r ∨ ∃ ms, v = .obj ms ∧ ReadsMembers (skipBlanks t) ms r := by
  have hskip : skipBlanks ('{' :: t) = '{' :: t := skipBlanks_cons (by decide)
  cases h with
  | emptyObj hopen hclose =>
      rw [hskip] at hopen
      obtain rfl := (List.cons.inj hopen).2
      exact .inl hclose
  | obj hopen hmembers =>
      rw [hskip] at hopen
      obtain rfl := (List.cons.inj hopen).2
      exact .inr ⟨_, rfl, hmembers⟩
  | num hscan =>
      rw [hskip] at hscan
      cases hscan
  | null hopen | true_ hopen | false_ hopen | emptyArr hopen | arr hopen | str hopen =>
      rw [hskip] at hopen
      cases hopen

/-- Behind a bracket an array is read. -/
theorem reads_bracket {t r : Text} {v : Json} (h : Reads ('[' :: t) v r) :
    skipBlanks t = ']' :: r ∨ ∃ vs, v = .arr vs ∧ ReadsElems (skipBlanks t) vs r := by
  have hskip : skipBlanks ('[' :: t) = '[' :: t := skipBlanks_cons (by decide)
  cases h with
  | emptyArr hopen hclose =>
      rw [hskip] at hopen
      obtain rfl := (List.cons.inj hopen).2
      exact .inl hclose
  | arr hopen helems =>
      rw [hskip] at hopen
      obtain rfl := (List.cons.inj hopen).2
      exact .inr ⟨_, rfl, helems⟩
  | num hscan =>
      rw [hskip] at hscan
      cases hscan
  | null hopen | true_ hopen | false_ hopen | emptyObj hopen | obj hopen | str hopen =>
      rw [hskip] at hopen
      cases hopen

/-- The print of a value is read as the value. -/
theorem reads_print (v : Json) {u : Text} (hu : EndsNumeral u) : Reads (print v ++ u) v u :=
  (reads_of_parse _).1 (parseValue_print (2 * (print v).length) v u le_rfl hu)

theorem readsKey_quote {k k' u r : Text} (h : ReadsKey (quote k ++ ':' :: u) k' r) :
    k' = k ∧ r = u := by
  obtain ⟨x, w, hx, hbody, hcolon⟩ := h
  rw [quote_append, skipBlanks_cons (by decide)] at hx
  obtain rfl := (List.cons.inj hx).2
  rw [readBody_escapeText] at hbody
  obtain ⟨rfl, rfl⟩ := Prod.mk.inj (Option.some.inj hbody)
  rw [skipBlanks_cons (by decide)] at hcolon
  exact ⟨rfl, (List.cons.inj hcolon).2.symm⟩

/-- A printed member in front of others is read as it is. -/
theorem ReadsMembers.print_member {k u r : Text} {v : Json} {ms : List (Text × Json)}
    (h : ReadsMembers (quote k ++ ':' :: (print v ++ ',' :: u)) ms r) :
    ∃ ns, ms = (k, v) :: ns ∧ ReadsMembers u ns r := by
  have hends : EndsNumeral (',' :: u) := by simp [EndsNumeral]; decide
  have hread := reads_print v hends
  cases h with
  | last hkey hvalue hclose =>
      obtain ⟨rfl, rfl⟩ := readsKey_quote hkey
      obtain ⟨rfl, rfl⟩ := hvalue.unique hread
      rw [skipBlanks_cons (by decide)] at hclose
      cases hclose
  | cons hkey hvalue hcomma hrest =>
      obtain ⟨rfl, rfl⟩ := readsKey_quote hkey
      obtain ⟨rfl, rfl⟩ := hvalue.unique hread
      rw [skipBlanks_cons (by decide)] at hcomma
      obtain rfl := (List.cons.inj hcomma).2
      exact ⟨_, rfl, hrest⟩

/-! ## Whole texts -/

/-- **What `parse` accepts**: a value with blanks around it. -/
theorem parse_eq_some_iff {t : Text} {v : Json} :
    parse t = some v ↔ ∃ r, Reads t v r ∧ skipBlanks r = [] := by
  unfold parse
  constructor
  · intro h
    split at h
    · next w r hparse =>
        split at h
        · next hblank =>
            obtain rfl := Option.some.inj h
            exact ⟨r, (reads_of_parse _).1 hparse, hblank⟩
        · cases h
    · cases h
  · rintro ⟨r, hreads, hblank⟩
    rw [hreads.parses _ (by omega)]
    exact if_pos hblank

/-- **No text of a value is shorter than its print.** -/
theorem length_print_le_of_parse {t : Text} {v : Json} (h : parse t = some v) :
    (print v).length ≤ t.length := by
  obtain ⟨r, hreads, -⟩ := parse_eq_some_iff.mp h
  have hlength := hreads.length
  omega

end Json

end Wire
