import AkronSlot.Wire.Json

/-!
# The parser reads back what the printer writes

`Json.parse_print` is the round trip.  The lemmas before it say what one call
of the parser does on a text that starts with one printed construct; they are
also what a proof about a hand-assembled text uses.  `RejectsValue` and
`RejectsMembers` are the rules that show a text to be **rejected**: a malformed
value behind well-formed members makes the whole parse fail.

## Fuel

Each lemma has the fuel as a variable and asks for enough of it, by the length of the text. A
rejection is stated for every amount, since a failure for lack of fuel would say nothing.
-/

namespace Wire

namespace Numeral

/-- A numeral starts with a sign or a digit. -/
theorem text_head (n : Numeral) :
    ∃ c t, n.text = c :: t ∧ (c = '-' ∨ ∃ d : Digit, c = d.char) := by
  obtain ⟨neg, whole, frac, exp⟩ := n
  cases neg with
  | true => exact ⟨'-', _, rfl, Or.inl rfl⟩
  | false =>
      cases whole with
      | zero => exact ⟨_, _, rfl, Or.inr ⟨0, rfl⟩⟩
      | pos first rest => exact ⟨_, _, rfl, Or.inr ⟨first.succ, rfl⟩⟩

end Numeral

namespace Json

/-! ## One value -/

/-- The characters that start a value other than a number. -/
def startsOther (c : Char) : Bool :=
  isBlank c || c = '{' || c = '[' || c = '"' || c = 't' || c = 'f' || c = 'n'

theorem startsOther_digit (d : Digit) : startsOther d.char = false := by
  revert d
  decide

theorem startsOther_text (m : Numeral) :
    ∃ c r, m.text = c :: r ∧ startsOther c = false := by
  obtain ⟨c, r, htext, hc⟩ := m.text_head
  refine ⟨c, r, htext, ?_⟩
  rcases hc with rfl | ⟨d, rfl⟩
  · decide
  · exact startsOther_digit d

/-- Where no other value starts, a numeral is read. -/
theorem parseValue_of_startsOther (n : ℕ) {t r : Text} {c : Char} (h : skipBlanks t = c :: r)
    (hc : startsOther c = false) :
    parseValue (n + 1) t = (scanNumeral (c :: r)).map fun s => (.num s.1, s.2) := by
  simp only [startsOther, Bool.or_eq_false_iff, decide_eq_false_iff_not] at hc
  obtain ⟨⟨⟨⟨⟨⟨-, hbrace⟩, hbracket⟩, hquote⟩, ht⟩, hf⟩, hn⟩ := hc
  rw [parseValue, h]
  split
  · next heq => exact absurd (List.cons.inj heq).1 hbrace
  · next heq => exact absurd (List.cons.inj heq).1 hbracket
  · next heq => exact absurd (List.cons.inj heq).1 hquote
  · next heq => exact absurd (List.cons.inj heq).1 ht
  · next heq => exact absurd (List.cons.inj heq).1 hf
  · next heq => exact absurd (List.cons.inj heq).1 hn
  · rfl

theorem parseValue_num (n : ℕ) (m : Numeral) {t : Text} (h : EndsNumeral t) :
    parseValue (n + 1) (m.text ++ t) = some (.num m, t) := by
  obtain ⟨c, r, htext, hother⟩ := startsOther_text m
  have hblank : isBlank c = false := by
    simp only [startsOther, Bool.or_eq_false_iff] at hother
    exact hother.1.1.1.1.1.1
  have hscan := scanNumeral_text m h
  rw [htext, List.cons_append] at hscan ⊢
  rw [parseValue_of_startsOther n (skipBlanks_cons hblank) hother, hscan, Option.map_some]

theorem parseValue_quote (n : ℕ) (t : Text) :
    parseValue (n + 1) ('"' :: t) = (readBody none t).map fun r => (.str r.1, r.2) := by
  rw [parseValue, skipBlanks_cons (by decide)]
  rfl

theorem parseValue_str (n : ℕ) (s t : Text) :
    parseValue (n + 1) (quote s ++ t) = some (.str s, t) := by
  have h := readBody_escapeText s t
  rw [quote, List.cons_append, parseValue_quote]
  simp [h]

/-- An object that starts with a member hands over to `parseMembers`. -/
theorem parseValue_brace (n : ℕ) (t : Text) :
    parseValue (n + 1) ('{' :: '"' :: t) =
      (parseMembers n ('"' :: t)).map fun r => (.obj r.1, r.2) := by
  rw [parseValue, skipBlanks_cons (by decide)]
  simp only [skipBlanks_cons (c := '"') (t := t) (by decide)]
  rfl

/-- An array that starts with an element hands over to `parseElems`. -/
theorem parseValue_bracket (n : ℕ) {c : Char} (t : Text) (hblank : isBlank c = false)
    (hc : c ≠ ']') :
    parseValue (n + 1) ('[' :: c :: t) =
      (parseElems n (c :: t)).map fun r => (.arr r.1, r.2) := by
  rw [parseValue, skipBlanks_cons (by decide)]
  simp only [skipBlanks_cons hblank]
  split
  · next heq => exact absurd (List.cons.inj heq).1 hc
  · rfl

/-- What follows a value when it is a member of a printed object. -/
theorem parseMembers_member (n : ℕ) (k : Text) (t : Text) :
    parseMembers (n + 1) (quote k ++ ':' :: t) =
      (parseValue n t).bind fun r =>
        match skipBlanks r.2 with
        | ',' :: t => (parseMembers n t).map fun q => ((k, r.1) :: q.1, q.2)
        | '}' :: t => some ([(k, r.1)], t)
        | _ => none := by
  have h := readBody_escapeText k (':' :: t)
  rw [quote, List.cons_append, List.append_assoc, parseMembers, skipBlanks_cons (by decide)]
  simp only [List.cons_append, List.nil_append, h, Option.bind_some]
  rw [skipBlanks_cons (by decide)]
  rfl

/-! ## The round trip -/

theorem digit_head (d : Digit) : isBlank d.char = false ∧ d.char ≠ ']' := by
  revert d
  decide

/-- A printed value starts with a character that is no blank and closes
nothing. -/
theorem print_head (v : Json) :
    ∃ c t, print v = c :: t ∧ isBlank c = false ∧ c ≠ ']' := by
  cases v with
  | null => exact ⟨_, _, rfl, by decide, by decide⟩
  | bool b => cases b <;> exact ⟨_, _, rfl, by decide, by decide⟩
  | num n =>
      obtain ⟨c, t, htext, hc⟩ := n.text_head
      refine ⟨c, t, by rw [print, htext], ?_⟩
      rcases hc with rfl | ⟨d, rfl⟩
      · exact ⟨by decide, by decide⟩
      · exact digit_head d
  | str s => exact ⟨_, _, rfl, by decide, by decide⟩
  | arr vs => cases vs <;> exact ⟨_, _, rfl, by decide, by decide⟩
  | obj ms => cases ms <;> exact ⟨_, _, rfl, by decide, by decide⟩

/-- A printed value is not empty. -/
theorem print_length_pos (v : Json) : 0 < (print v).length := by
  obtain ⟨c, t, h, -, -⟩ := print_head v
  simp [h]

theorem endsNumeral_printElems (vs : List Json) (t : Text) :
    EndsNumeral (printElems vs ++ t) := by
  cases vs <;> simp [printElems, EndsNumeral] <;> decide

theorem endsNumeral_printMembers (ms : List (Text × Json)) (t : Text) :
    EndsNumeral (printMembers ms ++ t) := by
  cases ms <;> simp [printMembers, EndsNumeral] <;> decide

mutual

/-- Induction over the fuel: twice the length of the printed text is enough. -/
theorem parseValue_print : ∀ (n : ℕ) (v : Json) (t : Text), 2 * (print v).length ≤ n →
    EndsNumeral t → parseValue n (print v ++ t) = some (v, t)
  | 0, v, _, hn, _ => by
      have hpos := print_length_pos v
      omega
  | n + 1, v, t, hn, ht => by
      match v with
      | .null => simp [print, parseValue, skipBlanks, isBlank]
      | .bool true => simp [print, parseValue, skipBlanks, isBlank]
      | .bool false => simp [print, parseValue, skipBlanks, isBlank]
      | .num m => exact parseValue_num n m ht
      | .str s => exact parseValue_str n s t
      | .arr [] => simp [print, parseValue, skipBlanks, isBlank]
      | .obj [] => simp [print, parseValue, skipBlanks, isBlank]
      | .arr (w :: ws) =>
          obtain ⟨c, r, hprint, hblank, hclose⟩ := print_head w
          have helems := parseElems_print n w ws t (by simp [print] at hn ⊢; omega)
          simp only [print, List.cons_append, List.append_assoc]
          rw [hprint, List.cons_append] at helems ⊢
          rw [parseValue_bracket n _ hblank hclose, helems]
          rfl
      | .obj ((k, w) :: ms) =>
          have hmembers := parseMembers_print n k w ms t (by simp [print] at hn ⊢; omega)
          simp only [print, quote, List.cons_append, List.append_assoc] at hmembers ⊢
          rw [parseValue_brace, hmembers]
          rfl

theorem parseElems_print : ∀ (n : ℕ) (v : Json) (vs : List Json) (t : Text),
    2 * ((print v).length + (printElems vs).length) + 1 ≤ n →
    parseElems n (print v ++ (printElems vs ++ t)) = some (v :: vs, t)
  | 0, _, _, _, hn => by omega
  | n + 1, v, vs, t, hn => by
      have hvalue := parseValue_print n v (printElems vs ++ t) (by omega)
        (endsNumeral_printElems vs t)
      rw [parseElems, hvalue]
      match vs with
      | [] => simp [printElems, skipBlanks, isBlank]
      | w :: ws =>
          have hrest := parseElems_print n w ws t (by simp [printElems] at hn; omega)
          simp [printElems, skipBlanks, isBlank, hrest]

theorem parseMembers_print : ∀ (n : ℕ) (k : Text) (v : Json) (ms : List (Text × Json))
    (t : Text), 2 * ((print v).length + (printMembers ms).length) + 1 ≤ n →
    parseMembers n (quote k ++ ':' :: (print v ++ (printMembers ms ++ t))) =
      some ((k, v) :: ms, t)
  | 0, _, _, _, _, hn => by omega
  | n + 1, k, v, ms, t, hn => by
      have hvalue := parseValue_print n v (printMembers ms ++ t) (by omega)
        (endsNumeral_printMembers ms t)
      rw [parseMembers_member, hvalue]
      match ms with
      | [] => simp [printMembers, skipBlanks, isBlank]
      | (k', w) :: ms =>
          have hrest := parseMembers_print n k' w ms t (by simp [printMembers] at hn; omega)
          simp [printMembers, skipBlanks, isBlank, hrest]

end

/-- **Round trip**: the text of a value parses to that value. -/
theorem parse_print (v : Json) : parse (print v) = some v := by
  have h := parseValue_print (2 * (print v).length + 2) v [] (by omega) endsNumeral_nil
  rw [List.append_nil] at h
  simp [parse, h, skipBlanks]

/-! ## Texts that are rejected -/

/-- No amount of fuel finds a value at the start of the text. -/
def RejectsValue (t : Text) : Prop := ∀ n, parseValue n t = none

/-- No amount of fuel finds the members of an object at the start of the text. -/
def RejectsMembers (t : Text) : Prop := ∀ n, parseMembers n t = none

/-- `JSON.parse` throws on a rejected text. -/
theorem RejectsValue.parse_eq_none {t : Text} (h : RejectsValue t) : parse t = none := by
  simp [parse, h (2 * t.length + 2)]

/-- An object whose members are rejected is rejected. -/
theorem RejectsMembers.object {t : Text} (h : RejectsMembers ('"' :: t)) :
    RejectsValue ('{' :: '"' :: t)
  | 0 => rfl
  | n + 1 => by rw [parseValue_brace, h n]; rfl

/-- A string literal that does not end is rejected. -/
theorem rejectsValue_quote {t : Text} (h : readBody none t = none) : RejectsValue ('"' :: t)
  | 0 => rfl
  | n + 1 => by rw [parseValue_quote, h]; rfl

/-- After `{` only a key or `}` can follow. -/
theorem rejectsValue_brace_brace (t : Text) : RejectsValue ('{' :: '{' :: t)
  | 0 => rfl
  | 1 => by
      rw [parseValue, skipBlanks_cons (by decide)]
      simp only [skipBlanks_cons (c := '{') (t := t) (by decide)]
      rfl
  | n + 2 => by
      rw [parseValue, skipBlanks_cons (by decide)]
      simp only [skipBlanks_cons (c := '{') (t := t) (by decide), parseMembers]
      rfl

/-- A member whose value is rejected. -/
theorem RejectsValue.member {t : Text} (h : RejectsValue t) (k : Text) :
    RejectsMembers (quote k ++ ':' :: t)
  | 0 => rfl
  | n + 1 => by rw [parseMembers_member, h n]; rfl

/-- A string member in front of members that are rejected. -/
theorem RejectsMembers.str_member {t : Text} (h : RejectsMembers t) (k s : Text) :
    RejectsMembers (quote k ++ ':' :: (quote s ++ ',' :: t))
  | 0 => rfl
  | 1 => by rw [parseMembers_member]; rfl
  | n + 2 => by
      rw [parseMembers_member, parseValue_str]
      simp [skipBlanks, isBlank, h (n + 1)]

/-- A boolean member in front of members that are rejected. -/
theorem RejectsMembers.true_member {t : Text} (h : RejectsMembers t) (k : Text) :
    RejectsMembers (quote k ++ ':' :: ("true".toList ++ ',' :: t))
  | 0 => rfl
  | 1 => by rw [parseMembers_member]; rfl
  | n + 2 => by
      rw [parseMembers_member]
      simp [parseValue, skipBlanks, isBlank, h (n + 1)]

/-! ## A printed value is one line -/

theorem newline_notMem_escapeText (s : Text) : '\n' ∉ escapeText s := by
  simp only [escapeText, List.mem_flatMap, not_exists, not_and]
  intro c _
  unfold escapeChar
  split_ifs with hquote hslash hn
  all_goals simp
  · have hhex : ∀ n < 16, hexChar n ≠ '\n' := by decide
    exact ⟨(hhex _ (by omega)).symm, (hhex _ (by omega)).symm⟩
  · exact Ne.symm hn

theorem newline_notMem_quote (s : Text) : '\n' ∉ quote s := by
  simp [quote, newline_notMem_escapeText]

mutual

theorem newline_notMem_print : ∀ v : Json, '\n' ∉ print v
  | .null => by decide
  | .bool true => by decide
  | .bool false => by decide
  | .num n => n.text_notMem (by decide) (by decide)
  | .str s => newline_notMem_quote s
  | .arr [] => by decide
  | .arr (v :: vs) => by
      simp [print, newline_notMem_print v, newline_notMem_printElems vs]
  | .obj [] => by decide
  | .obj ((k, v) :: ms) => by
      simp [print, newline_notMem_quote k, newline_notMem_print v, newline_notMem_printMembers ms]

theorem newline_notMem_printElems : ∀ vs : List Json, '\n' ∉ printElems vs
  | [] => by decide
  | v :: vs => by
      simp [printElems, newline_notMem_print v, newline_notMem_printElems vs]

theorem newline_notMem_printMembers : ∀ ms : List (Text × Json), '\n' ∉ printMembers ms
  | [] => by decide
  | (k, v) :: ms => by
      simp [printMembers, newline_notMem_quote k, newline_notMem_print v,
        newline_notMem_printMembers ms]

end

end Json

end Wire
