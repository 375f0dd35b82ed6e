import AkronSlot.Wire.JsonGrammar

/-!
# Texts put together for a JSON value

A program without a JSON printer puts its texts together from pieces: literals,
numbers, and strings that it writes between quotes, escaped or not.  A `Piece` is
such a text with the value it is meant for; it carries the one fact that decides
whether the text says the value.  A writer of strings that escapes too little
writes a **shorter** text than the print of the value, and no text of a value is
shorter than its print.  So the text parses to the value exactly when it is its
print (`Piece.parse_iff`), and it is its print exactly when every string in it was
escaped as it has to be (`Piece.clean_obj`, `Piece.clean_arr`, `Piece.clean_str`).

## Enclosed values

A text that is not clean may still parse, to another value. What can be said then is where it
ends: a piece is `Enclosed` if no way to read it goes on past its end. This holds of what cannot
close a bracket, whatever else is wrong with it.

## Main Definitions

* `Frugal` — no longer than another text, and that text if it is as long
* `Writer`, `verbatim`
* `Piece` with `Piece.ofValue`, `Piece.str`, `Piece.arr`, `Piece.obj`

## Main Results

* `Piece.parse_iff`
-/

namespace Wire

/-! ## Frugal texts -/

/-- A text that is no longer than another one, and is that one if it is as long. -/
def Frugal (s t : Text) : Prop := s.length ≤ t.length ∧ (s.length = t.length → s = t)

namespace Frugal

theorem refl (t : Text) : Frugal t t := ⟨le_rfl, fun _ => rfl⟩

variable {s t u v : Text}

/-- Texts behind each other are the other texts only if each is its own. -/
theorem append_eq_iff (hs : Frugal s t) (hu : Frugal u v) : s ++ u = t ++ v ↔ s = t ∧ u = v := by
  constructor
  · intro h
    have hlength := congrArg List.length h
    rw [List.length_append, List.length_append] at hlength
    have hle := hs.1
    have hle' := hu.1
    exact ⟨hs.2 (by omega), hu.2 (by omega)⟩
  · rintro ⟨rfl, rfl⟩
    rfl

theorem append (hs : Frugal s t) (hu : Frugal u v) : Frugal (s ++ u) (t ++ v) := by
  have hle := hs.1
  have hle' := hu.1
  constructor
  · rw [List.length_append, List.length_append]
    omega
  · intro h
    rw [List.length_append, List.length_append] at h
    rw [hs.2 (by omega), hu.2 (by omega)]

theorem cons (c : Char) (h : Frugal s t) : Frugal (c :: s) (c :: t) := (refl [c]).append h

end Frugal

/-! ## Writers -/

/-- A way to write a text between quotes that escapes nothing without need. So it is never longer
than the literal that `JSON.stringify` prints, and this is all that is used of it. -/
structure Writer where
  write : Text → Text
  frugal : ∀ s, Frugal (write s) (escapeText s)

/-- Write a text as it is. -/
def verbatim : Writer where
  write s := s
  frugal s := ⟨length_le_escapeText s, fun h =>
    (escapeText_of_plain (plain_of_length_escapeText h.symm)).symm⟩

/-- Written as it is, a text is its escape exactly if it needs none. -/
theorem verbatim_eq_iff (s : Text) : verbatim.write s = escapeText s ↔ ∀ c ∈ s, Plain c := by
  rw [← escapeText_eq_self_iff]
  exact eq_comm

/-! ## Pieces -/

/-- A text that was put together for a value. It need not be JSON; the fields say that it is no
longer than the print of the value, and that it is the print if it is as long. -/
structure Piece where
  text : Text
  value : Json
  frugal : Frugal text value.print
  starts : ∃ c t, text = c :: t ∧ Json.isBlank c = false ∧ c ≠ ']'

namespace Piece

/-- The text is the print of the value. -/
def Clean (p : Piece) : Prop := p.text = p.value.print

/-- **A piece says its value exactly if it is clean.** -/
theorem parse_iff (p : Piece) : Json.parse p.text = some p.value ↔ p.Clean := by
  constructor
  · intro h
    exact p.frugal.2 (le_antisymm p.frugal.1 (Json.length_print_le_of_parse h))
  · intro h
    rw [h, Json.parse_print]

/-- The print of a value. -/
def ofValue (v : Json) : Piece := ⟨v.print, v, .refl _, Json.print_head v⟩

theorem clean_ofValue (v : Json) : (ofValue v).Clean := rfl

/-- A string between quotes. -/
def str (w : Writer) (s : Text) : Piece where
  text := '"' :: (w.write s ++ ['"'])
  value := .str s
  frugal := ((w.frugal s).append (.refl ['"'])).cons '"'
  starts := ⟨_, _, rfl, by decide, by decide⟩

theorem clean_str (w : Writer) (s : Text) : (str w s).Clean ↔ w.write s = escapeText s := by
  have h := ((w.frugal s).append_eq_iff (.refl ['"']))
  have hclean : (str w s).Clean ↔ w.write s ++ ['"'] = escapeText s ++ ['"'] := by
    simp [Clean, str, Json.print, quote]
  rw [hclean, h, and_iff_left rfl]

/-! ### Objects -/

/-- The members after the first one, and the brace. -/
def memberTexts : List (Text × Piece) → Text
  | [] => ['}']
  | (k, p) :: ms => ',' :: (quote k ++ ':' :: (p.text ++ memberTexts ms))

/-- An object with these members, put together. -/
def objText : List (Text × Piece) → Text
  | [] => ['{', '}']
  | (k, p) :: ms => '{' :: (quote k ++ ':' :: (p.text ++ memberTexts ms))

/-- The members that are meant. -/
def members (ms : List (Text × Piece)) : List (Text × Json) := ms.map fun m => (m.1, m.2.value)

theorem frugal_memberTexts (ms : List (Text × Piece)) :
    Frugal (memberTexts ms) (Json.printMembers (members ms)) := by
  induction ms with
  | nil => exact .refl _
  | cons m ms ih =>
      exact (((Frugal.refl (quote m.1)).append ((m.2.frugal.append ih).cons ':'))).cons ','

/-- A piece that is an object. -/
def obj (ms : List (Text × Piece)) : Piece where
  text := objText ms
  value := .obj (members ms)
  frugal := by
    cases ms with
    | nil => exact .refl _
    | cons m ms =>
        have hrest := (m.2.frugal.append (frugal_memberTexts ms)).cons ':'
        exact ((Frugal.refl (quote m.1)).append hrest).cons '{'
  starts := by cases ms <;> exact ⟨_, _, rfl, by decide, by decide⟩

theorem memberTexts_eq_iff (ms : List (Text × Piece)) :
    memberTexts ms = Json.printMembers (members ms) ↔ ∀ m ∈ ms, m.2.Clean := by
  induction ms with
  | nil => exact iff_of_true rfl (by simp)
  | cons m ms ih =>
      have happ := m.2.frugal.append_eq_iff (frugal_memberTexts ms)
      rw [List.forall_mem_cons, ← ih, Clean, ← happ]
      simp [memberTexts, members, Json.printMembers]

/-- An object is clean if its members are. -/
theorem clean_obj (ms : List (Text × Piece)) : (obj ms).Clean ↔ ∀ m ∈ ms, m.2.Clean := by
  cases ms with
  | nil => exact iff_of_true rfl (by simp)
  | cons m ms =>
      have happ := m.2.frugal.append_eq_iff (frugal_memberTexts ms)
      rw [List.forall_mem_cons, ← memberTexts_eq_iff, Clean, Clean, ← happ]
      simp [obj, objText, members, Json.print]

/-! ### Arrays -/

/-- The elements after the first one, and the bracket. -/
def elemTexts : List Piece → Text
  | [] => [']']
  | p :: ps => ',' :: (p.text ++ elemTexts ps)

/-- An array with these elements, put together. -/
def arrText : List Piece → Text
  | [] => ['[', ']']
  | p :: ps => '[' :: (p.text ++ elemTexts ps)

theorem frugal_elemTexts (ps : List Piece) :
    Frugal (elemTexts ps) (Json.printElems (ps.map value)) := by
  induction ps with
  | nil => exact .refl _
  | cons p ps ih => exact (p.frugal.append ih).cons ','

/-- A piece that is an array. -/
def arr (ps : List Piece) : Piece where
  text := arrText ps
  value := .arr (ps.map value)
  frugal := by
    cases ps with
    | nil => exact .refl _
    | cons p ps => exact (p.frugal.append (frugal_elemTexts ps)).cons '['
  starts := by cases ps <;> exact ⟨_, _, rfl, by decide, by decide⟩

theorem elemTexts_eq_iff (ps : List Piece) :
    elemTexts ps = Json.printElems (ps.map value) ↔ ∀ p ∈ ps, p.Clean := by
  induction ps with
  | nil => exact iff_of_true rfl (by simp)
  | cons p ps ih =>
      have happ := p.frugal.append_eq_iff (frugal_elemTexts ps)
      rw [List.forall_mem_cons, ← ih, Clean, ← happ]
      simp [elemTexts, Json.printElems]

/-- An array is clean if its elements are. -/
theorem clean_arr (ps : List Piece) : (arr ps).Clean ↔ ∀ p ∈ ps, p.Clean := by
  cases ps with
  | nil => exact iff_of_true rfl (by simp)
  | cons p ps =>
      have happ := p.frugal.append_eq_iff (frugal_elemTexts ps)
      rw [List.forall_mem_cons, ← elemTexts_eq_iff, Clean, Clean, ← happ]
      simp [arr, arrText, Json.print]

/-! ## Texts that end where they end -/

/-- What can follow a value inside an array or an object. -/
def Follows (u : Text) : Prop := ∃ c w, u = c :: w ∧ (c = ',' ∨ c = ']' ∨ c = '}')

theorem Follows.endsNumeral {u : Text} (h : Follows u) : EndsNumeral u := by
  obtain ⟨c, w, rfl, rfl | rfl | rfl⟩ := h
  all_goals
    simp only [EndsNumeral, List.head?_cons, Option.mem_some_iff, forall_eq']
    decide

/-- A value that starts with the piece ends with it: nothing in the piece can make it go
on, and nothing in it ends it before. -/
def Enclosed (p : Piece) : Prop := ∀ u v r, Follows u → Json.Reads (p.text ++ u) v r → r = u

theorem enclosed_ofValue (v : Json) : (ofValue v).Enclosed := fun _ _ _ hu h =>
  (h.unique (Json.reads_print v hu.endsNumeral)).2

/-- A string is enclosed if no reading of its body ends elsewhere. -/
theorem enclosed_str {w : Writer} {s : Text}
    (h : ∀ {u x r}, readBody none (w.write s ++ '"' :: u) = some (x, r) → r = u) :
    (str w s).Enclosed := by
  intro u v r _ hread
  have htext : (str w s).text ++ u = '"' :: (w.write s ++ '"' :: u) := by simp [str]
  rw [htext] at hread
  obtain ⟨x, -, hbody⟩ := Json.reads_quote hread
  exact h hbody

theorem follows_memberTexts (ms : List (Text × Piece)) (u : Text) :
    Follows (memberTexts ms ++ u) := by
  cases ms with
  | nil => exact ⟨_, _, rfl, .inr (.inr rfl)⟩
  | cons m ms => exact ⟨_, _, rfl, .inl rfl⟩

theorem readsMembers_enclosed {k u r : Text} {p : Piece} {ms : List (Text × Piece)}
    {ns : List (Text × Json)} (hp : p.Enclosed) (hms : ∀ m ∈ ms, m.2.Enclosed)
    (h : Json.ReadsMembers (quote k ++ ':' :: (p.text ++ (memberTexts ms ++ u))) ns r) :
    r = u := by
  induction ms generalizing k p ns with
  | nil =>
      cases h with
      | last hkey hvalue hclose =>
          obtain ⟨rfl, rfl⟩ := Json.readsKey_quote hkey
          obtain rfl := hp _ _ _ (follows_memberTexts [] u) hvalue
          exact ((List.cons.inj hclose).2).symm
      | cons hkey hvalue hcomma hrest =>
          obtain ⟨rfl, rfl⟩ := Json.readsKey_quote hkey
          obtain rfl := hp _ _ _ (follows_memberTexts [] u) hvalue
          cases hcomma
  | cons m ms ih =>
      rw [List.forall_mem_cons] at hms
      cases h with
      | last hkey hvalue hclose =>
          obtain ⟨rfl, rfl⟩ := Json.readsKey_quote hkey
          obtain rfl := hp _ _ _ (follows_memberTexts (m :: ms) u) hvalue
          cases hclose
      | cons hkey hvalue hcomma hrest =>
          obtain ⟨rfl, rfl⟩ := Json.readsKey_quote hkey
          obtain rfl := hp _ _ _ (follows_memberTexts (m :: ms) u) hvalue
          have hcomma' : ',' :: (quote m.1 ++ ':' :: (m.2.text ++ memberTexts ms) ++ u) =
              ',' :: _ := hcomma
          obtain rfl := (List.cons.inj hcomma').2
          simp only [List.append_assoc, List.cons_append] at hrest
          exact ih hms.1 hms.2 hrest

/-- An object of enclosed members is enclosed. -/
theorem enclosed_obj {ms : List (Text × Piece)} (h : ∀ m ∈ ms, m.2.Enclosed) :
    (obj ms).Enclosed := by
  intro u v r _ hread
  cases ms with
  | nil =>
      rcases Json.reads_brace hread with hclose | ⟨_, -, hmembers⟩
      · exact ((List.cons.inj hclose).2).symm
      · exact absurd hmembers Json.not_readsMembers_brace
  | cons m ms =>
      rw [List.forall_mem_cons] at h
      have htext : (obj (m :: ms)).text ++ u =
          '{' :: (quote m.1 ++ ':' :: (m.2.text ++ (memberTexts ms ++ u))) := by
        simp [obj, objText]
      have hskip : Json.skipBlanks (quote m.1 ++ ':' :: (m.2.text ++ (memberTexts ms ++ u))) =
          quote m.1 ++ ':' :: (m.2.text ++ (memberTexts ms ++ u)) := by
        rw [quote_append, Json.skipBlanks_cons (by decide)]
      rw [htext] at hread
      rcases Json.reads_brace hread with hclose | ⟨_, -, hmembers⟩
      · rw [hskip] at hclose
        cases hclose
      · rw [hskip] at hmembers
        exact readsMembers_enclosed h.1 h.2 hmembers

theorem follows_elemTexts (ps : List Piece) (u : Text) : Follows (elemTexts ps ++ u) := by
  cases ps with
  | nil => exact ⟨_, _, rfl, .inr (.inl rfl)⟩
  | cons p ps => exact ⟨_, _, rfl, .inl rfl⟩

theorem readsElems_enclosed {u r : Text} {p : Piece} {ps : List Piece} {vs : List Json}
    (hp : p.Enclosed) (hps : ∀ q ∈ ps, q.Enclosed)
    (h : Json.ReadsElems (p.text ++ (elemTexts ps ++ u)) vs r) : r = u := by
  induction ps generalizing p vs with
  | nil =>
      cases h with
      | last hvalue hclose =>
          obtain rfl := hp _ _ _ (follows_elemTexts [] u) hvalue
          exact ((List.cons.inj hclose).2).symm
      | cons hvalue hcomma hrest =>
          obtain rfl := hp _ _ _ (follows_elemTexts [] u) hvalue
          cases hcomma
  | cons q ps ih =>
      rw [List.forall_mem_cons] at hps
      cases h with
      | last hvalue hclose =>
          obtain rfl := hp _ _ _ (follows_elemTexts (q :: ps) u) hvalue
          cases hclose
      | cons hvalue hcomma hrest =>
          obtain rfl := hp _ _ _ (follows_elemTexts (q :: ps) u) hvalue
          have hcomma' : ',' :: (q.text ++ elemTexts ps ++ u) = ',' :: _ := hcomma
          obtain rfl := (List.cons.inj hcomma').2
          rw [List.append_assoc] at hrest
          exact ih hps.1 hps.2 hrest

/-- An array of enclosed elements is enclosed. -/
theorem enclosed_arr {ps : List Piece} (h : ∀ p ∈ ps, p.Enclosed) : (arr ps).Enclosed := by
  intro u v r _ hread
  cases ps with
  | nil =>
      rcases Json.reads_bracket hread with hclose | ⟨_, -, helems⟩
      · exact ((List.cons.inj hclose).2).symm
      · exact absurd helems Json.not_readsElems_bracket
  | cons p ps =>
      rw [List.forall_mem_cons] at h
      obtain ⟨c, t, hstart, hblank, hclosing⟩ := p.starts
      have htext : (arr (p :: ps)).text ++ u = '[' :: (p.text ++ (elemTexts ps ++ u)) := by
        simp [arr, arrText]
      have hskip : Json.skipBlanks (p.text ++ (elemTexts ps ++ u)) =
          p.text ++ (elemTexts ps ++ u) := by
        rw [hstart, List.cons_append, Json.skipBlanks_cons hblank]
      rw [htext] at hread
      rcases Json.reads_bracket hread with hclose | ⟨_, -, helems⟩
      · rw [hskip, hstart] at hclose
        exact absurd (List.cons.inj hclose).1 hclosing
      · rw [hskip] at helems
        exact readsElems_enclosed h.1 h.2 helems

/-! ## A string put in without care -/

/-- The quote behind a text is not among the digits of an escape. -/
theorem append_eq_unit {s y t : Text} {a b d e : Char} {u : ℕ} (hu : codeUnit? a b d e = some u)
    (h : s ++ '"' :: y = '\\' :: 'u' :: a :: b :: d :: e :: t) :
    ∃ s', s = '\\' :: 'u' :: a :: b :: d :: e :: s' ∧ s' ++ '"' :: y = t := by
  have hquote : hexValue? '"' = none := by decide
  match s with
  | [] => cases h
  | [_] => cases h
  | [_, _] =>
      simp only [List.cons_append, List.nil_append, List.cons.injEq] at h
      obtain ⟨-, -, rfl, -⟩ := h
      simp [codeUnit?, hquote] at hu
  | [_, _, _] =>
      simp only [List.cons_append, List.nil_append, List.cons.injEq] at h
      obtain ⟨-, -, -, rfl, -⟩ := h
      simp [codeUnit?, hquote] at hu
  | [_, _, _, _] =>
      simp only [List.cons_append, List.nil_append, List.cons.injEq] at h
      obtain ⟨-, -, -, -, rfl, -⟩ := h
      simp [codeUnit?, hquote] at hu
  | [_, _, _, _, _] =>
      simp only [List.cons_append, List.nil_append, List.cons.injEq] at h
      obtain ⟨-, -, -, -, -, rfl, -⟩ := h
      simp [codeUnit?, hquote] at hu
  | _ :: _ :: _ :: _ :: _ :: _ :: s' =>
      simp only [List.cons_append, List.cons.injEq] at h
      obtain ⟨rfl, rfl, rfl, rfl, rfl, rfl, hrest⟩ := h
      exact ⟨s', rfl, hrest⟩

/-- Where the literal of a string that was put in as it is ends, when a member follows:
at its own end, within the string, or in front of the key of that member. -/
theorem readBody_verbatim {q : Option ℕ} {s x w z : Text} {c : Char}
    (h : readBody q (s ++ '"' :: ',' :: '"' :: c :: z) = some (x, w)) :
    w = ',' :: '"' :: c :: z ∨ w = c :: z ∨
      ∃ s', s' <:+ s ∧ w = s' ++ '"' :: ',' :: '"' :: c :: z := by
  have hfound {s s₁ w : Text} (hs : s <:+ s₁)
      (h : w = ',' :: '"' :: c :: z ∨ w = c :: z ∨
        ∃ s', s' <:+ s ∧ w = s' ++ '"' :: ',' :: '"' :: c :: z) :
      w = ',' :: '"' :: c :: z ∨ w = c :: z ∨
        ∃ s', s' <:+ s₁ ∧ w = s' ++ '"' :: ',' :: '"' :: c :: z := by
    rcases h with h | h | ⟨s', hs', h⟩
    · exact .inl h
    · exact .inr (.inl h)
    · exact .inr (.inr ⟨s', hs'.trans hs, h⟩)
  generalize ht : s ++ '"' :: ',' :: '"' :: c :: z = t at h
  fun_induction readBody q t generalizing s x with
  | case1 => cases h
  | case2 q t =>
      obtain ⟨-, rfl⟩ := Prod.mk.inj (Option.some.inj h)
      cases s with
      | nil => exact .inl (List.cons.inj ht).2.symm
      | cons d s =>
          obtain ⟨rfl, rfl⟩ := List.cons.inj ht
          exact .inr (.inr ⟨s, List.suffix_cons _ s, rfl⟩)
  | case3 => cases h
  | case4 q a b d e t u hu hhigh ih =>
      obtain ⟨⟨x', r⟩, hbody, heq⟩ := Option.map_eq_some_iff.mp h
      obtain ⟨-, rfl⟩ := Prod.mk.inj heq
      obtain ⟨s', rfl, hs'⟩ := append_eq_unit hu ht
      exact hfound (List.suffix_append ['\\', 'u', a, b, d, e] s') (ih hs' hbody)
  | case5 q a b d e t u hu hhigh ih =>
      obtain ⟨⟨x', r⟩, hbody, heq⟩ := Option.map_eq_some_iff.mp h
      obtain ⟨-, rfl⟩ := Prod.mk.inj heq
      obtain ⟨s', rfl, hs'⟩ := append_eq_unit hu ht
      exact hfound (List.suffix_append ['\\', 'u', a, b, d, e] s') (ih hs' hbody)
  | case6 => cases h
  | case7 q d t hnot y hy ih =>
      obtain ⟨⟨x', r⟩, hbody, heq⟩ := Option.map_eq_some_iff.mp h
      obtain ⟨-, rfl⟩ := Prod.mk.inj heq
      obtain _ | ⟨e, _ | ⟨e', s'⟩⟩ := s
      · cases ht
      · -- the backslash takes the closing quote away, and the next one closes
        simp only [List.cons_append, List.nil_append, List.cons.injEq] at ht
        obtain ⟨-, -, rfl⟩ := ht
        rw [readBody_plain (by decide)] at hbody
        obtain ⟨⟨x'', r'⟩, hbody', heq'⟩ := Option.map_eq_some_iff.mp hbody
        obtain ⟨-, rfl⟩ := Prod.mk.inj heq'
        exact .inr (.inl (Prod.mk.inj (Option.some.inj hbody')).2.symm)
      · simp only [List.cons_append, List.cons.injEq] at ht
        obtain ⟨rfl, rfl, hs'⟩ := ht
        exact hfound (List.suffix_append ['\\', _] s') (ih hs' hbody)
  | case8 => cases h
  | case9 q d t hquote hunit hshort hlow ih =>
      obtain ⟨⟨x', r⟩, hbody, heq⟩ := Option.map_eq_some_iff.mp h
      obtain ⟨-, rfl⟩ := Prod.mk.inj heq
      cases s with
      | nil => exact (hquote (List.cons.inj ht).1.symm).elim
      | cons d' s' =>
          obtain ⟨rfl, hs'⟩ := List.cons.inj ht
          exact hfound (List.suffix_cons _ s') (ih hs' hbody)

theorem mem_of_skipBlanks {s y r : Text} {d : Char}
    (h : Json.skipBlanks (s ++ '"' :: y) = d :: r) : d ∈ s ∨ d = '"' := by
  induction s with
  | nil =>
      rw [List.nil_append, Json.skipBlanks_cons (by decide)] at h
      exact .inr (List.cons.inj h).1.symm
  | cons c s ih =>
      by_cases hc : Json.isBlank c = true
      · rw [List.cons_append, Json.skipBlanks, List.dropWhile_cons_of_pos hc] at h
        exact (ih h).imp_left (List.mem_cons_of_mem c)
      · rw [List.cons_append, Json.skipBlanks_cons (by simpa using hc)] at h
        exact .inl (by simp [(List.cons.inj h).1])

/-- **A string without commas and braces ends no object and starts no member**, even if it
is put in as it is, as long as a member follows. -/
theorem enclosed_verbatim_first {k s z : Text} {c : Char} {p : Piece} {ms : List (Text × Piece)}
    (hcomma : ',' ∉ s) (hbrace : '}' ∉ s) (hplain : Plain c)
    (hc : Json.isBlank c = false ∧ c ≠ ',' ∧ c ≠ '}') (hp : p.Enclosed)
    (hms : ∀ m ∈ ms, m.2.Enclosed) :
    (obj ((k, str verbatim s) :: (c :: z, p) :: ms)).Enclosed := by
  intro u v r _ hread
  obtain ⟨y, hy⟩ : ∃ y, memberTexts ((c :: z, p) :: ms) ++ u = ',' :: '"' :: c :: y := by
    simp [memberTexts, quote, escapeChar_of_plain hplain]
  have htext : (obj ((k, str verbatim s) :: (c :: z, p) :: ms)).text ++ u =
      '{' :: (quote k ++ ':' :: ('"' :: (s ++ '"' :: ',' :: '"' :: c :: y))) := by
    rw [← hy]
    simp [obj, objText, str, verbatim]
  have hskip : Json.skipBlanks (quote k ++ ':' :: ('"' :: (s ++ '"' :: ',' :: '"' :: c :: y))) =
      quote k ++ ':' :: ('"' :: (s ++ '"' :: ',' :: '"' :: c :: y)) := by
    rw [quote_append, Json.skipBlanks_cons (by decide)]
  -- what can follow the value when the object is to go on
  have hend : ∀ {w x d}, Json.Reads ('"' :: (s ++ '"' :: ',' :: '"' :: c :: y)) x w →
      (∃ r, Json.skipBlanks w = d :: r) → d = ',' ∨ d = '}' → w = ',' :: '"' :: c :: y := by
    rintro w x d hvalue ⟨r, hr⟩ hd
    obtain ⟨_, -, hbody⟩ := Json.reads_quote hvalue
    rcases readBody_verbatim hbody with h | rfl | ⟨s', hs', rfl⟩
    · exact h
    · rw [Json.skipBlanks_cons hc.1] at hr
      rcases hd with rfl | rfl
      · exact absurd (List.cons.inj hr).1 hc.2.1
      · exact absurd (List.cons.inj hr).1 hc.2.2
    · rcases mem_of_skipBlanks hr with hmem | rfl
      · rcases hd with rfl | rfl
        · exact absurd (hs'.subset hmem) hcomma
        · exact absurd (hs'.subset hmem) hbrace
      · exact absurd hd (by decide)
  rw [htext] at hread
  rcases Json.reads_brace hread with hclose | ⟨_, -, hmembers⟩
  · rw [hskip] at hclose
    cases hclose
  · rw [hskip] at hmembers
    cases hmembers with
    | last hkey hvalue hclose =>
        obtain ⟨rfl, rfl⟩ := Json.readsKey_quote hkey
        obtain rfl := hend hvalue ⟨_, hclose⟩ (.inr rfl)
        cases hclose
    | cons hkey hvalue hcut hrest =>
        obtain ⟨rfl, rfl⟩ := Json.readsKey_quote hkey
        obtain rfl := hend hvalue ⟨_, hcut⟩ (.inl rfl)
        rw [← hy] at hcut
        have hcut' : ',' :: (quote (c :: z) ++ ':' :: (p.text ++ memberTexts ms) ++ u) =
            ',' :: _ := hcut
        obtain rfl := (List.cons.inj hcut').2
        simp only [List.append_assoc, List.cons_append] at hrest
        exact readsMembers_enclosed hp hms hrest

end Piece

end Wire
