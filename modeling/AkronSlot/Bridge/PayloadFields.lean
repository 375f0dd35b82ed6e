import AkronSlot.Bridge.CommandFrame

/-!
# Which payload values reach the MQL5 handlers

`jsonField_payload` computes what `JsonField(frame, "payload.<key>")` answers
for every payload and every identifier key: the start of the **first** value
for the first key, and the empty text for every other one.
`jsonField_payload_iff` turns that into the exact condition under which a
handler reads the value that was sent.

## Two cuts

The value of `"payload"` is cut out of the frame like a number, and then the key is searched in
what was cut out. The first cut ends at a comma, a closing brace or a blank, wherever these
stand, inside a string or not; a payload with two members therefore loses the second one. The
second search may find a key where there is none: what follows the last quote of a first key
that ends in one. `payloadReading` has both, for every payload.
-/

namespace AkronSlot.Bridge

open Wire Mql5 Slot

/-- What is left of a value when the payload text is cut: a string loses
everything from its first comma, closing brace or blank on, and keeps its
escapes. -/
def Scalar.cutText : Scalar → Text
  | .str s => escapeText (s.takeWhile bare)
  | v => v.text

/-- The path `payload.<key>`. -/
def payloadPath (k : Text) : Text := "payload".toList ++ '.' :: k

/-- A search for a key finds nothing in a literal without its closing quote. -/
theorem find_key_open {k : Text} (hk : Identifier k) (s : Text) :
    find (keyLiteral k) ('"' :: escapeText s) = none := by
  cases hfind : find (keyLiteral k) ('"' :: escapeText s) with
  | none => rfl
  | some r =>
      exfalso
      have hr := (prefix_of_find hfind).length_le
      have hext := find_append hfind ['"', ':']
      have htext : '"' :: escapeText s ++ ['"', ':'] = quote s ++ ':' :: [] := by simp [quote]
      rw [htext, find_key_quote hk s [] (by decide)] at hext
      split_ifs at hext with hks hsuffix
      · have hlen := congrArg (Option.map List.length) hext
        subst hks
        simp [quote, escapeText_of_plain hk.plain, keyLiteral] at hlen hr
        omega
      · have hlen := congrArg (Option.map List.length) hext
        simp [keyLiteral] at hlen hr
        omega
      · rw [keyLiteral, find_eq_none_of_notMem (by decide)] at hext
        cases hext

/-- A search for a key that stops inside a printed string finds no colon behind
it. -/
theorem fieldAt_quote {k : Text} (hk : Identifier k) (s : Text) : fieldAt (quote s) k = [] := by
  have hcolon : find [':'] (keyLiteral k) = none := by
    apply find_eq_none_of_notMem
    have := hk.notMem (c := ':') (by simp)
    simp [keyLiteral, this]
  cases hfind : find (keyLiteral k) (quote s) with
  | none => simp [fieldAt, hfind]
  | some r =>
      have hext := find_append hfind [':']
      rw [find_key_quote hk s [] (by decide)] at hext
      have hr : r = keyLiteral k := by
        split_ifs at hext with hks hsuffix
        · have := List.append_cancel_right (Option.some.inj hext)
          rw [← this, ← hks, keyLiteral_eq_quote hk]
        · exact (List.append_cancel_right (Option.some.inj hext)).symm
        · rw [keyLiteral, find_eq_none_of_notMem (by decide)] at hext
          cases hext
      subst hr
      simp [fieldAt, hfind, hcolon]

/-- The text of a scalar that is no string has no delimiter and no quote. -/
theorem scalarText_notMem {v : Scalar} (hv : ∀ s, v ≠ .str s) {c : Char}
    (hc : c ∈ [',', '}', ' ', '\t', '"']) : c ∉ v.text := by
  have hdigit : digitOf? c = none ∧ c ∉ numeralMarks := by
    simp only [List.mem_cons, List.not_mem_nil, or_false] at hc
    rcases hc with rfl | rfl | rfl | rfl | rfl <;> decide
  cases v with
  | null =>
      revert hc
      simp only [Scalar.text, Scalar.toJson, Json.print]
      simp
      grind
  | bool b =>
      revert hc
      cases b <;> simp only [Scalar.text, Scalar.toJson, Json.print] <;> simp <;> grind
  | num n => exact Numeral.text_notMem hdigit.1 hdigit.2 n
  | str s => exact absurd rfl (hv s)

/-- The text of a scalar that is no string is not empty. -/
theorem scalarText_ne_nil {v : Scalar} (hv : ∀ s, v ≠ .str s) : v.text ≠ [] := by
  match v with
  | .null => decide
  | .bool true => decide
  | .bool false => decide
  | .num n =>
      obtain ⟨c, t, htext, -⟩ := n.text_head
      simp [Scalar.text, Scalar.toJson, Json.print, htext]
  | .str s => exact absurd rfl (hv s)

theorem bare_of_notMem {t : Text} (hcomma : ',' ∉ t) (hclose : '}' ∉ t) (hblank : ' ' ∉ t) :
    ∀ c ∈ t, bare c = true := by
  intro c hc
  simp only [bare, Bool.and_eq_true, decide_eq_true_eq]
  refine ⟨⟨?_, ?_⟩, ?_⟩ <;> (rintro rfl; contradiction)

/-- The printed value of the first member, cut with the payload. -/
def cutPrinted (v : Scalar) : Text := (Json.print v.toJson).takeWhile bare

/-- Cutting a printed string. -/
theorem cutPrinted_str (s : Text) :
    cutPrinted (.str s) =
      '"' :: (escapeText (s.takeWhile bare) ++ if ∀ c ∈ s, bare c = true then ['"'] else []) := by
  have hquote : bare '"' = true := by decide
  have hcut := takeWhile_bare_escapeText s ['"']
  simp only [cutPrinted, Scalar.toJson, Json.print, quote]
  rw [List.takeWhile_cons_of_pos hquote, hcut]
  simp [List.takeWhile, hquote]

/-- Nothing else is shortened by the cut. -/
theorem cutPrinted_of_not_str {v : Scalar} (hv : ∀ s, v ≠ .str s) : cutPrinted v = v.text := by
  have htext : Json.print v.toJson = v.text := by
    cases v <;> first | rfl | exact absurd rfl (hv _)
  rw [cutPrinted, htext, List.takeWhile_eq_self_iff]
  exact bare_of_notMem (scalarText_notMem hv (by simp)) (scalarText_notMem hv (by simp))
    (scalarText_notMem hv (by simp))

/-- What the handler gets when its search stops in front of the first value. -/
theorem readValue_cutPrinted (v : Scalar) : readValue (cutPrinted v) = Scalar.cutText v := by
  by_cases hstr : ∃ s, v = .str s
  · obtain ⟨s, rfl⟩ := hstr
    rw [cutPrinted_str, Scalar.cutText, readValue,
      List.dropWhile_cons_of_neg (by decide)]
    simp only [quotedSpan_escapeText]
    split <;> simp [quotedSpan]
  · have hv : ∀ s, v ≠ .str s := fun s hs => hstr ⟨s, hs⟩
    obtain ⟨c, t, htext⟩ := List.exists_cons_of_ne_nil (scalarText_ne_nil hv)
    have hnot : ∀ x ∈ [',', '}', ' ', '\t', '"'], x ≠ c := by
      rintro x hx rfl
      exact scalarText_notMem hv hx (by simp [htext])
    have hcut : Scalar.cutText v = v.text := by
      cases v <;> first | rfl | exact absurd rfl (hv _)
    have hblank : c ≠ ' ' := (hnot ' ' (by simp)).symm
    have htab : c ≠ '\t' := (hnot '\t' (by simp)).symm
    have hquote : c ≠ '"' := (hnot '"' (by simp)).symm
    have hbare : ∀ x ∈ v.text, bare x = true :=
      bare_of_notMem (scalarText_notMem hv (by simp)) (scalarText_notMem hv (by simp))
        (scalarText_notMem hv (by simp))
    rw [cutPrinted_of_not_str hv, hcut, readValue]
    rw [htext] at hbare ⊢
    rw [List.dropWhile_cons_of_neg (by simp [hblank, htab])]
    split
    · next heq => exact absurd (List.cons.inj heq).1 hquote
    · exact List.takeWhile_eq_self_iff.mpr hbare

/-- Behind the first key nothing of the cut payload answers to another key. -/
theorem fieldAt_cutPrinted {k : Text} (hk : Identifier k) (v : Scalar) :
    fieldAt (cutPrinted v) k = [] := by
  by_cases hstr : ∃ s, v = .str s
  · obtain ⟨s, rfl⟩ := hstr
    rw [cutPrinted_str]
    by_cases hall : ∀ c ∈ s, bare c = true
    · rw [if_pos hall, List.takeWhile_eq_self_iff.mpr hall]
      exact fieldAt_quote hk s
    · rw [if_neg hall, List.append_nil]
      simp [fieldAt, find_key_open hk]
  · have hv : ∀ s, v ≠ .str s := fun s hs => hstr ⟨s, hs⟩
    have hquote := scalarText_notMem hv (c := '"') (by simp)
    rw [cutPrinted_of_not_str hv]
    simp [fieldAt, keyLiteral, find_eq_none_of_notMem hquote]

/-! ## The cut payload -/

/-- A cut does not see past a text that starts with a delimiter. -/
theorem takeWhile_append_of_stop {p : Char → Bool} (s : Text) {t : Text}
    (ht : t.takeWhile p = []) : (s ++ t).takeWhile p = s.takeWhile p := by
  induction s with
  | nil => simpa using ht
  | cons c s ih =>
      by_cases hc : p c = true
      · simp [hc, ih]
      · simp [hc]

/-- The printed payload up to its first delimiter: the brace, the first key, and what is left of
the first value. -/
def payloadCut : List (Text × Scalar) → Text
  | [] => ['{']
  | (k, v) :: _ =>
      '{' :: if ∀ c ∈ k, bare c = true then quote k ++ ':' :: cutPrinted v
        else '"' :: escapeText (k.takeWhile bare)

theorem takeWhile_bare_payload (p : Payload) :
    (Json.print p.toJson ++ ['}']).takeWhile bare = payloadCut p.entries := by
  match hentries : p.entries with
  | [] => simp [Payload.toJson, hentries, Json.print, payloadCut, bare]
  | (k, v) :: es =>
      have hstop : (Json.printMembers (es.map fun e => (e.1, e.2.toJson)) ++ ['}']).takeWhile bare
          = [] := by
        cases es <;> simp [Json.printMembers, bare]
      have hvalue := takeWhile_append_of_stop (Json.print v.toJson) hstop
      have hbrace : bare '{' = true := by decide
      have hquote : bare '"' = true := by decide
      have hcolon : bare ':' = true := by decide
      simp only [Payload.toJson, hentries, List.map_cons, Json.print, quote, payloadCut,
        List.cons_append, List.append_assoc, List.nil_append]
      rw [List.takeWhile_cons_of_pos hbrace, List.takeWhile_cons_of_pos hquote,
        takeWhile_bare_escapeText]
      split_ifs with hall
      · rw [List.takeWhile_eq_self_iff.mpr hall, List.takeWhile_cons_of_pos hquote,
          List.takeWhile_cons_of_pos hcolon, hvalue, cutPrinted]
      · simp

/-! ## The reading of every key -/

/-- The answer of `JsonField(frame, "payload.<k>")`. Only the first member is left; its key
answers, and so does what follows its last quote when the key has one. Every other key is answered
with the empty text. -/
def payloadReading (p : Payload) (k : Text) : Text :=
  match p.entries with
  | [] => []
  | (k₁, v₁) :: _ =>
      if k = k₁ ∨ ('"' :: k <:+ k₁ ∧ ∀ c ∈ k₁, bare c = true) then Scalar.cutText v₁ else []

theorem fieldAt_payloadCut {k : Text} (hk : Identifier k) (p : Payload) :
    fieldAt (payloadCut p.entries) k = payloadReading p k := by
  unfold payloadReading
  match p.entries with
  | [] => simp [payloadCut, fieldAt, keyLiteral, find]
  | (k₁, v₁) :: _ =>
      have hbrace (t : Text) : find (keyLiteral k) ('{' :: t) = find (keyLiteral k) t := by
        rw [keyLiteral, find_cons_of_ne (by decide)]
      simp only [payloadCut]
      by_cases hall : ∀ c ∈ k₁, bare c = true
      · rw [if_pos hall]
        have hfind := find_key_quote hk k₁ (cutPrinted v₁) (c := ':') (by decide)
        by_cases hkk : k = k₁
        · subst hkk
          rw [if_pos rfl, ← keyLiteral_eq_quote hk] at hfind
          rw [if_pos (Or.inl rfl), ← keyLiteral_eq_quote hk,
            fieldAt_of_find hk (by rw [hbrace, hfind]), readValue_cutPrinted]
        · rw [if_neg hkk] at hfind
          by_cases hsuffix : '"' :: k <:+ k₁
          · rw [if_pos hsuffix] at hfind
            rw [if_pos (Or.inr ⟨hsuffix, hall⟩),
              fieldAt_of_find hk (by rw [hbrace, hfind]), readValue_cutPrinted]
          · -- the key is nowhere in the first member's key, so only its value could answer
            rw [if_neg hsuffix] at hfind
            have hcolon : find (keyLiteral k) (':' :: cutPrinted v₁) =
                find (keyLiteral k) (cutPrinted v₁) := by
              rw [keyLiteral, find_cons_of_ne (by decide)]
            have hvalue := fieldAt_cutPrinted hk v₁
            rw [fieldAt] at hvalue
            rw [if_neg (by tauto), fieldAt, hbrace, hfind, hcolon]
            exact hvalue
      · have hkk : k ≠ k₁ := by rintro rfl; exact hall hk.bare
        rw [if_neg hall, if_neg (by tauto), fieldAt, hbrace, find_key_open hk]

/-- **What a handler reads for a payload key.** -/
theorem jsonField_payload (id : Uuid) (a : Action) (p : Payload) {k : Text} (hk : Identifier k) :
    jsonField (commandFrame id a.name p.toJson) (payloadPath k) = payloadReading p k := by
  have hpath : (payloadPath k).splitOn '.' = ["payload".toList, k] :=
    splitOn_pair (by decide) (hk.notMem (by simp))
  have hpayload : fieldAt (commandFrame id a.name p.toJson) "payload" = payloadCut p.entries := by
    rw [← takeWhile_bare_payload]
    exact fieldAt_payload id a _
  simp only [jsonField, hpath, List.foldl_cons, List.foldl_nil]
  rw [hpayload, fieldAt_payloadCut hk]

/-! ## When the reading is right -/

/-- A value that the cut leaves whole: anything but a string, and a string
without delimiters and without characters that are escaped. -/
def Scalar.Whole (v : Scalar) : Prop := ∀ s, v = .str s → ∀ c ∈ s, bare c = true ∧ Plain c

/-- The condition under which the member `k`, `v` of a payload is read as it was
sent.  The first member must be left whole by the cut.  Any other member must be
the empty string, unless the first key ends in a quote and `k`: then the first
value answers for it. -/
def Readable (p : Payload) (k : Text) (v : Scalar) : Prop :=
  match p.entries with
  | [] => False
  | (k₁, v₁) :: _ =>
      if k = k₁ then Scalar.Whole v
      else if '"' :: k <:+ k₁ ∧ ∀ c ∈ k₁, bare c = true then Scalar.cutText v₁ = v.text
      else v = .str []

theorem cutText_eq_text_iff (v : Scalar) : Scalar.cutText v = v.text ↔ Scalar.Whole v := by
  cases v with
  | str s =>
      simp only [Scalar.cutText, Scalar.text, Scalar.Whole, Scalar.str.injEq]
      constructor
      · rintro h _ rfl c hc
        have hcut : s.takeWhile bare = s := by
          have hall : ∀ c ∈ s.takeWhile bare, bare c = true :=
            fun c hc => List.mem_takeWhile_imp hc
          have hescaped := takeWhile_bare_escapeText (s.takeWhile bare) []
          rw [List.append_nil, List.takeWhile_eq_self_iff.mpr hall, h] at hescaped
          simpa using hescaped
        rw [hcut] at h
        exact ⟨List.takeWhile_eq_self_iff.mp hcut c hc, escapeText_eq_self_iff.mp h c hc⟩
      · intro h
        have hcut : s.takeWhile bare = s :=
          List.takeWhile_eq_self_iff.mpr fun c hc => (h s rfl c hc).1
        rw [hcut]
        exact escapeText_of_plain fun c hc => (h s rfl c hc).2
  | null => simp [Scalar.cutText, Scalar.Whole]
  | bool b => simp [Scalar.cutText, Scalar.Whole]
  | num n => simp [Scalar.cutText, Scalar.Whole]

/-- Only the empty string has an empty text. -/
theorem scalarText_eq_nil_iff (v : Scalar) : v.text = [] ↔ v = .str [] := by
  constructor
  · intro h
    match v with
    | .str s => rw [Scalar.text] at h; rw [h]
    | .null => exact absurd h (scalarText_ne_nil (by simp))
    | .bool b => exact absurd h (scalarText_ne_nil (by simp))
    | .num n => exact absurd h (scalarText_ne_nil (by simp))
  · rintro rfl
    rfl

/-- The values of a payload are determined by their keys. -/
theorem Payload.value_unique (p : Payload) {k : Text} {v w : Scalar} (hv : (k, v) ∈ p.entries)
    (hw : (k, w) ∈ p.entries) : v = w :=
  (Prod.mk.inj (List.inj_on_of_nodup_map p.nodup_keys hv hw rfl)).2

/-- **A handler reads the text of a payload value exactly when the member is readable.** The
payload comes last in the frame, so nothing before it can have the key of `payload`; what can go
wrong is within the payload, before the member or in its value. -/
theorem jsonField_payload_iff (id : Uuid) (a : Action) (p : Payload) {k : Text} {v : Scalar}
    (hk : Identifier k) (hkv : (k, v) ∈ p.entries) :
    jsonField (commandFrame id a.name p.toJson) (payloadPath k) = v.text ↔ Readable p k v := by
  rw [jsonField_payload id a p hk, payloadReading, Readable]
  match hentries : p.entries with
  | [] => simp [hentries] at hkv
  | (k₁, v₁) :: es =>
      by_cases hkk : k = k₁
      · subst hkk
        have hv : v₁ = v := Payload.value_unique p (by simp [hentries]) hkv
        subst hv
        simpa using cutText_eq_text_iff v₁
      · simp only [hkk, false_or, if_false]
        split_ifs with hsuffix
        · rfl
        · rw [eq_comm, scalarText_eq_nil_iff]

/-- The payload of a market order as `openTrade` sends it. -/
def marketOrderPayload : Payload :=
  Payload.ofProperties [("account_id", some (.str "5001")), ("instrument", some (.str "EURUSD")),
    ("side", some (.str "sell")), ("qty", some (.num (Numeral.ofNat 2))),
    ("type", some (.str "market"))] (by decide)

/-- The login comes first and has no delimiter, so it is read. -/
theorem jsonField_payload_account_id :
    jsonField (commandFrame sampleId (Action.name .open_) marketOrderPayload.toJson)
      (payloadPath "account_id") = (Scalar.str "5001").text :=
  (jsonField_payload_iff sampleId .open_ marketOrderPayload (k := "account_id")
    (v := .str "5001") (by decide) (by decide)).mpr (by
      rintro s ⟨⟩ c hc
      have hdigits : ("5001" : Text).all (fun c => bare c && decide (Plain c)) = true := by decide
      simpa using List.all_eq_true.mp hdigits c hc)

/-- A sell order of two lots is read as an order without side and quantity. -/
theorem jsonField_payload_qty_lost :
    Identifier "qty" ∧ ("qty".toList, Scalar.num (Numeral.ofNat 2)) ∈ marketOrderPayload.entries ∧
      (Scalar.num (Numeral.ofNat 2)).text = "2".toList ∧
      jsonField (commandFrame sampleId (Action.name .open_) marketOrderPayload.toJson)
        (payloadPath "qty") = [] := by
  decide

end AkronSlot.Bridge
