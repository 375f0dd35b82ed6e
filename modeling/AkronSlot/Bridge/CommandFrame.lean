import AkronSlot.Mql5.JsonField
import AkronSlot.Slot.CommandClient

/-!
# What `JsonField` reads from a command frame

The slot prints a command frame with `JSON.stringify`; SlotService reads it
with `jsonField`.  The id and the action come out as they went in, because the
search for their keys passes over every printed word in front of them
(`jsonField_id`, `jsonField_action`).

A payload member does not in general.  The value of `"payload"` starts with a
brace, so it is cut like a number, at the first comma, closing brace or blank:
what is left of the payload is its first key and the start of its first value.
`jsonField_payload` computes the reading of every key, and
`jsonField_payload_iff` says exactly when it is the text of the key's value.

## Searching in printed text

`JsonField` does not parse: it looks for `"key":` in the text of the frame and takes what
follows. That it finds the right place is a fact about what stands before it, and everything
before the payload is printed by the slot itself, from words and ids without quotes. The payload
is the first text in which a caller has a say, and nothing that comes from it is searched for
the two keys.
-/

namespace AkronSlot.Bridge

open Wire Mql5 Slot

/-! ## Searching a key over printed words -/

/-- The search for a key passes over a printed word that is another key. -/
theorem find_key_quote {k : Text} (hk : Identifier k) (w : Text) {c : Char} (t : Text)
    (hc : identChar c = false) :
    find (keyLiteral k) (quote w ++ c :: t) =
      if k = w then some (quote w ++ c :: t)
      else if '"' :: k <:+ w then some (keyLiteral k ++ c :: t)
      else find (keyLiteral k) (c :: t) := by
  have hclose : find (keyLiteral k) ('"' :: c :: t) = find (keyLiteral k) (c :: t) := by
    apply find_cons_of_no_start
    intro h
    obtain ⟨a, k', rfl⟩ := List.exists_cons_of_ne_nil hk.1
    have hhead := (List.cons_prefix_cons.mp (List.cons_prefix_cons.mp h).2).1
    rw [← hhead, hk.2 a (by simp)] at hc
    exact Bool.noConfusion hc
  have hquote : quote w ++ c :: t = '"' :: (escapeText w ++ '"' :: c :: t) := by simp [quote]
  rw [hquote]
  by_cases hkw : k = w
  · subst hkw
    rw [if_pos rfl, escapeText_of_plain hk.plain]
    exact find_of_start ⟨c :: t, by simp [keyLiteral]⟩ (by simp [keyLiteral])
  · have hstart : ¬ keyLiteral k <+: '"' :: (escapeText w ++ '"' :: c :: t) := by
      intro h
      obtain ⟨u, hu⟩ := (List.cons_prefix_cons.mp h).2
      have hread := readBody_escapeText w (c :: t)
      have hreadk := readBody_escapeText k u
      rw [escapeText_of_plain hk.plain] at hreadk
      rw [← hu, List.append_assoc, List.singleton_append, hreadk] at hread
      exact hkw (by simpa using congrArg (Option.map Prod.fst) hread)
    rw [if_neg hkw, find_cons_of_no_start hstart, find_key_body hk, hclose]

/-- The search for a key passes over a printed word without quotes, and over
the delimiter behind it. -/
theorem find_key_skip {k w : Text} (hk : Identifier k) (hkw : k ≠ w) (hw : '"' ∉ w) {c : Char}
    (t : Text) (hc : identChar c = false) (hquote : c ≠ '"') :
    find (keyLiteral k) (quote w ++ c :: t) = find (keyLiteral k) t := by
  have hsuffix : ¬ '"' :: k <:+ w := fun h => hw (h.subset (by simp))
  rw [find_key_quote hk w t hc, if_neg hkw, if_neg hsuffix, keyLiteral, find_cons_of_ne hquote]

/-- The value behind a key that the search stops at. -/
theorem fieldAt_of_find {sub k t : Text} (hk : Identifier k)
    (h : find (keyLiteral k) sub = some (keyLiteral k ++ ':' :: t)) :
    fieldAt sub k = readValue t := by
  have hcolon : ':' ∉ keyLiteral k := by
    have := hk.notMem (c := ':') (by simp)
    simp [keyLiteral, this]
  simp [fieldAt, h, find_singleton_append hcolon]

theorem keyLiteral_eq_quote {k : Text} (hk : Identifier k) : keyLiteral k = quote k := by
  rw [keyLiteral, quote, escapeText_of_plain hk.plain]

/-- A printed string is cut at its closing quote, its escapes kept. -/
theorem readValue_quote (s t : Text) : readValue (quote s ++ t) = escapeText s := by
  simp [readValue, quote, List.dropWhile_cons_of_neg, quotedSpan_escapeText, quotedSpan]

/-! ## The id and the action -/

theorem Uuid.notMem (id : Uuid) {c : Char} (hdash : c ≠ '-') (hhex : hexValue? c = none) :
    c ∉ id.text := by
  intro hc
  rcases id.hex_text c hc with h | h
  · exact hdash h
  · simp [hhex] at h

theorem Uuid.plain (id : Uuid) : ∀ c ∈ id.text, Plain c := by
  intro c hc
  refine ⟨?_, ?_, ?_⟩
  · rintro rfl
    exact Uuid.notMem id (by decide) (by decide) hc
  · rintro rfl
    exact Uuid.notMem id (by decide) (by decide) hc
  · by_contra hlow
    have hcontrol : ∀ n < 0x20, Char.ofNat n ≠ '-' ∧ hexValue? (Char.ofNat n) = none := by decide
    have hno := hcontrol c.toNat (by omega)
    rw [Char.ofNat_toNat] at hno
    exact Uuid.notMem id hno.1 hno.2 hc

/-- An id is no short word. -/
theorem Uuid.ne_of_length (id : Uuid) {k : Text} (h : k.length ≠ 36) : k ≠ id.text := by
  rintro rfl
  exact h id.length_text

/-- The text of a command frame, member by member. -/
theorem commandFrame_eq (id : Uuid) (action : Text) (payload : Json) :
    commandFrame id action payload =
      '{' :: (quote "type" ++ ':' :: (quote "command" ++ ',' :: (quote "id" ++ ':' ::
        (quote id.text ++ ',' :: (quote "action" ++ ':' :: (quote action ++ ',' ::
          (quote "payload" ++ ':' :: (Json.print payload ++ ['}'])))))))) := by
  simp [commandFrame, Json.print, Json.printMembers]

section Keys

variable (id : Uuid) (payload : Json)

/-- The search for a key of the frame passes over the type member. -/
theorem find_key_type {k : Text} (hk : Identifier k) (htype : k ≠ "type") (hcommand : k ≠ "command")
    (t : Text) :
    find (keyLiteral k) ('{' :: (quote "type" ++ ':' :: (quote "command" ++ ',' :: t))) =
      find (keyLiteral k) t := by
  rw [keyLiteral, find_cons_of_ne (by decide), ← keyLiteral,
    find_key_skip hk htype (by decide) _ (by decide) (by decide),
    find_key_skip hk hcommand (by decide) _ (by decide) (by decide)]

/-- The search for a short key passes over the id member. -/
theorem find_key_id {k : Text} (hk : Identifier k) (hid : k ≠ "id") (hlen : k.length ≠ 36)
    (t : Text) :
    find (keyLiteral k) (quote "id" ++ ':' :: (quote id.text ++ ',' :: t)) =
      find (keyLiteral k) t := by
  have hquote : '"' ∉ id.text := Uuid.notMem id (by decide) (by decide)
  rw [find_key_skip hk hid (by decide) _ (by decide) (by decide),
    find_key_skip hk (Uuid.ne_of_length id hlen) hquote _ (by decide) (by decide)]

theorem identifier_id : Identifier "id" := by decide
theorem identifier_action : Identifier "action" := by decide
theorem identifier_payload : Identifier "payload" := by decide

/-- **The id is read back from every command frame.** -/
theorem jsonField_id (action : Text) :
    jsonField (commandFrame id action payload) "id" = id.text := by
  have hpath : ("id" : Text).splitOn '.' = ["id".toList] := by decide
  have hfind : find (keyLiteral "id") (commandFrame id action payload) =
      some (keyLiteral "id" ++ ':' :: (quote id.text ++ ',' :: (quote "action" ++ ':' ::
        (quote action ++ ',' :: (quote "payload" ++ ':' :: (Json.print payload ++ ['}'])))))) := by
    rw [commandFrame_eq, find_key_type identifier_id (by decide) (by decide),
      find_key_quote identifier_id _ _ (by decide), if_pos rfl,
      ← keyLiteral_eq_quote identifier_id]
  rw [jsonField, hpath, List.foldl_cons, List.foldl_nil, fieldAt_of_find identifier_id hfind,
    readValue_quote, escapeText_of_plain (Uuid.plain id)]

/-- **The action is read back from every command frame.** The names of the actions are such words;
the theorem is about any text that is printed as it is. -/
theorem jsonField_action {action : Text} (h : ∀ c ∈ action, Plain c) :
    jsonField (commandFrame id action payload) "action" = action := by
  have hpath : ("action" : Text).splitOn '.' = ["action".toList] := by decide
  have hfind : find (keyLiteral "action") (commandFrame id action payload) =
      some (keyLiteral "action" ++ ':' :: (quote action ++ ',' ::
        (quote "payload" ++ ':' :: (Json.print payload ++ ['}'])))) := by
    rw [commandFrame_eq, find_key_type identifier_action (by decide) (by decide),
      find_key_id id identifier_action (by decide) (by decide),
      find_key_quote identifier_action _ _ (by decide), if_pos rfl,
      ← keyLiteral_eq_quote identifier_action]
  rw [jsonField, hpath, List.foldl_cons, List.foldl_nil, fieldAt_of_find identifier_action hfind,
    readValue_quote, escapeText_of_plain h]

/-- The names of the actions are identifiers, and none of them is a key of the
frame. -/
theorem Action.name_identifier (a : Action) : Identifier a.name ∧ a.name ≠ "payload" := by
  cases a <;> decide

/-- The reading of `"payload"`, whatever the payload is: neither the id nor the name of
the action is taken for the key. -/
theorem fieldAt_anyPayload (a : Action) (payload : Json) :
    fieldAt (commandFrame id a.name payload) "payload" =
      readValue (Json.print payload ++ ['}']) := by
  obtain ⟨hident, hname⟩ := Action.name_identifier a
  have hquote : '"' ∉ a.name := hident.notMem (by simp)
  have hfind : find (keyLiteral "payload") (commandFrame id a.name payload) =
      some (keyLiteral "payload" ++ ':' :: (Json.print payload ++ ['}'])) := by
    rw [commandFrame_eq, find_key_type identifier_payload (by decide) (by decide),
      find_key_id id identifier_payload (by decide) (by decide),
      find_key_skip identifier_payload (by decide) (by decide) _ (by decide) (by decide),
      find_key_skip identifier_payload (Ne.symm hname) hquote _ (by decide) (by decide),
      find_key_quote identifier_payload _ _ (by decide), if_pos rfl,
      ← keyLiteral_eq_quote identifier_payload]
  exact fieldAt_of_find identifier_payload hfind

/-- An object is read up to its first comma, closing brace or blank. -/
theorem fieldAt_payload (a : Action) (ms : List (Text × Json)) :
    fieldAt (commandFrame id a.name (.obj ms)) "payload" =
      (Json.print (.obj ms) ++ ['}']).takeWhile bare := by
  rw [fieldAt_anyPayload]
  cases ms <;> simp [Json.print, readValue, List.dropWhile_cons_of_neg]

end Keys

end AkronSlot.Bridge
