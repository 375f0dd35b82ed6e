import AkronSlot.Bridge.ReplyPieces

/-!
# What a response line says

A response line is read by `JSON.parse`.  It says what the handler meant, with the
strings that the terminal gave it, exactly when each of these strings was escaped as
it has to be (`reply_conveys_iff`): `%s` escapes nothing, and `JsonEscape` leaves the
control characters alone that are no newline, carriage return or tab.

## Meant and written

What a handler means is a JSON value, and what it writes is a text. A `Piece` has both, and
pieces are put together as the formats do it; whether the text of a piece is the print of its
value is then a question about the strings in it, and about nothing else. `Conveys` asks for a
little more, since the line has to end where it ends: a newline in a string would make two lines
of one.

## Main Definitions

* `Conveys` — one line, the id of the command, and the result that was meant

## Main Results

* `reply_conveys_iff`
-/

namespace AkronSlot.Bridge

open Wire Mql5 Slot

/-! ## Response frames -/

/-- The response frame around a result, as a piece: the id is printed by the slot and needs no
escape. -/
def responsePiece (id : Uuid) (result : Piece) : Piece :=
  .obj [("type", .ofValue (.str "response")), ("id", .ofValue (.str id.text)),
    ("ok", boolPiece true), ("result", result)]

theorem responsePiece_text (id : Uuid) (result : Piece) :
    (responsePiece id result).text = rawFrame id result.text := rfl

theorem clean_responsePiece (id : Uuid) (result : Piece) :
    (responsePiece id result).Clean ↔ result.Clean := by
  rw [responsePiece, Piece.clean_obj]
  simp [Piece.clean_ofValue]

/-- **What is promised of a response line**: it is one line, and it is JSON that gives the
id of the command and the result that is meant. -/
def Conveys (line : Text) (id : Uuid) (result : Json) : Prop :=
  ∃ frame, line = frame ++ ['\n'] ∧ '\n' ∉ frame ∧
    Json.parse frame = some (responseFrame id true result)

/-- The line of a piece keeps the promise exactly if the piece is clean. -/
theorem conveys_piece_iff (id : Uuid) (result : Piece) :
    Conveys (rawFrame id result.text ++ ['\n']) id result.value ↔ result.Clean := by
  rw [← clean_responsePiece id, ← responsePiece_text]
  constructor
  · rintro ⟨frame, hline, -, hparse⟩
    obtain rfl := List.append_cancel_right hline
    exact (Piece.parse_iff _).mp hparse
  · intro h
    refine ⟨_, rfl, ?_, (Piece.parse_iff _).mpr h⟩
    rw [h]
    exact Json.newline_notMem_print _

/-! ## The symbol of a query -/

/-- A value that is no string needs no escape. -/
theorem escapeText_scalarText {v : Scalar} (hv : ∀ s, v ≠ .str s) : escapeText v.text = v.text := by
  cases v with
  | null => rfl
  | bool b => cases b <;> rfl
  | num n =>
      have hno {c : Char} (hd : digitOf? c = none) (hm : c ∉ numeralMarks) : c ∉ n.text :=
        n.text_notMem hd hm
      refine escapeText_of_plain fun c hc => ⟨?_, ?_, ?_⟩
      · rintro rfl
        exact hno (by decide) (by decide) hc
      · rintro rfl
        exact hno (by decide) (by decide) hc
      · by_contra hlow
        have hcontrol : ∀ k < 0x20, digitOf? (Char.ofNat k) = none ∧
            Char.ofNat k ∉ numeralMarks := by decide
        have hmark := hcontrol c.toNat (by omega)
        rw [Char.ofNat_toNat] at hmark
        exact hno hmark.1 hmark.2 hc
  | str s => exact absurd rfl (hv s)

theorem cutText_escaped (v : Scalar) : ∃ s, Scalar.cutText v = escapeText s := by
  by_cases hstr : ∃ s, v = .str s
  · obtain ⟨s, rfl⟩ := hstr
    exact ⟨_, rfl⟩
  · have hv : ∀ s, v ≠ .str s := fun s hs => hstr ⟨s, hs⟩
    refine ⟨v.text, ?_⟩
    rw [escapeText_scalarText hv]
    cases v with
    | str s => exact absurd rfl (hv s)
    | null => rfl
    | bool b => rfl
    | num n => rfl

theorem payloadReading_escaped (p : Payload) (k : Text) :
    ∃ s, payloadReading p k = escapeText s := by
  unfold payloadReading
  split
  · exact ⟨[], rfl⟩
  · split
    · exact cutText_escaped _
    · exact ⟨[], rfl⟩

/-- What a handler reads as the symbol is the escape of a text. -/
theorem querySymbol_escaped (id : Uuid) (a : Action) (p : Payload) :
    ∃ s, querySymbol (frameReader id a p) = escapeText s := by
  have hread : ∀ k : Text, Identifier k →
      ∃ s, frameReader id a p (payloadPath k) = escapeText s := by
    intro k hk
    rw [frameReader, jsonField_payload id a p hk]
    exact payloadReading_escaped p k
  unfold querySymbol
  split
  · exact hread "instrument" (by decide)
  · exact hread "symbol" (by decide)

/-! ## The lines of the handlers -/

section Lines

variable (t : Terminal) (b : Broker) (id : Uuid) {a : Action} (p : Payload)

/-- The line of a handler is the frame around its piece. -/
theorem reply_line (ha : a.name ∈ knownActions) :
    (handleCommandAndRespond t (queryHandlers b) (frameReader id a p)).1 =
      rawFrame id (replyPiece t b (frameReader id a p) a).text ++ ['\n'] := by
  obtain ⟨h, hhandle, hresult⟩ :=
    handle_piece t b (frameReader id a p) ha fun _ => querySymbol_escaped id a p
  simp only [handleCommandAndRespond, frameReader_action, frameReader_id, hhandle,
    responseLine_raw, hresult]

theorem reply_conveys_clean (ha : a.name ∈ knownActions) :
    Conveys (handleCommandAndRespond t (queryHandlers b) (frameReader id a p)).1 id
        (replyPiece t b (frameReader id a p) a).value ↔
      (replyPiece t b (frameReader id a p) a).Clean := by
  rw [reply_line t b id p ha]
  exact conveys_piece_iff id _

/-- **When a response says what was meant**: the strings that the handler takes over as
they are need no escape, and those that go through `JsonEscape` hold none of the control
characters that it leaves alone. -/
theorem reply_conveys_iff (ha : a.name ∈ knownActions) :
    Conveys (handleCommandAndRespond t (queryHandlers b) (frameReader id a p)).1 id
        (replyPiece t b (frameReader id a p) a).value ↔
      (∀ s ∈ rawStrings b (frameReader id a p) a, PlainText s) ∧
        ∀ s ∈ escapedStrings t b (frameReader id a p) a, ¬ HasRawControl s :=
  (reply_conveys_clean t b id p ha).trans (replyPiece_clean_iff t b _ a)

end Lines

/-- A terminal of a company, with nothing in it. -/
def brokerOf (company : Text) : Broker where
  symbols := []
  positions := []
  orders := []
  deals := []
  account :=
    { login := 5001, server := "Demo", currency := "USD", name := "Ana", company := company,
      leverage := 100, tradeAllowed := true, balance := 0, equity := 0, margin := 0,
      marginFree := 0, marginLevel := 0, profit := 0 }
  now := 0

/-- A payload without members. -/
def emptyPayload : Payload := ⟨[], Payload.nodup_nil⟩

/-- A company without quotes in its name comes through. -/
theorem plainCompany_conveys :
    Conveys (handleCommandAndRespond (flatTerminal true ⟨10009, 7, []⟩)
        (queryHandlers (brokerOf "Varp Ltd")) (frameReader sampleId .account emptyPayload)).1
      sampleId (replyPiece (flatTerminal true ⟨10009, 7, []⟩) (brokerOf "Varp Ltd")
        (frameReader sampleId .account emptyPayload) .account).value := by
  refine (reply_conveys_iff (flatTerminal true ⟨10009, 7, []⟩) (brokerOf "Varp Ltd") sampleId
    (a := .account) emptyPayload (by decide)).mpr ⟨?_, ?_⟩
  · have hplain : ∀ s ∈ rawStrings (brokerOf "Varp Ltd") (fun _ => []) .account, PlainText s := by
      decide
    exact hplain
  · have hnone : escapedStrings (flatTerminal true ⟨10009, 7, []⟩) (brokerOf "Varp Ltd")
        (frameReader sampleId .account emptyPayload) .account = [] := rfl
    rw [hnone]
    simp

/-- **A quote in the company's name** makes the answer unreadable. -/
theorem quotedCompany_not_conveys :
    ¬ Conveys (handleCommandAndRespond (flatTerminal true ⟨10009, 7, []⟩)
        (queryHandlers (brokerOf "\"Varp\" Ltd")) (frameReader sampleId .account emptyPayload)).1
      sampleId (replyPiece (flatTerminal true ⟨10009, 7, []⟩) (brokerOf "\"Varp\" Ltd")
        (frameReader sampleId .account emptyPayload) .account).value := by
  rw [reply_conveys_clean _ _ _ _ (by decide)]
  intro h
  have hplain := (clean_accountPiece _).mp h "\"Varp\" Ltd" (by decide)
  revert hplain
  decide

end AkronSlot.Bridge
