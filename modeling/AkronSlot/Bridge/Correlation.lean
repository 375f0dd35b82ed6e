import AkronSlot.Bridge.ReplyLines

/-!
# Which command a response answers

`HandleCommandAndRespond` finds the action and the id of a command by searching its
text, and the payload is text that the caller controls.  The two keys stand in front of
the payload, so no payload changes the handler that runs or the id that is printed
(`command_correlated`).

The client reads the id of the **last** member of that name, and the result stands behind
the printed one.  `HandleQuote` even puts a text of the payload into its result as it is.
That text is cut at the first comma and brace, so it can make the line unreadable but not
give it another member; only a string of the terminal that holds quotes can do that.

## Enclosed pieces

A text that stands in a response as a value must not end that value and begin a member of its
own. `Enclosed` says this of a piece of text in the grammar of JSON: however a parser reads it
in the place of a value, what it has read is the whole piece. Every answer of the handlers is
enclosed, by a lemma for each way in which they are put together, with one exception: a string
of the terminal that is put between quotes as it is.

## Main Results

* `enclosed_reply`, `enclosed_quote`
* `readResponse_enclosed`
* `command_correlated`
-/

namespace AkronSlot.Bridge

open Wire Mql5 Slot

/-! ## Answers that end where they end -/

section Enclosed

theorem enclosed_integerPiece (i : ℤ) : (integerPiece i).Enclosed := Piece.enclosed_ofValue _

theorem enclosed_doublePiece (x : ℚ) (digits : ℕ) : (doublePiece x digits).Enclosed :=
  Piece.enclosed_ofValue _

theorem enclosed_boolPiece (b : Bool) : (boolPiece b).Enclosed := Piece.enclosed_ofValue _

theorem enclosed_rawPiece {s : Text} (h : PlainText s) : (rawPiece s).Enclosed := by
  refine Piece.enclosed_str fun {u x r} hbody => ?_
  have hwrite : verbatim.write s = escapeText s := (escapeText_of_plain h).symm
  rw [hwrite, readBody_escapeText] at hbody
  exact (Prod.mk.inj (Option.some.inj hbody)).2.symm

/-- `JsonEscape` leaves nothing that could end a string before its end. -/
theorem enclosed_escapedPiece (s : Text) : (escapedPiece s).Enclosed := by
  refine Piece.enclosed_str fun {u x r} hbody => ?_
  by_cases hraw : HasRawControl s
  · have hnone : readBody none (jsonEscape s ++ '"' :: u) = none :=
      readBody_jsonEscape_rawControl hraw _
    have hbody' : readBody none (jsonEscape s ++ '"' :: u) = some (x, r) := hbody
    rw [hnone] at hbody'
    cases hbody'
  · rw [(escaped_eq_iff s).mpr hraw, readBody_escapeText] at hbody
    exact (Prod.mk.inj (Option.some.inj hbody)).2.symm

theorem enclosed_wordPiece {w : Text} (h : PlainText w) : (wordPiece w).Enclosed :=
  enclosed_rawPiece h

theorem enclosed_integerWord (i : ℤ) : (wordPiece (integerToString i)).Enclosed :=
  enclosed_rawPiece (escapeText_eq_self_iff.mp (escapeText_integerToString i))

theorem enclosed_errorPiece {code : Text} (h : PlainText code) : (errorPiece code).Enclosed :=
  Piece.enclosed_obj (by simpa using enclosed_wordPiece h)

theorem enclosed_symbolRowPiece {sym : Text} {s : SymbolRow}
    (h : ∀ x ∈ [sym, s.description, s.path, s.currencyBase], PlainText x) :
    (symbolRowPiece sym s).Enclosed := by
  simp only [List.forall_mem_cons] at h
  refine Piece.enclosed_obj ?_
  simp only [List.forall_mem_cons, enclosed_integerPiece, enclosed_doublePiece,
    enclosed_boolPiece, enclosed_rawPiece h.1, enclosed_rawPiece h.2.1, enclosed_rawPiece h.2.2.1,
    enclosed_rawPiece h.2.2.2.1, List.not_mem_nil, false_implies, implies_true, and_self]

theorem enclosed_positionPiece (digits : ℕ) {p : PositionRow} (h : PlainText p.symbol) :
    (positionPiece digits p).Enclosed := by
  have hside : (wordPiece (if p.type = .buy then "buy" else "sell")).Enclosed :=
    enclosed_wordPiece (by split <;> decide)
  refine Piece.enclosed_obj ?_
  simp only [List.forall_mem_cons, enclosed_integerPiece, enclosed_doublePiece,
    enclosed_rawPiece h, hside, enclosed_escapedPiece, List.not_mem_nil, false_implies,
    implies_true, and_self]

theorem enclosed_orderPiece {o : Mql5.OrderRow} (h : PlainText o.symbol) :
    (orderPiece o).Enclosed := by
  have htype : (wordPiece (orderTypeText o.type)).Enclosed :=
    enclosed_wordPiece (by unfold orderTypeText; split <;> decide)
  refine Piece.enclosed_obj ?_
  simp only [List.forall_mem_cons, enclosed_integerPiece, enclosed_doublePiece,
    enclosed_rawPiece h, htype, enclosed_escapedPiece, List.not_mem_nil, false_implies,
    implies_true, and_self]

theorem enclosed_dealPiece {d : DealRow} (h : PlainText d.symbol) : (dealPiece d).Enclosed := by
  have hentry : (wordPiece (if d.entry = .inOut then "inout" else "in")).Enclosed :=
    enclosed_wordPiece (by split <;> decide)
  have htype : (wordPiece (dealTypeText d.type)).Enclosed :=
    enclosed_wordPiece (by unfold dealTypeText; split <;> decide)
  refine Piece.enclosed_obj ?_
  simp only [List.forall_mem_cons, enclosed_integerPiece, enclosed_doublePiece,
    enclosed_rawPiece h, hentry, htype, List.not_mem_nil, false_implies, implies_true, and_self]

theorem enclosed_accountPiece {a : AccountInfo}
    (h : ∀ s ∈ [a.server, a.currency, a.name, a.company], PlainText s) :
    (accountPiece a).Enclosed := by
  simp only [List.forall_mem_cons] at h
  refine Piece.enclosed_obj ?_
  simp only [List.forall_mem_cons, enclosed_integerPiece, enclosed_doublePiece,
    enclosed_boolPiece, enclosed_rawPiece h.1, enclosed_rawPiece h.2.1, enclosed_rawPiece h.2.2.1,
    enclosed_rawPiece h.2.2.2.1, List.not_mem_nil, false_implies, implies_true, and_self]

/-- A count and a list. -/
theorem enclosed_countedList (count : ℤ) (key : Text) {ps : List Piece}
    (h : ∀ p ∈ ps, p.Enclosed) :
    (Piece.obj [("count", integerPiece count), (key, .arr ps)]).Enclosed := by
  refine Piece.enclosed_obj ?_
  simp only [List.forall_mem_cons, enclosed_integerPiece, Piece.enclosed_arr h, List.not_mem_nil,
    false_implies, implies_true, and_self]

theorem enclosed_symbolPiece {b : Broker} {field : Reader}
    (h : ∀ s ∈ rawStrings b field .symbol, PlainText s) : (symbolPiece b field).Enclosed := by
  unfold rawStrings at h
  unfold symbolPiece
  dsimp only at h ⊢
  split
  · exact enclosed_errorPiece (by decide)
  · next hsym =>
      split
      · exact enclosed_errorPiece (by decide)
      · next hsome =>
          rw [if_neg (by tauto)] at h
          exact enclosed_symbolRowPiece h

theorem enclosed_submitPiece (t : Terminal) (req : MqlTradeRequest)
    {accepted refused : MqlTradeResult → Piece} (haccepted : ∀ res, (accepted res).Enclosed)
    (hrefused : ∀ res, (refused res).Enclosed) :
    (submitPiece t req accepted refused).Enclosed := by
  unfold submitPiece
  split
  · exact haccepted _
  · exact hrefused _

theorem enclosed_withPositionPiece (t : Terminal) (ticket : ℕ) {act : OpenPosition → Piece}
    (h : ∀ p, (act p).Enclosed) : (withPositionPiece t ticket act).Enclosed := by
  unfold withPositionPiece
  split
  · exact enclosed_errorPiece (by decide)
  · cases t.positionSelectByTicket ticket with
    | none => exact enclosed_errorPiece (by decide)
    | some p => exact h p

theorem enclosed_commentPiece (res : MqlTradeResult) : (commentPiece res).Enclosed :=
  Piece.enclosed_obj (by simpa using enclosed_escapedPiece res.comment)

theorem enclosed_commentRetcodePiece (res : MqlTradeResult) :
    (commentRetcodePiece res).Enclosed := by
  refine Piece.enclosed_obj ?_
  simp only [List.forall_mem_cons, enclosed_integerPiece, enclosed_escapedPiece, List.not_mem_nil,
    false_implies, implies_true, and_self]

theorem enclosed_ticketPiece (key : Text) (ticket : ℕ) : (ticketPiece key ticket).Enclosed :=
  Piece.enclosed_obj (by simpa using enclosed_integerWord _)

/-- **The answers that take over no quote of the terminal are enclosed.** -/
theorem enclosed_reply (t : Terminal) {b : Broker} {field : Reader} {a : Action}
    (hquote : a ≠ .quote) (h : ∀ s ∈ rawStrings b field a, PlainText s) :
    (replyPiece t b field a).Enclosed := by
  cases a with
  | open_ =>
      refine enclosed_submitPiece t _ (fun res => Piece.enclosed_obj ?_)
        enclosed_commentRetcodePiece
      simp only [List.forall_mem_cons, enclosed_integerWord, List.not_mem_nil, false_implies,
        implies_true, and_self]
  | close =>
      exact enclosed_withPositionPiece t _ fun _ =>
        enclosed_submitPiece t _ (fun _ => enclosed_ticketPiece _ _) enclosed_commentPiece
  | cancel =>
      simp only [replyPiece, cancelPiece]
      split
      · exact enclosed_errorPiece (by decide)
      · exact enclosed_submitPiece t _ (fun _ => enclosed_ticketPiece _ _)
          fun _ => enclosed_errorPiece (by decide)
  | sltp =>
      exact enclosed_withPositionPiece t _ fun _ =>
        enclosed_submitPiece t _ (fun _ => enclosed_ticketPiece _ _) enclosed_commentPiece
  | modifyPosition =>
      refine enclosed_withPositionPiece t _ fun _ =>
        enclosed_submitPiece t _ (fun res => Piece.enclosed_obj ?_) enclosed_commentRetcodePiece
      simp only [List.forall_mem_cons, enclosed_integerWord, enclosed_doublePiece,
        List.not_mem_nil, false_implies, implies_true, and_self]
  | symbols =>
      refine enclosed_countedList _ _ ?_
      rw [List.forall_mem_map]
      exact fun name _ => enclosed_escapedPiece name
  | symbol => exact enclosed_symbolPiece h
  | positions =>
      simp only [rawStrings, List.forall_mem_map] at h
      refine enclosed_countedList _ _ ?_
      rw [List.forall_mem_map]
      exact fun p hp => enclosed_positionPiece _ (h p hp)
  | orders =>
      simp only [rawStrings, List.forall_mem_map] at h
      refine enclosed_countedList _ _ ?_
      rw [List.forall_mem_map]
      exact fun o ho => enclosed_orderPiece (h o ho)
  | history =>
      simp only [rawStrings, List.forall_mem_map] at h
      refine enclosed_countedList _ _ ?_
      rw [List.forall_mem_map]
      exact fun d hd => enclosed_dealPiece (h d hd)
  | quote => exact absurd rfl hquote
  | account => exact enclosed_accountPiece h
  | login => exact enclosed_errorPiece (by decide)
  | logout => exact enclosed_errorPiece (by decide)

end Enclosed

/-! ## What a query reads of a payload -/

theorem mem_of_mem_quotedSpan {c : Char} {t : Text} (h : c ∈ quotedSpan t) : c ∈ t := by
  fun_induction quotedSpan t with
  | case1 => exact h
  | case2 t => cases h
  | case3 d t ih =>
      rcases List.mem_cons.mp h with rfl | h
      · simp
      · rcases List.mem_cons.mp h with rfl | h
        · simp
        · simp [ih h]
  | case4 d t hquote hslash ih =>
      rcases List.mem_cons.mp h with rfl | h
      · simp
      · simp [ih h]

theorem mem_of_mem_readValue {c : Char} {t : Text} (h : c ∈ readValue t) : c ∈ t := by
  have hsub := List.dropWhile_sublist (l := t) (fun c => c = ' ' || c = '\t')
  unfold readValue at h
  split at h
  · next u heq =>
      rw [heq] at hsub
      exact hsub.subset (List.mem_cons_of_mem _ (mem_of_mem_quotedSpan h))
  · exact hsub.subset ((List.takeWhile_sublist bare).subset h)

/-- A reading is part of the text that was searched. -/
theorem mem_of_mem_fieldAt {c : Char} {sub key : Text} (h : c ∈ fieldAt sub key) : c ∈ sub := by
  unfold fieldAt at h
  split at h
  · cases h
  · next atKey hkey =>
      split at h
      · cases h
      · next atColon hcolon =>
          have htail := List.tail_suffix atColon
          exact (htail.trans (suffix_of_find hcolon |>.trans (suffix_of_find hkey))).subset
            (mem_of_mem_readValue h)

/-- No key is found in the escape of a text. -/
theorem fieldAt_escapeText {k : Text} (hk : Identifier k) (s : Text) :
    fieldAt (escapeText s) k = [] := by
  have hopen := find_key_open hk s
  have hnone : find (keyLiteral k) (escapeText s) = none := by
    by_cases hstart : keyLiteral k <+: '"' :: escapeText s
    · rw [find_of_start hstart (by simp [keyLiteral])] at hopen
      cases hopen
    · rwa [find_cons_of_no_start hstart] at hopen
  simp [fieldAt, hnone]

/-- Only a string prints with a quote in front. -/
theorem print_head_ne_quote {v : Json} (hv : ∀ s, v ≠ .str s) :
    ∃ c t, Json.print v = c :: t ∧ Json.isBlank c = false ∧ c ≠ '"' := by
  cases v with
  | null => exact ⟨_, _, rfl, by decide, by decide⟩
  | bool b => cases b <;> exact ⟨_, _, rfl, by decide, by decide⟩
  | num n =>
      obtain ⟨c, t, htext, hc⟩ := n.text_head
      refine ⟨c, t, htext, ?_⟩
      have hdigit : ∀ d : Digit, Json.isBlank d.char = false ∧ d.char ≠ '"' := by decide
      rcases hc with rfl | ⟨d, rfl⟩
      · decide
      · exact hdigit d
  | str s => exact absurd rfl (hv s)
  | arr vs => cases vs <;> exact ⟨_, _, rfl, by decide, by decide⟩
  | obj ms => cases ms <;> exact ⟨_, _, rfl, by decide, by decide⟩

/-- **What is read of a payload holds no comma and no brace.** -/
theorem payloadField_bare (id : Uuid) (a : Action) (payload : Json) {k : Text}
    (hk : Identifier k) {c : Char} (hc : bare c = false) :
    c ∉ jsonField (commandFrame id a.name payload) (payloadPath k) := by
  have hpath : (payloadPath k).splitOn '.' = ["payload".toList, k] :=
    splitOn_pair (by decide) (hk.notMem (by simp))
  have hfield : jsonField (commandFrame id a.name payload) (payloadPath k) =
      fieldAt (readValue (Json.print payload ++ ['}'])) k := by
    simp only [jsonField, hpath, List.foldl_cons, List.foldl_nil]
    rw [fieldAt_anyPayload]
  rw [hfield]
  by_cases hstr : ∃ s, payload = .str s
  · -- a string payload is read to its end, and no key is found in it
    obtain ⟨s, rfl⟩ := hstr
    rw [Json.print, readValue_quote, fieldAt_escapeText hk]
    simp
  · intro hmem
    have hread := mem_of_mem_fieldAt hmem
    obtain ⟨d, t, hprint, hblank, hquote⟩ := print_head_ne_quote fun s hs => hstr ⟨s, hs⟩
    simp only [Json.isBlank, Bool.or_eq_false_iff, decide_eq_false_iff_not] at hblank
    rw [readValue, hprint, List.cons_append,
      List.dropWhile_cons_of_neg (by simp [hblank.1.1.1, hblank.1.1.2])] at hread
    split at hread
    · next heq => exact hquote (List.cons.inj heq).1
    · have hbare := List.mem_takeWhile_imp hread
      rw [hc] at hbare
      exact Bool.noConfusion hbare

/-! ## Quotes -/

/-- The answer of `HandleQuote` with the symbol as it is put in. -/
def rawQuotePiece (b : Broker) (field : Reader) : Piece :=
  let sym := querySymbol field
  let s := b.symbolInfo sym
  if sym = [] then errorPiece "missing_symbol"
  else
    .obj [("symbol", rawPiece sym), ("digits", integerPiece (asInt (asUlong s.digits))),
      ("bid", doublePiece s.bid s.digits), ("ask", doublePiece s.ask s.digits),
      ("spread", integerPiece (asInt (asUlong s.spread))),
      ("time", integerPiece (asInt (asUlong b.now))), ("volume", integerPiece s.volume),
      ("high", doublePiece s.ask s.digits), ("low", doublePiece s.bid s.digits)]

theorem handleQuote_rawPiece (b : Broker) (field : Reader) :
    handleQuote b field = (rawQuotePiece b field).text := by
  unfold handleQuote rawQuotePiece
  dsimp only
  split
  · exact errorObject_piece _
  · simp only [intText, integerToString_eq]
    exact objectText_pieces (by simp only [List.map_cons, List.map_nil]; exact plain_quoteKeys) rfl

/-- **A symbol without commas and braces leaves the quote enclosed.** -/
theorem enclosed_quote {b : Broker} {field : Reader} (hcomma : ',' ∉ querySymbol field)
    (hbrace : '}' ∉ querySymbol field) : (rawQuotePiece b field).Enclosed := by
  unfold rawQuotePiece
  dsimp only
  split
  · exact enclosed_errorPiece (by decide)
  · have hplain : Plain 'd' := by decide
    refine Piece.enclosed_verbatim_first (z := "igits") hcomma hbrace hplain (by decide)
      (enclosed_integerPiece _) ?_
    simp only [List.forall_mem_cons, enclosed_integerPiece, enclosed_doublePiece,
      List.not_mem_nil, false_implies, implies_true, and_self]

/-! ## The command that a response answers -/

/-- **A response frame around an enclosed result is read under the id that is printed.** -/
theorem readResponse_enclosed {id : Uuid} {result : Piece} (h : result.Enclosed) {i : Text}
    {r : ResponseFrame} (hread : readResponse (rawFrame id result.text) = some (i, r)) :
    i = id.text := by
  have hskip (k t : Text) : Json.skipBlanks (quote k ++ t) = quote k ++ t := by
    rw [quote_append, Json.skipBlanks_cons (by decide)]
  unfold readResponse at hread
  split at hread
  · cases hread
  · next v hparse =>
      obtain ⟨rest, hreads, -⟩ := Json.parse_eq_some_iff.mp hparse
      rcases Json.reads_brace hreads with hclose | ⟨ms, rfl, hmembers⟩
      · rw [hskip] at hclose
        cases hclose
      · rw [hskip] at hmembers
        obtain ⟨ms₁, rfl, h₁⟩ := Json.ReadsMembers.print_member (v := .str "response") hmembers
        obtain ⟨ms₂, rfl, h₂⟩ := Json.ReadsMembers.print_member (v := .str id.text) h₁
        obtain ⟨ms₃, rfl, h₃⟩ := Json.ReadsMembers.print_member (v := .bool true) h₂
        -- nothing follows the result
        have hlast : ∃ w, ms₃ = [("result".toList, w)] := by
          cases h₃ with
          | last hkey hvalue hclose =>
              obtain ⟨rfl, rfl⟩ := Json.readsKey_quote hkey
              exact ⟨_, rfl⟩
          | cons hkey hvalue hcomma hrest =>
              obtain ⟨rfl, rfl⟩ := Json.readsKey_quote hkey
              obtain rfl := h _ _ _ ⟨_, _, rfl, .inr (.inr rfl)⟩ hvalue
              cases hcomma
        obtain ⟨w, rfl⟩ := hlast
        exact (congrArg Prod.fst (Option.some.inj hread)).symm

section Commands

variable (t : Terminal) (b : Broker) (id : Uuid) {a : Action} (payload : Json)

/-- What the symbol of a query reads of a payload holds no comma and no brace. -/
theorem querySymbol_bare (a : Action) {c : Char} (hc : bare c = false) :
    c ∉ querySymbol (jsonField (commandFrame id a.name payload)) := by
  have hread : ∀ k : Text, Identifier k →
      c ∉ jsonField (commandFrame id a.name payload) (payloadPath k) :=
    fun k hk => payloadField_bare id a payload hk hc
  unfold querySymbol
  split
  · exact hread "instrument" (by decide)
  · exact hread "symbol" (by decide)

/-- The handler of a command writes a piece, enclosed if the strings that it takes over
from the terminal are plain. -/
theorem handled_enclosed (ha : a.name ∈ knownActions) :
    ∃ h result, handle t (queryHandlers b) (jsonField (commandFrame id a.name payload)) a.name =
        some h ∧ h.result = Piece.text result ∧
      ((∀ s ∈ rawStrings b (jsonField (commandFrame id a.name payload)) a, PlainText s) →
        result.Enclosed) := by
  by_cases hquote : a = .quote
  · subst hquote
    refine ⟨_, _, rfl, handleQuote_rawPiece b _, fun _ => ?_⟩
    exact enclosed_quote (querySymbol_bare id payload .quote (by decide))
      (querySymbol_bare id payload .quote (by decide))
  · obtain ⟨h, hhandle, hresult⟩ := handle_piece t b (jsonField (commandFrame id a.name payload))
      ha fun hq => absurd hq hquote
    exact ⟨h, _, hhandle, hresult, fun hplain => enclosed_reply t hquote hplain⟩

/-- **The payload has no say in which handler runs and which command is answered**: the
handler is that of the action, the line carries the id of the command, and the client reads
it under this id unless a string of the terminal that is put in as it is holds quotes,
backslashes or control characters. -/
theorem command_correlated (ha : a.name ∈ knownActions) :
    jsonField (commandFrame id a.name payload) "id" = id.text ∧
      jsonField (commandFrame id a.name payload) "action" = a.name ∧
      ∃ h, handle t (queryHandlers b) (jsonField (commandFrame id a.name payload)) a.name =
          some h ∧
        handleCommandAndRespond t (queryHandlers b) (jsonField (commandFrame id a.name payload)) =
          (rawFrame id h.result ++ ['\n'], h.submitted) ∧
        ((∀ s ∈ rawStrings b (jsonField (commandFrame id a.name payload)) a, PlainText s) →
          ∀ i r, readResponse (rawFrame id h.result) = some (i, r) → i = id.text) := by
  have hid := jsonField_id id payload a.name
  have haction := jsonField_action id payload (Action.name_identifier a).1.plain
  obtain ⟨h, result, hhandle, hresult, henclosed⟩ := handled_enclosed t b id payload ha
  refine ⟨hid, haction, h, hhandle, ?_, fun hplain i r hread => ?_⟩
  · simp only [handleCommandAndRespond, haction, hid, hhandle, responseLine_raw, Option.bind_some]
  · rw [hresult] at hread
    exact readResponse_enclosed (henclosed hplain) hread

end Commands

/-- A payload that imitates the members of a frame. -/
def forgedPayload : Json :=
  .obj [("\"id\":\"x\",\"action\":\"open\"", .obj [("id", .str "x"), ("action", .str "open")])]

/-- It is a quote that is answered, under the id of the command: the handler of `quote` runs,
one line with this id is sent, and the client finds the command by it. -/
theorem forgedPayload_correlated :
    jsonField (commandFrame sampleId "quote" forgedPayload) "id" = sampleId.text ∧
      jsonField (commandFrame sampleId "quote" forgedPayload) "action" = "quote".toList ∧
      ∃ h, handle (flatTerminal true ⟨10009, 7, []⟩) (queryHandlers (brokerOf "Varp Ltd"))
          (jsonField (commandFrame sampleId "quote" forgedPayload)) "quote" = some h ∧
        handleCommandAndRespond (flatTerminal true ⟨10009, 7, []⟩)
            (queryHandlers (brokerOf "Varp Ltd"))
            (jsonField (commandFrame sampleId "quote" forgedPayload)) =
          (rawFrame sampleId h.result ++ ['\n'], h.submitted) ∧
        ∀ i r, readResponse (rawFrame sampleId h.result) = some (i, r) → i = sampleId.text := by
  obtain ⟨hid, haction, h, hhandle, hresponse, hread⟩ :=
    command_correlated (flatTerminal true ⟨10009, 7, []⟩) (brokerOf "Varp Ltd") sampleId
      (a := .quote) forgedPayload (by decide)
  -- a quote takes over no string of the terminal
  have hplain : ∀ s ∈ rawStrings (brokerOf "Varp Ltd")
      (jsonField (commandFrame sampleId "quote" forgedPayload)) .quote, PlainText s :=
    List.forall_mem_nil _
  exact ⟨hid, haction, h, hhandle, hresponse, hread hplain⟩

end AkronSlot.Bridge
