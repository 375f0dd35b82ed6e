import AkronSlot.Bridge.CommandFrame
import AkronSlot.Mql5.Trade
import AkronSlot.Slot.Mt5Connector

/-!
# What a trade call reports

A trade call travels from the connector to a handler of SlotService and back:
the handler's result is printed into a response line, the command client parses
the line and settles the command, and the connector reads the result.

`responseLine` says `ok: true` for every known action, whatever the handler
answered, and the connector takes an `{"error": ...}` result for a success.  A
refused request is therefore reported as a failure only when its reply is lost:
`JsonEscape` leaves most control characters as they are, and a line with one of
them is no JSON.

## Three outcomes of a reply

A handler answers with a text. Either it is the print of an object, and then the connector reads
it; or it is one line that is no JSON, and then the command stays open until its timer; or the
action is unknown and no handler runs. `Reply` says which of them it is, by the comment of the
broker alone, for each handler once. What the connector makes of each outcome does not depend on
the handler any more.

## Main Definitions

* `answer` — the settled command over the line of `handleCommandAndRespond`
* `AcceptedRequest`, `GarbledRefusal` — the outcomes that are reported right
* `Reply` — what a handler's text is

## Main Results

* `answer_unknown`, `answer_printed`, `answer_garbled`
* `tradeCall_reports_iff`
-/

namespace AkronSlot.Bridge

open Wire Mql5 Slot

/-! ## Result texts -/

/-- A result text is the print of an object without boolean members. -/
def Printed (text : Text) : Prop :=
  ∃ ms : List (Text × Json), text = Json.print (.obj ms) ∧ ∀ m ∈ ms, ∀ b, m.2 ≠ .bool b

/-- A result text is one line that starts no JSON value. Whatever stands around it in the frame,
the line is dropped by the client. -/
def Malformed (text : Text) : Prop :=
  '\n' ∉ text ∧ ∀ u : Text, Json.RejectsValue (text ++ u)

/-- A text has a control character that `JsonEscape` leaves as it is. A line with one is refused
by `JSON.parse` as a whole. -/
def HasRawControl (s : Text) : Prop := ∃ c ∈ s, RawControl c

instance decidableHasRawControl (s : Text) : Decidable (HasRawControl s) :=
  decidable_of_iff (s.any (fun c => decide (RawControl c)) = true) (by simp [HasRawControl])

/-- An error text is malformed exactly by raw control characters in the
comment. -/
structure ErrorText (refused : MqlTradeResult → Text) : Prop where
  printed : ∀ res, ¬ HasRawControl res.comment → Printed (refused res)
  malformed : ∀ res, HasRawControl res.comment → Malformed (refused res)

theorem newline_notMem_jsonEscape (s : Text) : '\n' ∉ jsonEscape s := by
  induction s with
  | nil => simp
  | cons c s ih =>
      have happ : jsonEscape (c :: s) = jsonEscape [c] ++ jsonEscape s := jsonEscape_append [c] s
      rw [happ, List.mem_append, not_or]
      refine ⟨?_, ih⟩
      by_cases hc : RawControl c
      · rw [jsonEscape_rawControl hc, List.mem_singleton]
        exact fun h => hc.2.1 h.symm
      · rw [jsonEscape_singleton hc]
        have hone := Json.newline_notMem_escapeText [c]
        simpa [escapeText] using hone

/-- The start of every error text with a comment. -/
theorem malformed_error {comment : Text} (h : HasRawControl comment) {rest : Text}
    (hrest : '\n' ∉ rest) :
    Malformed ("\x7b\"error\":\"".toList ++ jsonEscape comment ++ rest) := by
  refine ⟨?_, fun u => ?_⟩
  · simp [newline_notMem_jsonEscape, hrest]
  · have hbody := readBody_jsonEscape_rawControl h (rest ++ u)
    have hmember := (Json.rejectsValue_quote hbody).member "error"
    have htext : "\x7b\"error\":\"".toList ++ jsonEscape comment ++ rest ++ u =
        '{' :: (quote "error" ++ ':' :: '"' :: (jsonEscape comment ++ (rest ++ u))) := by
      simp [quote, escapeText, escapeChar]
    rw [htext]
    exact hmember.object

theorem commentError_text : ErrorText commentError where
  printed res h := by
    have hescape := jsonEscape_eq_escapeText (s := res.comment) (by simpa [HasRawControl] using h)
    refine ⟨[("error", .str res.comment)], ?_, by simp⟩
    delta commentError
    simp only [hescape, Json.print, Json.printMembers, quote_append, List.append_assoc]
    rfl
  malformed res h := by
    delta commentError
    exact malformed_error h (by decide)

theorem commentRetcodeError_text : ErrorText commentRetcodeError where
  printed res h := by
    have hescape := jsonEscape_eq_escapeText (s := res.comment) (by simpa [HasRawControl] using h)
    refine ⟨[("error", .str res.comment), ("retcode", .num (Numeral.ofNat res.retcode))], ?_,
      by simp⟩
    delta commentRetcodeError
    simp only [hescape, integerToString_natCast, Json.print, Json.printMembers, quote_append,
      List.append_assoc, Numeral.text_ofNat]
    rfl
  malformed res h := by
    have hretcode := integerToString_notMem (c := '\n') (by decide) (by decide) res.retcode
    have hrest :
        '\n' ∉ "\",\"retcode\":".toList ++ integerToString res.retcode ++ "\x7d".toList := by
      simp [hretcode]
    have hmalformed := malformed_error h hrest
    delta commentRetcodeError
    simp only [List.append_assoc] at hmalformed ⊢
    exact hmalformed

/-! ## What the handlers answer -/

/-- A refused open, close or modify request whose comment is printed raw. Its line is no JSON, so
the client never sees it and the command runs into its timer. -/
def GarbledRefusal (t : Terminal) (submitted : Option MqlTradeRequest) : Prop :=
  ∃ req, submitted = some req ∧ req.action ≠ .remove ∧ ¬ t.Accepts req ∧
    HasRawControl (t.orderSend req).2.comment

/-- The broker accepted the request that was submitted. This is the broker's decision, as opposed
to what is reported of it. -/
def AcceptedRequest (t : Terminal) (submitted : Option MqlTradeRequest) : Prop :=
  ∃ req, submitted = some req ∧ t.Accepts req

/-- The result text of a handler, printed well unless the refusal is garbled. There is no third
way, which is what makes the theorem below exact. -/
structure Reply (t : Terminal) (h : Handled) : Prop where
  printed : ¬ GarbledRefusal t h.submitted → Printed h.result
  malformed : GarbledRefusal t h.submitted → Malformed h.result

theorem reply_early (t : Terminal) {text : Text} (h : Printed text) : Reply t (.early text) where
  printed _ := h
  malformed hgarbled := by
    obtain ⟨req, hreq, -⟩ := hgarbled
    cases hreq

section Submit

variable (t : Terminal) {req : MqlTradeRequest} {accepted refused : MqlTradeResult → Text}

/-- A handler that prints the broker's comment. -/
theorem reply_submit (haction : req.action ≠ .remove) (haccepted : ∀ res, Printed (accepted res))
    (hrefused : ErrorText refused) : Reply t (t.submit req accepted refused) where
  printed h := by
    unfold Terminal.submit
    split
    · exact haccepted _
    · next hno => exact hrefused.printed _ fun hraw => h ⟨req, rfl, haction, hno, hraw⟩
  malformed h := by
    obtain ⟨_, ⟨⟩, -, hno, hraw⟩ := h
    unfold Terminal.submit
    rw [if_neg hno]
    exact hrefused.malformed _ hraw

/-- A handler that prints no comment. -/
theorem reply_submit_remove (haction : req.action = .remove)
    (haccepted : ∀ res, Printed (accepted res)) (hrefused : ∀ res, Printed (refused res)) :
    Reply t (t.submit req accepted refused) where
  printed _ := by
    unfold Terminal.submit
    split
    · exact haccepted _
    · exact hrefused _
  malformed h := by
    obtain ⟨_, ⟨⟩, hremove, -⟩ := h
    exact absurd haction hremove

end Submit

/-- The text of an integer needs no escapes. -/
theorem escapeText_integerToString (i : ℤ) :
    escapeText (integerToString i) = integerToString i := by
  refine escapeText_of_plain fun c hc => ⟨?_, ?_, ?_⟩
  · rintro rfl
    exact integerToString_notMem (by decide) (by decide) i hc
  · rintro rfl
    exact integerToString_notMem (by decide) (by decide) i hc
  · by_contra hlow
    have hcontrol : ∀ n < 0x20, digitOf? (Char.ofNat n) = none ∧ Char.ofNat n ≠ '-' := by decide
    have hno := hcontrol c.toNat (by omega)
    rw [Char.ofNat_toNat] at hno
    exact integerToString_notMem hno.1 hno.2 i hc

/-- A result that names a ticket under one key. -/
theorem printed_ticket (key : Text) (i : ℤ) :
    Printed ('{' :: (quote key ++ ':' :: '"' :: (integerToString i ++ "\"\x7d".toList))) := by
  refine ⟨[(key, .str (integerToString i))], ?_, by simp⟩
  simp only [Json.print, Json.printMembers, quote_append, escapeText_integerToString]
  rfl

theorem printed_missingTicket : Printed missingTicket :=
  ⟨[("error", .str "missing_ticket")], by decide, by simp⟩

theorem printed_positionNotFound : Printed positionNotFound :=
  ⟨[("error", .str "position_not_found")], by decide, by simp⟩

theorem reply_withPosition (t : Terminal) (ticket : ℕ) {act : OpenPosition → Handled}
    (h : ∀ p, Reply t (act p)) : Reply t (t.withPosition ticket act) := by
  unfold Terminal.withPosition
  split
  · exact reply_early t printed_missingTicket
  · split
    · exact reply_early t printed_positionNotFound
    · exact h _

theorem handleOpen_reply (t : Terminal) (field : Reader) : Reply t (handleOpen t field) := by
  refine reply_submit t (by simp) (fun res => ?_) commentRetcodeError_text
  refine ⟨[("order_id", .str (integerToString (asLong res.order))),
    ("broker_order_id", .str (integerToString (asLong res.order)))], ?_, by simp⟩
  simp only [Json.print, Json.printMembers, quote_append, escapeText_integerToString,
    List.append_assoc]
  rfl

theorem handleClose_reply (t : Terminal) (field : Reader) : Reply t (handleClose t field) :=
  reply_withPosition t _ fun _ =>
    reply_submit t (by simp) (fun _ => printed_ticket "closed_ticket" _)
      commentError_text

theorem handleCancel_reply (t : Terminal) (field : Reader) : Reply t (handleCancel t field) := by
  unfold handleCancel
  by_cases hticket : ticketField field "payload.order_id" = 0
  · simp only [hticket, if_true]
    exact reply_early t printed_missingTicket
  · simp only [hticket, if_false]
    exact reply_submit_remove t rfl (fun _ => printed_ticket "canceled" _)
      fun _ => ⟨[("error", .str "cancel_failed")], by decide, by simp⟩

theorem handleSltp_reply (t : Terminal) (field : Reader) : Reply t (handleSltp t field) :=
  reply_withPosition t _ fun _ =>
    reply_submit t (by simp) (fun _ => printed_ticket "modified" _) commentError_text

theorem handleModifyPosition_reply (t : Terminal) (field : Reader) :
    Reply t (handleModifyPosition t field) := by
  refine reply_withPosition t _ fun _ =>
    reply_submit t (by simp) (fun _ => ?_) commentRetcodeError_text
  refine ⟨[("modified", .str (integerToString (asLong (positionTicket field)))),
    ("sl", .num (Numeral.fixed 5 (stringToDouble (field "payload.sl")))),
    ("tp", .num (Numeral.fixed 5 (stringToDouble (field "payload.tp"))))], ?_, by simp⟩
  simp only [Json.print, Json.printMembers, quote_append, escapeText_integerToString,
    List.append_assoc]
  rfl

/-! ## The response line and the settled command -/

/-- The response frame of a known or an unknown action. -/
def responseFrame (id : Uuid) (known : Bool) (result : Json) : Json :=
  .obj [("type", .str "response"), ("id", .str id.text), ("ok", .bool known), ("result", result)]

/-- A line with a printed result is the print of a response frame. -/
theorem responseLine_printed (id : Uuid) (handled : Option Handled) {result : Json}
    (h : (handled.map (·.result)).getD unknownAction = Json.print result) :
    responseLine id.text handled =
      Json.print (responseFrame id handled.isSome result) ++ ['\n'] := by
  have hid := escapeText_of_plain (Uuid.plain id)
  delta responseLine
  rw [h]
  cases handled <;>
  · simp only [responseFrame, Json.print, Json.printMembers, quote_append, hid,
      List.append_assoc, List.cons_append, List.nil_append]
    rfl

/-- The command client reads back what a response frame says. -/
theorem readResponse_responseFrame (id : Uuid) (known : Bool) (result : Json) :
    readResponse (Json.print (responseFrame id known result)) =
      some (id.text, ⟨known, some result, none⟩) := by
  simp only [readResponse, Json.parse_print]
  cases known <;> rfl

/-- The command client settles the command with a response frame of its id. -/
theorem dispatch_responseFrame (id : Uuid) (known : Bool) (result : Json) :
    dispatch id (completeLines (Json.print (responseFrame id known result) ++ ['\n'])) =
      settle ⟨known, some result, none⟩ := by
  rw [completeLines_line (Json.newline_notMem_print _)]
  simp [dispatch, readResponse_responseFrame]

/-- The frame of a known action around a result text. -/
def rawFrame (id : Uuid) (result : Text) : Text :=
  '{' :: (quote "type" ++ ':' :: (quote "response" ++ ',' :: (quote "id" ++ ':' ::
    (quote id.text ++ ',' :: (quote "ok" ++ ':' :: ("true".toList ++ ',' ::
      (quote "result" ++ ':' :: (result ++ ['}']))))))))

theorem responseLine_raw (id : Uuid) (h : Handled) :
    responseLine id.text (some h) = rawFrame id h.result ++ ['\n'] := by
  have hid := escapeText_of_plain (Uuid.plain id)
  delta responseLine rawFrame
  simp only [quote_append, hid, List.append_assoc, List.cons_append, List.nil_append]
  rfl

theorem newline_notMem_rawFrame (id : Uuid) {result : Text} (h : '\n' ∉ result) :
    '\n' ∉ rawFrame id result := by
  have htrue : '\n' ∉ "true".toList := by decide
  simp only [rawFrame, List.mem_cons, List.mem_append, not_or, Json.newline_notMem_quote, h, htrue]
  decide

/-- A line that is no JSON is dropped, and the command times out. -/
theorem dispatch_malformed (id : Uuid) {h : Handled} (hresult : Malformed h.result) :
    dispatch id (completeLines (responseLine id.text (some h))) = .error "mt5_cmd_timeout" := by
  have hreject := ((((hresult.2 ['}']).member "result").true_member "ok").str_member "id"
    id.text).str_member "type" "response"
  have hparse : Json.parse (rawFrame id h.result) = none := hreject.object.parse_eq_none
  have hread : readResponse (rawFrame id h.result) = none := by simp only [readResponse, hparse]
  rw [responseLine_raw, completeLines_line (newline_notMem_rawFrame id hresult.1)]
  simp [dispatch, hread]

section Answer

variable (t : Terminal) (queries : QueryHandlers) (id : Uuid) {field : Reader}

/-- What the connector's `dispatchCommand` answers when SlotService reads the command through
`field`. A line that is dropped leaves the command to its timer. -/
def answer (field : Reader) : CommandResult :=
  dispatchCommand (dispatch id (completeLines (handleCommandAndRespond t queries field).1))

theorem answer_unknown (hid : field "id" = id.text)
    (h : handle t queries field (field "action") = none) :
    answer t queries id field = ⟨false, none, some "mt5_cmd_failed"⟩ := by
  have hunknown : unknownAction = Json.print (.obj [("error", .str "unknown_action")]) := by decide
  have hline := responseLine_printed id none hunknown
  simp only [answer, handleCommandAndRespond, h, hid, hline, dispatch_responseFrame]
  rfl

theorem answer_printed {h : Handled} {ms : List (Text × Json)} (hid : field "id" = id.text)
    (hhandle : handle t queries field (field "action") = some h)
    (hresult : h.result = Json.print (.obj ms)) :
    answer t queries id field = ⟨true, some (.obj ms), none⟩ := by
  have hline := responseLine_printed id (some h) hresult
  simp only [answer, handleCommandAndRespond, hhandle, hid, hline, dispatch_responseFrame]
  rfl

theorem answer_garbled {h : Handled} (hid : field "id" = id.text)
    (hhandle : handle t queries field (field "action") = some h) (hresult : Malformed h.result) :
    answer t queries id field = ⟨false, none, some "mt5_cmd_timeout"⟩ := by
  simp only [answer, handleCommandAndRespond, hhandle, hid, dispatch_malformed id hresult]
  rfl

end Answer

/-! ## The trade calls -/

/-- SlotService knows the action of every trade call. -/
theorem TradeCall.action_known (call : TradeCall) : call.action.name ∈ knownActions := by
  cases call <;> simp only [TradeCall.action] <;> decide

/-- Every trade call has a handler. -/
theorem handle_call (t : Terminal) (queries : QueryHandlers) (field : Reader) (call : TradeCall) :
    ∃ h, handle t queries field call.action.name = some h ∧ Reply t h := by
  cases call with
  | openTrade order => exact ⟨_, rfl, handleOpen_reply t field⟩
  | closeTrade positionId qty => exact ⟨_, rfl, handleClose_reply t field⟩
  | modifyOrder orderId sl tp => exact ⟨_, rfl, handleSltp_reply t field⟩
  | modifyPosition positionId sl tp => exact ⟨_, rfl, handleModifyPosition_reply t field⟩
  | cancelOrder orderId => exact ⟨_, rfl, handleCancel_reply t field⟩

section Calls

variable (d : DispatchCommand) (rec : AccountRecord) (call : TradeCall)

/-- A command that failed makes the call fail. -/
theorem reportsOk_failed (clientOrderId : Uuid) {message : Text}
    (h : d call.action (call.payload rec) = ⟨false, none, some message⟩) :
    call.reportsOk d (some rec) clientOrderId = false := by
  cases call <;>
  · simp only [TradeCall.action, TradeCall.payload] at h
    simp [TradeCall.reportsOk, openTrade, openResult, closeTrade, modifyOrder, modifyPosition,
      cancelOrder, mt5Query, unlessFalse, OrderResult.ok, h]

theorem notFalse_get {ms : List (Text × Json)} (h : ∀ m ∈ ms, ∀ b, m.2 ≠ .bool b) (key : Text) :
    notFalse ((Json.obj ms).get key) = true := by
  have hlookup : ∀ v, Json.lookup key ms = some v → ∃ m ∈ ms, m.2 = v := by
    clear h
    intro v hv
    induction ms with
    | nil => simp [Json.lookup] at hv
    | cons m ms ih =>
        obtain ⟨k, w⟩ := m
        rw [Json.lookup] at hv
        split at hv
        · next u hu =>
            obtain ⟨m, hm, hmv⟩ := ih (hu.trans hv)
            exact ⟨m, by simp [hm], hmv⟩
        · split at hv
          · exact ⟨(k, w), by simp, Option.some.inj hv⟩
          · cases hv
  unfold notFalse
  split
  · next heq =>
      obtain ⟨m, hm, hmv⟩ := hlookup _ heq
      exact absurd hmv (h m hm false)
  · rfl

/-- A command that was answered with an object without booleans, an error object
included, makes the call succeed. -/
theorem reportsOk_answered (clientOrderId : Uuid) {ms : List (Text × Json)}
    (hms : ∀ m ∈ ms, ∀ b, m.2 ≠ .bool b)
    (h : d call.action (call.payload rec) = ⟨true, some (.obj ms), none⟩) :
    call.reportsOk d (some rec) clientOrderId = true := by
  cases call <;>
  · simp only [TradeCall.action, TradeCall.payload] at h
    simp [TradeCall.reportsOk, openTrade, openResult, closeTrade, modifyOrder, modifyPosition,
      cancelOrder, mt5Query, unlessFalse, parseResultJson, notFalse_get hms, OrderResult.ok, h]

end Calls

section Reports

variable (t : Terminal) (queries : QueryHandlers) (read : Action → Payload → Reader)
variable (id clientOrderId : Uuid) (rec : AccountRecord) (call : TradeCall)

/-- The trade request that the handler of a call submits. It is looked up by the action that the
reader finds, as the branches of `HandleCommandAndRespond` are. -/
def submittedBy (t : Terminal) (queries : QueryHandlers) (field : Reader) :
    Option MqlTradeRequest :=
  (handleCommandAndRespond t queries field).2

/-- **A call is reported as a success whenever its action is known and its reply
is not garbled**, whatever the broker answered. -/
theorem reportsOk_iff
    (hid : read call.action (call.payload rec) "id" = id.text)
    (haction : read call.action (call.payload rec) "action" = call.action.name ∨
      read call.action (call.payload rec) "action" ∉ knownActions) :
    call.reportsOk (fun a p => answer t queries id (read a p)) (some rec) clientOrderId = true ↔
      read call.action (call.payload rec) "action" ∈ knownActions ∧
        ¬ GarbledRefusal t (submittedBy t queries (read call.action (call.payload rec))) := by
  set field := read call.action (call.payload rec) with hfield
  set d : DispatchCommand := fun a p => answer t queries id (read a p) with hd
  have hcall : d call.action (call.payload rec) = answer t queries id field := rfl
  by_cases hknown : field "action" ∈ knownActions
  · obtain ⟨h, hhandle, hreply⟩ := handle_call t queries field call
    rw [← haction.resolve_right (not_not.mpr hknown)] at hhandle
    have hsubmitted : submittedBy t queries field = h.submitted := by
      simp only [submittedBy, handleCommandAndRespond, hhandle, Option.bind_some]
    rw [hsubmitted]
    by_cases hgarbled : GarbledRefusal t h.submitted
    · have hanswer := answer_garbled t queries id hid hhandle (hreply.malformed hgarbled)
      have hok := reportsOk_failed d rec call clientOrderId (hcall.trans hanswer)
      simp only [hok, hgarbled, not_true, and_false, Bool.false_eq_true]
    · obtain ⟨ms, htext, hms⟩ := hreply.printed hgarbled
      have hanswer := answer_printed t queries id hid hhandle htext
      have hok := reportsOk_answered d rec call clientOrderId hms (hcall.trans hanswer)
      simp only [hok, hgarbled, hknown, not_false_iff, and_self]
  · have hanswer := answer_unknown t queries id hid
      ((handle_eq_none_iff t queries field _).mpr hknown)
    have hok := reportsOk_failed d rec call clientOrderId (hcall.trans hanswer)
    simp only [hok, hknown, false_and, Bool.false_eq_true]

/-- Only a known action submits a request. -/
theorem AcceptedRequest.known {field : Reader}
    (h : AcceptedRequest t (submittedBy t queries field)) : field "action" ∈ knownActions := by
  obtain ⟨req, hreq, -⟩ := h
  by_contra hunknown
  have hnone := (handle_eq_none_iff t queries field _).mpr hunknown
  simp only [submittedBy, handleCommandAndRespond, hnone, Option.bind_none] at hreq
  cases hreq

theorem AcceptedRequest.not_garbled {submitted : Option MqlTradeRequest}
    (h : AcceptedRequest t submitted) : ¬ GarbledRefusal t submitted := by
  rintro ⟨req, hreq, -, hno, -⟩
  obtain ⟨req', hreq', hyes⟩ := h
  rw [hreq, Option.some.injEq] at hreq'
  exact hno (hreq' ▸ hyes)

/-- **A trade call reports the broker's decision exactly when** SlotService does
not know the action, the broker accepted the request, or the reply of the
refusal is garbled. -/
theorem tradeCall_reports_iff
    (hid : read call.action (call.payload rec) "id" = id.text)
    (haction : read call.action (call.payload rec) "action" = call.action.name ∨
      read call.action (call.payload rec) "action" ∉ knownActions) :
    (call.reportsOk (fun a p => answer t queries id (read a p)) (some rec) clientOrderId = true ↔
        AcceptedRequest t (submittedBy t queries (read call.action (call.payload rec)))) ↔
      read call.action (call.payload rec) "action" ∉ knownActions ∨
        AcceptedRequest t (submittedBy t queries (read call.action (call.payload rec))) ∨
        GarbledRefusal t (submittedBy t queries (read call.action (call.payload rec))) := by
  have hok := reportsOk_iff t queries read id clientOrderId rec call hid haction
  have hknown : AcceptedRequest t (submittedBy t queries (read call.action (call.payload rec))) →
      _ := AcceptedRequest.known t queries
  have hclean : AcceptedRequest t (submittedBy t queries (read call.action (call.payload rec))) →
      _ := AcceptedRequest.not_garbled t
  tauto

end Reports

/-! ## An order that is refused -/

/-- `JsonField` on the frame of a command. Everything the handlers know of a command they read
through it. -/
def frameReader (id : Uuid) (a : Action) (p : Payload) : Reader :=
  jsonField (commandFrame id a.name p.toJson)

theorem frameReader_id (id : Uuid) (a : Action) (p : Payload) :
    frameReader id a p "id" = id.text := jsonField_id id _ _

theorem frameReader_action (id : Uuid) (a : Action) (p : Payload) :
    frameReader id a p "action" = a.name :=
  jsonField_action id _ (Action.name_identifier a).1.plain

/-- A terminal without positions that gives every request the same answer. -/
def flatTerminal (accepts : Bool) (res : MqlTradeResult) : Terminal where
  positions := []
  nodup_tickets := by simp
  ticket_pos := Terminal.no_ticket_pos
  ticket_lt := Terminal.no_ticket_lt
  orderSend _ := (accepts, res)

/-- Query handlers that answer nothing. -/
def noQueries : QueryHandlers where
  symbols _ := "{}"
  symbol _ := "{}"
  positions _ := "{}"
  orders _ := "{}"
  history _ := "{}"
  quote _ := "{}"
  account _ := "{}"

def sampleCall : TradeCall :=
  .openTrade
    { instrument := "EURUSD"
      side := .buy
      qty := JsNumber.ofNat 2 JsNumber.two_short
      type := .market }

/-- An accepted order is reported as accepted. -/
theorem tradeCall_reports_accepted :
    sampleCall.reportsOk (fun a p => answer (flatTerminal true ⟨10009, 7, []⟩) noQueries sampleId
        (frameReader sampleId a p)) (some sampleRecord) sampleId = true ↔
      AcceptedRequest (flatTerminal true ⟨10009, 7, []⟩)
        (submittedBy (flatTerminal true ⟨10009, 7, []⟩) noQueries
          (frameReader sampleId sampleCall.action (sampleCall.payload sampleRecord))) := by
  refine (tradeCall_reports_iff (flatTerminal true ⟨10009, 7, []⟩) noQueries
    (frameReader sampleId) sampleId sampleId sampleRecord sampleCall (frameReader_id _ _ _)
    (.inl (frameReader_action _ _ _))).mpr (.inr (.inl ?_))
  simp only [submittedBy, handleCommandAndRespond, frameReader_action]
  exact ⟨_, rfl, rfl⟩

/-- An order refused for lack of money is reported as placed. -/
theorem refused_order_reported_ok :
    sampleCall.reportsOk (fun a p => answer (flatTerminal false ⟨10019, 0, "No money"⟩) noQueries
        sampleId (frameReader sampleId a p)) (some sampleRecord) sampleId = true ∧
      ¬ AcceptedRequest (flatTerminal false ⟨10019, 0, "No money"⟩)
        (submittedBy (flatTerminal false ⟨10019, 0, "No money"⟩) noQueries
          (frameReader sampleId sampleCall.action (sampleCall.payload sampleRecord))) := by
  have hplain : ¬ HasRawControl "No money" := by decide
  constructor
  · refine (reportsOk_iff (flatTerminal false ⟨10019, 0, "No money"⟩) noQueries
      (frameReader sampleId) sampleId sampleId sampleRecord sampleCall (frameReader_id _ _ _)
      (.inl (frameReader_action _ _ _))).mpr ⟨?_, ?_⟩
    · rw [frameReader_action]
      decide
    · rintro ⟨req, -, -, -, hraw⟩
      exact hplain hraw
  · rintro ⟨req, -, haccepts⟩
    exact Bool.noConfusion haccepts

end AkronSlot.Bridge
