import AkronSlot.Bridge.PayloadFields
import AkronSlot.Bridge.QueryReplies
import AkronSlot.Wire.JsonPieces

/-!
# The answers of SlotService, piece by piece

Every answer is put together from keys, numbers and strings between quotes.  Here it
is a `Piece`: the text that the handler writes, with the value that is meant by it,
in which the strings are those of the terminal.

## One handler, one piece

The handlers stand twice: in `Mql5`, as functions to texts, and here as functions to pieces.
`handle_piece` says that the second write what the first do, handler by handler. With pieces the
questions about answers are questions about pieces in general (`Wire.JsonPieces`): when an
object of pieces prints its value, when it is enclosed. What is special to SlotService is which
strings an answer takes over, and `rawStrings` and `escapedStrings` list them.

## Main Definitions

* `escaped` — `JsonEscape` as a writer
* `replyPiece` — the answer to an action
* `rawStrings`, `escapedStrings` — what an answer takes over from the terminal

## Main Results

* `handle_piece` — the handlers write these pieces
* `replyPiece_clean_iff`
-/

namespace AkronSlot.Bridge

open Wire Mql5 Slot

/-! ## Numbers and strings -/

/-- The numeral of an integer. -/
def integerNumeral (i : ℤ) : Numeral := ⟨decide (i < 0), Whole.ofNat i.natAbs, [], none⟩

theorem integerToString_eq (i : ℤ) : integerToString i = (integerNumeral i).text := by
  unfold integerToString integerNumeral
  split
  · next h => simp [Numeral.text, Numeral.fracText, Numeral.expText, natText, h]
  · next h => simp [Numeral.text, Numeral.fracText, Numeral.expText, natText, h]

/-- `JsonEscape` leaves the control characters alone that it does not know. -/
theorem frugal_jsonEscape (s : Text) : Frugal (jsonEscape s) (escapeText s) := by
  induction s with
  | nil => exact .refl _
  | cons c s ih =>
      have happ : jsonEscape (c :: s) = jsonEscape [c] ++ jsonEscape s := jsonEscape_append [c] s
      rw [happ]
      refine Frugal.append ?_ ih
      by_cases hc : RawControl c
      · rw [jsonEscape_rawControl hc]
        have hone : Frugal [c] (escapeText [c]) := verbatim.frugal [c]
        simpa [escapeText] using hone
      · rw [jsonEscape_singleton hc]
        exact .refl _

/-- Strings that go through `JsonEscape`. -/
def escaped : Writer := ⟨jsonEscape, frugal_jsonEscape⟩

/-- `JsonEscape` writes the escape of a text without such characters. -/
theorem escaped_eq_iff (s : Text) : escaped.write s = escapeText s ↔ ¬ HasRawControl s := by
  constructor
  · rintro h hraw
    have hread := readBody_jsonEscape_rawControl hraw ['"']
    have hescape : jsonEscape s = escapeText s := h
    rw [hescape, readBody_escapeText] at hread
    cases hread
  · intro h
    exact jsonEscape_eq_escapeText (by simpa [HasRawControl] using h)

/-- `%d` and its kin. -/
def integerPiece (i : ℤ) : Piece := .ofValue (.num (integerNumeral i))

/-- `DoubleToString` and `%.nf`. -/
def doublePiece (x : ℚ) (digits : ℕ) : Piece := .ofValue (.num (Numeral.fixed digits x))

/-- `true` or `false`. -/
def boolPiece (b : Bool) : Piece := .ofValue (.bool b)

/-- A word that the program writes itself. -/
def wordPiece (w : Text) : Piece := .str verbatim w

/-- A string of the terminal, put in as it is. -/
def rawPiece (s : Text) : Piece := .str verbatim s

/-- A string of the terminal that goes through `JsonEscape`. -/
def escapedPiece (s : Text) : Piece := .str escaped s

/-! ## Objects and lists -/

theorem membersText_pieces {ms : List (Text × Piece)} (h : ∀ k ∈ ms.map Prod.fst, PlainText k) :
    membersText (ms.map fun m => (m.1, m.2.text)) = Piece.memberTexts ms := by
  induction ms with
  | nil => rfl
  | cons m ms ih =>
      rw [List.map_cons, List.forall_mem_cons] at h
      rw [List.map_cons, membersText, ih h.2, Piece.memberTexts, quote_append,
        escapeText_of_plain h.1]

/-- A format is the object of its pieces. -/
theorem objectText_pieces {ms : List (Text × Piece)} {texts : List (Text × Text)}
    (h : PlainKeys (ms.map Prod.fst))
    (htexts : texts = ms.map fun m => (m.1, m.2.text)) :
    objectText texts = (Piece.obj ms).text := by
  rw [plainKeys_iff] at h
  subst htexts
  cases ms with
  | nil => rfl
  | cons m ms =>
      rw [List.map_cons, List.forall_mem_cons] at h
      have hshape : (Piece.obj (m :: ms)).text = Piece.objText (m :: ms) := rfl
      rw [hshape, List.map_cons, objectText, membersText_pieces h.2, Piece.objText, quote_append,
        escapeText_of_plain h.1]

theorem elementsText_pieces (ps : List Piece) :
    elementsText (ps.map Piece.text) = Piece.elemTexts ps := by
  induction ps with
  | nil => rfl
  | cons p ps ih => rw [List.map_cons, elementsText, ih, Piece.elemTexts]

/-- A list is the array of its pieces. -/
theorem arrayText_pieces (ps : List Piece) :
    arrayText (ps.map Piece.text) = (Piece.arr ps).text := by
  cases ps with
  | nil => rfl
  | cons p ps =>
      have hshape : (Piece.arr (p :: ps)).text = Piece.arrText (p :: ps) := rfl
      rw [hshape, List.map_cons, arrayText, elementsText_pieces, Piece.arrText]

/-! ## Queries -/

/-- The rows that `HandleSymbols` counts. -/
def listedRows (b : Broker) (field : Reader) : List SymbolRow :=
  b.symbols.filter fun s => field "payload.market_watch_only" ≠ "true".toList || s.inMarketWatch

/-- The names that `HandleSymbols` lists. -/
def listedNames (b : Broker) (field : Reader) : List Text :=
  ((listedRows b field).map (·.name)).filter fun name =>
    name ≠ [] && (field "payload.pattern" = [] || (find (field "payload.pattern") name).isSome)

/-- The answer of `HandleSymbols`. -/
def symbolsPiece (b : Broker) (field : Reader) : Piece :=
  .obj [("count", integerPiece (listedRows b field).length),
    ("symbols", .arr ((listedNames b field).map escapedPiece))]

/-- `{"error":"..."}` with a word of the program. -/
def errorPiece (code : Text) : Piece := .obj [("error", wordPiece code)]

/-- The format of `HandleSymbol`. -/
def symbolRowPiece (sym : Text) (s : SymbolRow) : Piece :=
  .obj [("symbol", rawPiece sym), ("description", rawPiece s.description),
    ("path", rawPiece s.path), ("currency", rawPiece s.currencyBase),
    ("digits", integerPiece (asInt (asUlong s.digits))), ("point", doublePiece s.point 10),
    ("trade_contract_size", doublePiece s.tradeContractSize 2),
    ("volume_min", doublePiece s.volumeMin 2), ("volume_max", doublePiece s.volumeMax 2),
    ("volume_step", doublePiece s.volumeStep 2), ("swap_long", doublePiece s.swapLong 5),
    ("swap_short", doublePiece s.swapShort 5), ("margin_initial", doublePiece s.marginInitial 4),
    ("margin_maintenance", doublePiece s.marginMaintenance 4),
    ("trade_mode", integerPiece (asInt (asUlong s.tradeMode))),
    ("trade_allowed", boolPiece (s.tradeMode ≠ 0)),
    ("bid", doublePiece s.bid s.digits), ("ask", doublePiece s.ask s.digits),
    ("spread", integerPiece (asInt (asUlong s.spread))),
    ("session_deals", integerPiece s.sessionDeals),
    ("session_buy_orders", integerPiece s.sessionBuyOrders),
    ("session_sell_orders", integerPiece s.sessionSellOrders), ("volume", integerPiece s.volume)]

/-- The answer of `HandleSymbol`. -/
def symbolPiece (b : Broker) (field : Reader) : Piece :=
  let sym := querySymbol field
  if sym = [] then errorPiece "missing_symbol"
  else if b.symbols.all (·.name ≠ sym) then errorPiece "symbol_select_failed"
  else symbolRowPiece sym (b.symbolInfo sym)

/-- The format of a position. -/
def positionPiece (digits : ℕ) (p : PositionRow) : Piece :=
  .obj [("ticket", integerPiece (asLong p.ticket)), ("symbol", rawPiece p.symbol),
    ("magic", integerPiece p.magic), ("side", wordPiece (if p.type = .buy then "buy" else "sell")),
    ("volume", doublePiece p.volume 2), ("price_open", doublePiece p.priceOpen digits),
    ("price_current", doublePiece p.priceCurrent digits), ("sl", doublePiece p.sl 5),
    ("tp", doublePiece p.tp 5), ("profit", doublePiece p.profit 2), ("swap", doublePiece p.swap 2),
    ("comment", escapedPiece p.comment), ("time", integerPiece (asInt (asUlong p.time)))]

/-- The answer of `HandlePositions`. -/
def positionsPiece (b : Broker) : Piece :=
  .obj [("count", integerPiece b.positions.length),
    ("positions", .arr ((b.positions.filter (·.ticket ≠ 0)).map fun p =>
      positionPiece (b.symbolInfo p.symbol).digits p))]

/-- The format of a pending order. -/
def orderPiece (o : Mql5.OrderRow) : Piece :=
  .obj [("ticket", integerPiece (asLong o.ticket)), ("symbol", rawPiece o.symbol),
    ("magic", integerPiece o.magic), ("type", wordPiece (orderTypeText o.type)),
    ("state", integerPiece (asInt (asUlong o.state))),
    ("volume_initial", doublePiece o.volumeInitial 2),
    ("volume_current", doublePiece o.volumeCurrent 2), ("price", doublePiece o.priceOpen 5),
    ("sl", doublePiece o.sl 5), ("tp", doublePiece o.tp 5), ("comment", escapedPiece o.comment),
    ("setup_time", integerPiece (asInt (asUlong o.timeSetup)))]

/-- The answer of `HandleOrders`. -/
def ordersPiece (b : Broker) : Piece :=
  .obj [("count", integerPiece b.orders.length),
    ("orders", .arr ((b.orders.filter (·.ticket ≠ 0)).map orderPiece))]

/-- The format of a deal. -/
def dealPiece (d : DealRow) : Piece :=
  .obj [("ticket", integerPiece (asLong d.ticket)), ("order", integerPiece d.order),
    ("position_id", integerPiece d.positionId), ("symbol", rawPiece d.symbol),
    ("entry", wordPiece (if d.entry = .inOut then "inout" else "in")),
    ("type", wordPiece (dealTypeText d.type)), ("volume", doublePiece d.volume 2),
    ("price", doublePiece d.price 5), ("profit", doublePiece d.profit 2),
    ("commission", doublePiece d.commission 2), ("swap", doublePiece d.swap 2),
    ("time", integerPiece (asInt (asUlong d.time)))]

/-- The answer of `HandleHistory`. -/
def historyPiece (b : Broker) (field : Reader) : Piece :=
  .obj [("count", integerPiece (historyDeals b field).length),
    ("history", .arr ((historyDeals b field).map dealPiece))]

/-- The symbol that a query asks for, its escapes undone. -/
def askedSymbol (field : Reader) : Text :=
  ((readBody none (querySymbol field ++ ['"'])).map Prod.fst).getD []

/-- The answer of `HandleQuote`. -/
def quotePiece (b : Broker) (field : Reader) : Piece :=
  let s := b.symbolInfo (querySymbol field)
  if querySymbol field = [] then errorPiece "missing_symbol"
  else
    .obj [("symbol", .ofValue (.str (askedSymbol field))),
      ("digits", integerPiece (asInt (asUlong s.digits))), ("bid", doublePiece s.bid s.digits),
      ("ask", doublePiece s.ask s.digits), ("spread", integerPiece (asInt (asUlong s.spread))),
      ("time", integerPiece (asInt (asUlong b.now))), ("volume", integerPiece s.volume),
      ("high", doublePiece s.ask s.digits), ("low", doublePiece s.bid s.digits)]

/-- The answer of `HandleAccount`. -/
def accountPiece (a : AccountInfo) : Piece :=
  .obj [("login", integerPiece a.login), ("server", rawPiece a.server),
    ("currency", rawPiece a.currency), ("name", rawPiece a.name), ("company", rawPiece a.company),
    ("leverage", integerPiece a.leverage), ("trade_allowed", boolPiece a.tradeAllowed),
    ("balance", doublePiece a.balance 2), ("equity", doublePiece a.equity 2),
    ("margin", doublePiece a.margin 2), ("margin_free", doublePiece a.marginFree 2),
    ("margin_level", doublePiece a.marginLevel 2), ("profit", doublePiece a.profit 2)]

section Texts

variable (b : Broker) (field : Reader)

theorem boolText_eq (b : Bool) : boolText b = (boolPiece b).text := by
  cases b <;> rfl

theorem errorObject_piece (code : Text) : errorObject code = (errorPiece code).text :=
  objectText_pieces (by simp only [List.map_cons, List.map_nil]; exact plain_errorKeys) rfl

/-- A count and a list. -/
theorem countedList_piece {k : Text} (hk : PlainText k) (count : ℤ) (ps : List Piece) :
    objectText [("count", integerToString count), (k, arrayText (ps.map Piece.text))] =
      (Piece.obj [("count", integerPiece count), (k, .arr ps)]).text := by
  have hcount : PlainText "count" := by decide
  rw [arrayText_pieces, integerToString_eq]
  refine objectText_pieces (plainKeys_iff.mpr ?_) rfl
  simp only [List.map_cons, List.map_nil, List.forall_mem_cons]
  exact ⟨hcount, hk, by simp⟩

theorem handleSymbols_piece : handleSymbols b field = (symbolsPiece b field).text := by
  have hlist := countedList_piece (k := "symbols") (by decide) (listedRows b field).length
    ((listedNames b field).map escapedPiece)
  rw [List.map_map] at hlist
  exact hlist

theorem symbolText_piece (sym : Text) (s : SymbolRow) :
    symbolText sym s = (symbolRowPiece sym s).text := by
  simp only [symbolText, intText, integerToString_eq, boolText_eq]
  exact objectText_pieces (by simp only [List.map_cons, List.map_nil]; exact plain_symbolKeys) rfl

theorem handleSymbol_piece : handleSymbol b field = (symbolPiece b field).text := by
  unfold handleSymbol symbolPiece
  dsimp only
  split
  · exact errorObject_piece _
  · split
    · exact errorObject_piece _
    · exact symbolText_piece _ _

theorem positionText_piece (digits : ℕ) (p : PositionRow) :
    positionText digits p = (positionPiece digits p).text := by
  simp only [positionText, intText, ticketText, integerToString_eq]
  exact objectText_pieces (by simp only [List.map_cons, List.map_nil]; exact plain_positionKeys) rfl

theorem handlePositions_piece : handlePositions b field = (positionsPiece b).text := by
  have hlist := countedList_piece (k := "positions") (by decide) b.positions.length
    ((b.positions.filter (·.ticket ≠ 0)).map fun p =>
      positionPiece (b.symbolInfo p.symbol).digits p)
  rw [List.map_map] at hlist
  simp only [handlePositions, positionText_piece]
  exact hlist

theorem orderText_piece (o : Mql5.OrderRow) : orderText o = (orderPiece o).text := by
  simp only [orderText, intText, ticketText, integerToString_eq]
  exact objectText_pieces (by simp only [List.map_cons, List.map_nil]; exact plain_orderKeys) rfl

theorem handleOrders_piece : handleOrders b field = (ordersPiece b).text := by
  have hlist := countedList_piece (k := "orders") (by decide) b.orders.length
    ((b.orders.filter (·.ticket ≠ 0)).map orderPiece)
  rw [List.map_map] at hlist
  have htext : orderText = Piece.text ∘ orderPiece := funext orderText_piece
  simp only [handleOrders, htext]
  exact hlist

theorem dealText_piece (d : DealRow) : dealText d = (dealPiece d).text := by
  simp only [dealText, intText, ticketText, integerToString_eq]
  exact objectText_pieces (by simp only [List.map_cons, List.map_nil]; exact plain_dealKeys) rfl

theorem handleHistory_piece : handleHistory b field = (historyPiece b field).text := by
  have hlist := countedList_piece (k := "history") (by decide) (historyDeals b field).length
    ((historyDeals b field).map dealPiece)
  rw [List.map_map] at hlist
  have htext : dealText = Piece.text ∘ dealPiece := funext dealText_piece
  simp only [handleHistory, htext]
  exact hlist

/-- A symbol that is asked for by its escape is put back as it was asked for. -/
theorem handleQuote_piece (h : ∃ s, querySymbol field = escapeText s) :
    handleQuote b field = (quotePiece b field).text := by
  obtain ⟨s, hs⟩ := h
  have hasked : askedSymbol field = s := by
    rw [askedSymbol, hs, readBody_escapeText]
    rfl
  have hsym : rawString (querySymbol field) = (Json.str (askedSymbol field)).print := by
    rw [hasked, hs]
    rfl
  unfold handleQuote quotePiece
  dsimp only
  split
  · exact errorObject_piece _
  · simp only [intText, integerToString_eq, hsym]
    exact objectText_pieces (by simp only [List.map_cons, List.map_nil]; exact plain_quoteKeys) rfl

theorem handleAccount_piece : handleAccount b field = (accountPiece b.account).text := by
  simp only [handleAccount, integerToString_eq, boolText_eq]
  exact objectText_pieces (by simp only [List.map_cons, List.map_nil]; exact plain_accountKeys) rfl

end Texts

/-! ## Trades -/

/-- `{"error":...}` with a comment of the broker. -/
def commentPiece (res : MqlTradeResult) : Piece := .obj [("error", escapedPiece res.comment)]

/-- The same with the return code. -/
def commentRetcodePiece (res : MqlTradeResult) : Piece :=
  .obj [("error", escapedPiece res.comment), ("retcode", integerPiece res.retcode)]

/-- A result that names a ticket. -/
def ticketPiece (key : Text) (ticket : ℕ) : Piece :=
  .obj [(key, wordPiece (integerToString (asLong ticket)))]

/-- The answer after a request has been submitted. -/
def submitPiece (t : Terminal) (req : MqlTradeRequest) (accepted refused : MqlTradeResult → Piece) :
    Piece :=
  if t.Accepts req then accepted (t.orderSend req).2 else refused (t.orderSend req).2

/-- The answer about the open position with a ticket. -/
def withPositionPiece (t : Terminal) (ticket : ℕ) (act : OpenPosition → Piece) : Piece :=
  if ticket = 0 then errorPiece "missing_ticket"
  else
    match t.positionSelectByTicket ticket with
    | none => errorPiece "position_not_found"
    | some selected => act selected

/-- The answer of `HandleOpen`. -/
def openPiece (t : Terminal) (field : Reader) : Piece :=
  submitPiece t (openRequest field)
    (fun res =>
      .obj [("order_id", wordPiece (integerToString (asLong res.order))),
        ("broker_order_id", wordPiece (integerToString (asLong res.order)))])
    commentRetcodePiece

/-- The answer of `HandleClose`. -/
def closePiece (t : Terminal) (field : Reader) : Piece :=
  withPositionPiece t (positionTicket field) fun selected =>
    submitPiece t (closeRequest t (positionTicket field) selected)
      (fun res => ticketPiece "closed_ticket" res.order) commentPiece

/-- The answer of `HandleCancel`. -/
def cancelPiece (t : Terminal) (field : Reader) : Piece :=
  let ticket := ticketField field "payload.order_id"
  if ticket = 0 then errorPiece "missing_ticket"
  else
    submitPiece t { action := .remove, order := ticket } (fun _ => ticketPiece "canceled" ticket)
      (fun _ => errorPiece "cancel_failed")

/-- The request of `HandleSltp`. -/
def sltpRequest (field : Reader) : MqlTradeRequest where
  action := .sltp
  position := ticketField field "payload.position_id"
  sl := stringToDouble (field "payload.sl")
  tp := stringToDouble (field "payload.tp")

/-- The answer of `HandleSltp`. -/
def sltpPiece (t : Terminal) (field : Reader) : Piece :=
  let ticket := ticketField field "payload.position_id"
  withPositionPiece t ticket fun _ =>
    submitPiece t (sltpRequest field) (fun _ => ticketPiece "modified" ticket) commentPiece

/-- The request of `HandleModifyPosition`. -/
def modifyRequest (t : Terminal) (field : Reader) : MqlTradeRequest where
  action := .sltp
  position := positionTicket field
  symbol := ((t.positionGetSymbol (asInt (positionTicket field))).map (·.symbol)).getD []
  sl := stringToDouble (field "payload.sl")
  tp := stringToDouble (field "payload.tp")

/-- The answer of `HandleModifyPosition`. -/
def modifyPiece (t : Terminal) (field : Reader) : Piece :=
  withPositionPiece t (positionTicket field) fun _ =>
    submitPiece t (modifyRequest t field)
      (fun _ =>
        .obj [("modified", wordPiece (integerToString (asLong (positionTicket field)))),
          ("sl", doublePiece (stringToDouble (field "payload.sl")) 5),
          ("tp", doublePiece (stringToDouble (field "payload.tp")) 5)])
      commentRetcodePiece

section TradeTexts

variable (t : Terminal) (field : Reader)

theorem commentError_piece (res : MqlTradeResult) : commentError res = (commentPiece res).text := by
  delta commentError
  simp only [commentPiece, Piece.obj, Piece.objText, Piece.memberTexts, escapedPiece, Piece.str,
    List.cons_append, List.nil_append, List.append_assoc]
  rfl

theorem commentRetcodeError_piece (res : MqlTradeResult) :
    commentRetcodeError res = (commentRetcodePiece res).text := by
  delta commentRetcodeError
  simp only [integerToString_eq, commentRetcodePiece, Piece.obj, Piece.objText,
    Piece.memberTexts, escapedPiece, Piece.str, List.cons_append, List.nil_append,
    List.append_assoc]
  rfl

theorem submit_piece (req : MqlTradeRequest) {accepted refused : MqlTradeResult → Text}
    {accepted' refused' : MqlTradeResult → Piece}
    (haccepted : ∀ res, accepted res = (accepted' res).text)
    (hrefused : ∀ res, refused res = (refused' res).text) :
    (t.submit req accepted refused).result = (submitPiece t req accepted' refused').text := by
  unfold Terminal.submit submitPiece
  dsimp only
  split
  · exact haccepted _
  · exact hrefused _

theorem withPosition_piece (ticket : ℕ) {act : OpenPosition → Handled}
    {act' : OpenPosition → Piece} (h : ∀ p, (act p).result = (act' p).text) :
    (t.withPosition ticket act).result = (withPositionPiece t ticket act').text := by
  unfold Terminal.withPosition withPositionPiece
  split
  · rfl
  · cases t.positionSelectByTicket ticket with
    | none => rfl
    | some p => exact h p

theorem handleOpen_piece : (handleOpen t field).result = (openPiece t field).text := by
  refine submit_piece t _ (fun res => ?_) commentRetcodeError_piece
  simp only [Piece.obj, Piece.objText, Piece.memberTexts, wordPiece, Piece.str, List.cons_append,
    List.nil_append, List.append_assoc]
  rfl

/-- A text that names a ticket, behind its key. -/
theorem ticketPiece_text {key start : Text} (h : start = '{' :: (quote key ++ [':', '"']))
    (ticket : ℕ) :
    start ++ integerToString (asLong ticket) ++ "\"\x7d".toList =
      (ticketPiece key ticket).text := by
  simp only [h, ticketPiece, Piece.obj, Piece.objText, Piece.memberTexts, wordPiece, Piece.str,
    List.cons_append, List.nil_append, List.append_assoc]
  rfl

theorem handleClose_piece : (handleClose t field).result = (closePiece t field).text :=
  withPosition_piece t _ fun _ =>
    submit_piece t _ (fun _ => ticketPiece_text (by rfl) _) commentError_piece

theorem handleCancel_piece : (handleCancel t field).result = (cancelPiece t field).text := by
  unfold handleCancel cancelPiece
  dsimp only
  split
  · rfl
  · exact submit_piece t _ (fun _ => ticketPiece_text (by rfl) _) fun _ => rfl

theorem handleSltp_piece : (handleSltp t field).result = (sltpPiece t field).text :=
  withPosition_piece t _ fun _ =>
    submit_piece t _ (fun _ => ticketPiece_text (by rfl) _) commentError_piece

theorem handleModifyPosition_piece :
    (handleModifyPosition t field).result = (modifyPiece t field).text := by
  refine withPosition_piece t _ fun _ => submit_piece t _ (fun res => ?_) commentRetcodeError_piece
  simp only [Piece.obj, Piece.objText, Piece.memberTexts, wordPiece, Piece.str, List.cons_append,
    List.nil_append, List.append_assoc]
  rfl

end TradeTexts

/-! ## All answers -/

/-- The answer to an action. -/
def replyPiece (t : Terminal) (b : Broker) (field : Reader) : Action → Piece
  | .open_ => openPiece t field
  | .close => closePiece t field
  | .cancel => cancelPiece t field
  | .sltp => sltpPiece t field
  | .modifyPosition => modifyPiece t field
  | .symbols => symbolsPiece b field
  | .symbol => symbolPiece b field
  | .positions => positionsPiece b
  | .orders => ordersPiece b
  | .history => historyPiece b field
  | .quote => quotePiece b field
  | .account => accountPiece b.account
  | .login | .logout => errorPiece "unknown_action"

/-- **The handlers write these pieces.** -/
theorem handle_piece (t : Terminal) (b : Broker) (field : Reader) {a : Action}
    (ha : a.name ∈ knownActions) (hquote : a = .quote → ∃ s, querySymbol field = escapeText s) :
    ∃ h, handle t (queryHandlers b) field a.name = some h ∧
      h.result = (replyPiece t b field a).text := by
  cases a with
  | open_ => exact ⟨_, rfl, handleOpen_piece t field⟩
  | close => exact ⟨_, rfl, handleClose_piece t field⟩
  | cancel => exact ⟨_, rfl, handleCancel_piece t field⟩
  | sltp => exact ⟨_, rfl, handleSltp_piece t field⟩
  | modifyPosition => exact ⟨_, rfl, handleModifyPosition_piece t field⟩
  | symbols => exact ⟨_, rfl, handleSymbols_piece b field⟩
  | symbol => exact ⟨_, rfl, handleSymbol_piece b field⟩
  | positions => exact ⟨_, rfl, handlePositions_piece b field⟩
  | orders => exact ⟨_, rfl, handleOrders_piece b field⟩
  | history => exact ⟨_, rfl, handleHistory_piece b field⟩
  | quote => exact ⟨_, rfl, handleQuote_piece b field (hquote rfl)⟩
  | account => exact ⟨_, rfl, handleAccount_piece b field⟩
  | login => exact absurd ha (by decide)
  | logout => exact absurd ha (by decide)

/-! ## The strings of an answer -/

/-- The request on a position, when there is one with the ticket. The position is found by its
ticket, its symbol by the index that equals it. -/
def onPosition (t : Terminal) (ticket : ℕ) (req : OpenPosition → MqlTradeRequest) :
    Option MqlTradeRequest :=
  if ticket = 0 then none else (t.positionSelectByTicket ticket).map req

/-- The request whose refusal is answered with the broker's comment. It is the only text in the
answer to a trade that the program has not written. -/
def commentedRequest (t : Terminal) (field : Reader) : Action → Option MqlTradeRequest
  | .open_ => some (openRequest field)
  | .close => onPosition t (positionTicket field) (closeRequest t (positionTicket field))
  | .sltp => onPosition t (ticketField field "payload.position_id") fun _ => sltpRequest field
  | .modifyPosition => onPosition t (positionTicket field) fun _ => modifyRequest t field
  | _ => none

/-- The comment that a request is refused with. -/
def refusalComments (t : Terminal) (req : Option MqlTradeRequest) : List Text :=
  match req with
  | none => []
  | some req => if t.Accepts req then [] else [(t.orderSend req).2.comment]

/-- The strings of the terminal that the answer takes over as they are. They are the ones that
`%s` puts between quotes. -/
def rawStrings (b : Broker) (field : Reader) : Action → List Text
  | .symbol =>
      let sym := querySymbol field
      let s := b.symbolInfo sym
      if sym = [] ∨ b.symbols.all (·.name ≠ sym) then []
      else [sym, s.description, s.path, s.currencyBase]
  | .positions => (b.positions.filter (·.ticket ≠ 0)).map (·.symbol)
  | .orders => (b.orders.filter (·.ticket ≠ 0)).map (·.symbol)
  | .history => (historyDeals b field).map (·.symbol)
  | .account => [b.account.server, b.account.currency, b.account.name, b.account.company]
  | _ => []

/-- The strings of the terminal that go through `JsonEscape`: the names of symbols, and comments.
-/
def escapedStrings (t : Terminal) (b : Broker) (field : Reader) : Action → List Text
  | .symbols => listedNames b field
  | .positions => (b.positions.filter (·.ticket ≠ 0)).map (·.comment)
  | .orders => (b.orders.filter (·.ticket ≠ 0)).map (·.comment)
  | a => refusalComments t (commentedRequest t field a)

/-! ## When an answer is clean -/

section Clean

@[simp] theorem clean_integerPiece (i : ℤ) : (integerPiece i).Clean := rfl

@[simp] theorem clean_doublePiece (x : ℚ) (digits : ℕ) : (doublePiece x digits).Clean := rfl

@[simp] theorem clean_boolPiece (b : Bool) : (boolPiece b).Clean := rfl

@[simp] theorem clean_rawPiece (s : Text) : (rawPiece s).Clean ↔ PlainText s :=
  (Piece.clean_str _ _).trans (verbatim_eq_iff s)

@[simp] theorem clean_escapedPiece (s : Text) : (escapedPiece s).Clean ↔ ¬ HasRawControl s :=
  (Piece.clean_str _ _).trans (escaped_eq_iff s)

theorem clean_wordPiece {w : Text} (h : PlainText w) : (wordPiece w).Clean :=
  (clean_rawPiece w).mpr h

@[simp] theorem clean_integerWord (i : ℤ) : (wordPiece (integerToString i)).Clean :=
  clean_wordPiece (escapeText_eq_self_iff.mp (escapeText_integerToString i))

theorem clean_errorPiece {code : Text} (h : PlainText code) : (errorPiece code).Clean := by
  rw [errorPiece, Piece.clean_obj]
  simpa using clean_wordPiece h

theorem clean_symbolRowPiece (sym : Text) (s : SymbolRow) :
    (symbolRowPiece sym s).Clean ↔
      ∀ x ∈ [sym, s.description, s.path, s.currencyBase], PlainText x := by
  rw [symbolRowPiece, Piece.clean_obj]
  simp

theorem clean_positionPiece (digits : ℕ) (p : PositionRow) :
    (positionPiece digits p).Clean ↔ PlainText p.symbol ∧ ¬ HasRawControl p.comment := by
  have hside : (wordPiece (if p.type = .buy then "buy" else "sell")).Clean :=
    clean_wordPiece (by split <;> decide)
  rw [positionPiece, Piece.clean_obj]
  simp only [List.forall_mem_cons, clean_integerPiece, clean_doublePiece, clean_rawPiece,
    clean_escapedPiece, hside, true_and, List.not_mem_nil, false_implies, implies_true, and_true]

theorem clean_orderPiece (o : Mql5.OrderRow) :
    (orderPiece o).Clean ↔ PlainText o.symbol ∧ ¬ HasRawControl o.comment := by
  have htype : (wordPiece (orderTypeText o.type)).Clean :=
    clean_wordPiece (by unfold orderTypeText; split <;> decide)
  rw [orderPiece, Piece.clean_obj]
  simp only [List.forall_mem_cons, clean_integerPiece, clean_doublePiece, clean_rawPiece,
    clean_escapedPiece, htype, true_and, List.not_mem_nil, false_implies, implies_true, and_true]

theorem clean_dealPiece (d : DealRow) : (dealPiece d).Clean ↔ PlainText d.symbol := by
  have hentry : (wordPiece (if d.entry = .inOut then "inout" else "in")).Clean :=
    clean_wordPiece (by split <;> decide)
  have htype : (wordPiece (dealTypeText d.type)).Clean :=
    clean_wordPiece (by unfold dealTypeText; split <;> decide)
  rw [dealPiece, Piece.clean_obj]
  simp only [List.forall_mem_cons, clean_integerPiece, clean_doublePiece, clean_rawPiece,
    hentry, htype, true_and, List.not_mem_nil, false_implies, implies_true, and_true]

/-- A count and a list. -/
theorem clean_countedList (count : ℤ) (key : Text) (ps : List Piece) :
    (Piece.obj [("count", integerPiece count), (key, .arr ps)]).Clean ↔ ∀ p ∈ ps, p.Clean := by
  rw [Piece.clean_obj]
  simp [Piece.clean_arr]

theorem clean_quotePiece (b : Broker) (field : Reader) : (quotePiece b field).Clean := by
  unfold quotePiece
  dsimp only
  split
  · exact clean_errorPiece (by decide)
  · rw [Piece.clean_obj]
    simp [Piece.clean_ofValue]

theorem clean_accountPiece (a : AccountInfo) :
    (accountPiece a).Clean ↔ ∀ s ∈ [a.server, a.currency, a.name, a.company], PlainText s := by
  rw [accountPiece, Piece.clean_obj]
  simp

theorem clean_symbolPiece (b : Broker) (field : Reader) :
    (symbolPiece b field).Clean ↔ ∀ s ∈ rawStrings b field .symbol, PlainText s := by
  unfold symbolPiece rawStrings
  dsimp only
  split
  · next h =>
      rw [if_pos (.inl h)]
      exact iff_of_true (clean_errorPiece (by decide)) (by simp)
  · next h =>
      split
      · next hnone =>
          rw [if_pos (.inr hnone)]
          exact iff_of_true (clean_errorPiece (by decide)) (by simp)
      · next hsome =>
          rw [if_neg (by tauto)]
          exact clean_symbolRowPiece _ _

/-- The answer after a request is clean unless it is a refusal with a comment that is not. -/
theorem clean_submitPiece (t : Terminal) (req : MqlTradeRequest)
    {accepted refused : MqlTradeResult → Piece} (haccepted : ∀ res, (accepted res).Clean)
    (hrefused : ∀ res, (refused res).Clean ↔ ¬ HasRawControl res.comment) :
    (submitPiece t req accepted refused).Clean ↔
      ∀ s ∈ refusalComments t (some req), ¬ HasRawControl s := by
  unfold submitPiece refusalComments
  dsimp only
  split
  · exact iff_of_true (haccepted _) (by simp)
  · rw [hrefused, List.forall_mem_singleton]

theorem clean_withPositionPiece (t : Terminal) (ticket : ℕ) {act : OpenPosition → Piece}
    {req : OpenPosition → MqlTradeRequest}
    (h : ∀ p, (act p).Clean ↔ ∀ s ∈ refusalComments t (some (req p)), ¬ HasRawControl s) :
    (withPositionPiece t ticket act).Clean ↔
      ∀ s ∈ refusalComments t (onPosition t ticket req), ¬ HasRawControl s := by
  unfold withPositionPiece onPosition
  split
  · exact iff_of_true (clean_errorPiece (by decide)) (by simp [refusalComments])
  · cases t.positionSelectByTicket ticket with
    | none => exact iff_of_true (clean_errorPiece (by decide)) (by simp [refusalComments])
    | some p => exact h p

theorem clean_commentPiece (res : MqlTradeResult) :
    (commentPiece res).Clean ↔ ¬ HasRawControl res.comment := by
  rw [commentPiece, Piece.clean_obj]
  simp

theorem clean_commentRetcodePiece (res : MqlTradeResult) :
    (commentRetcodePiece res).Clean ↔ ¬ HasRawControl res.comment := by
  rw [commentRetcodePiece, Piece.clean_obj]
  simp

theorem clean_ticketPiece (key : Text) (ticket : ℕ) : (ticketPiece key ticket).Clean := by
  rw [ticketPiece, Piece.clean_obj]
  simp

theorem clean_cancelPiece (t : Terminal) (field : Reader) : (cancelPiece t field).Clean := by
  unfold cancelPiece submitPiece
  dsimp only
  split
  · exact clean_errorPiece (by decide)
  · split
    · exact clean_ticketPiece _ _
    · exact clean_errorPiece (by decide)

theorem clean_openPiece (t : Terminal) (field : Reader) :
    (openPiece t field).Clean ↔
      ∀ s ∈ refusalComments t (some (openRequest field)), ¬ HasRawControl s := by
  refine clean_submitPiece t _ (fun res => ?_) clean_commentRetcodePiece
  rw [Piece.clean_obj]
  simp

theorem clean_modifyPiece (t : Terminal) (field : Reader) :
    (modifyPiece t field).Clean ↔
      ∀ s ∈ refusalComments t (commentedRequest t field .modifyPosition), ¬ HasRawControl s := by
  refine clean_withPositionPiece t _ fun _ =>
    clean_submitPiece t _ (fun res => ?_) clean_commentRetcodePiece
  rw [Piece.clean_obj]
  simp

/-- Rows are clean if the strings of each of them are. -/
theorem clean_rows {α : Type} {rows : List α} {piece : α → Piece} {raw comment : α → Text}
    (h : ∀ r, (piece r).Clean ↔ PlainText (raw r) ∧ ¬ HasRawControl (comment r)) :
    (∀ p ∈ rows.map piece, p.Clean) ↔
      (∀ s ∈ rows.map raw, PlainText s) ∧ ∀ s ∈ rows.map comment, ¬ HasRawControl s := by
  simp only [List.forall_mem_map, h]
  exact ⟨fun hall => ⟨fun r hr => (hall r hr).1, fun r hr => (hall r hr).2⟩,
    fun hall r hr => ⟨hall.1 r hr, hall.2 r hr⟩⟩

/-- **When an answer is clean**: the strings that it takes over as they are need no escape,
and those that go through `JsonEscape` none that it does not make. -/
theorem replyPiece_clean_iff (t : Terminal) (b : Broker) (field : Reader) (a : Action) :
    (replyPiece t b field a).Clean ↔
      (∀ s ∈ rawStrings b field a, PlainText s) ∧
        ∀ s ∈ escapedStrings t b field a, ¬ HasRawControl s := by
  have hnone : ∀ s ∈ ([] : List Text), PlainText s := by simp
  have hnone' : ∀ s ∈ ([] : List Text), ¬ HasRawControl s := by simp
  cases a with
  | open_ => exact (clean_openPiece t field).trans (and_iff_right hnone).symm
  | close =>
      refine Iff.trans (clean_withPositionPiece t _ fun p => ?_) (and_iff_right hnone).symm
      exact clean_submitPiece t _ (fun _ => clean_ticketPiece _ _) clean_commentPiece
  | cancel => exact iff_of_true (clean_cancelPiece t field) ⟨hnone, hnone'⟩
  | sltp =>
      refine Iff.trans (clean_withPositionPiece t _ fun p => ?_) (and_iff_right hnone).symm
      exact clean_submitPiece t _ (fun _ => clean_ticketPiece _ _) clean_commentPiece
  | modifyPosition => exact (clean_modifyPiece t field).trans (and_iff_right hnone).symm
  | symbols =>
      refine Iff.trans (clean_countedList _ _ _) (Iff.trans ?_ (and_iff_right hnone).symm)
      simp only [List.forall_mem_map, clean_escapedPiece]
      rfl
  | symbol => exact (clean_symbolPiece b field).trans (and_iff_left hnone').symm
  | positions =>
      exact (clean_countedList _ _ _).trans (clean_rows fun p => clean_positionPiece _ p)
  | orders => exact (clean_countedList _ _ _).trans (clean_rows clean_orderPiece)
  | history =>
      refine Iff.trans (clean_countedList _ _ _) (Iff.trans ?_ (and_iff_left hnone').symm)
      simp only [List.forall_mem_map, clean_dealPiece]
      simp only [rawStrings, List.forall_mem_map]
  | quote => exact iff_of_true (clean_quotePiece b field) ⟨hnone, hnone'⟩
  | account => exact (clean_accountPiece b.account).trans (and_iff_left hnone').symm
  | login => exact iff_of_true (clean_errorPiece (by decide)) ⟨hnone, hnone'⟩
  | logout => exact iff_of_true (clean_errorPiece (by decide)) ⟨hnone, hnone'⟩

end Clean

end AkronSlot.Bridge
