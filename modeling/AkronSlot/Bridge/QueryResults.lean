import AkronSlot.Bridge.PayloadFields
import AkronSlot.Bridge.ResponseDelivery
import AkronSlot.Slot.Mt5Queries

/-!
# What the query calls carry

A query travels from the connector to a handler of SlotService, and the rows of the
terminal travel back: a format string encodes a row, and the connector casts the object
it parses to the type of `base.ts`.  The two sides do not agree on the names.  A symbol is
encoded as a string, of which the connector reads properties; a pending order has no
`side`, no `volume` and a type such as `buy_limit`; a deal has no `side` and its time
under `time`, as a quote has.

So a call carries what the terminal has exactly when there is nothing to carry.

## The symbols that are asked for

`SymbolsQueryOpts` describes a glob such as `EUR*` and a restriction to Market Watch, and
`AsksFor` is that description, of which the code has nothing.  `HandleSymbols` looks for
the pattern as it is somewhere in a name, after `JsonField` has cut it, and never finds the
restriction, which is the second member of the payload.  The two select different symbols
either way, so both have to be empty for a call that is right.

## Main Definitions

* `queryChannel` — `dispatchCommand` over a terminal
* `AsksFor`, `matchingSymbols` — the symbols that the options describe
* `SymbolCarried`, `OrderCarried`, `DealCarried`, `QuoteCarried` — a result has the values
  of its row
* `SymbolsFaithful`, `OrdersFaithful`, `HistoryFaithful`, `QuoteFaithful`

## Main Results

* `symbols_answer`, `getOrders_answer`, `getHistory_answer`, `quote_answer`
* `queryResults_faithful_iff`
-/

namespace AkronSlot.Bridge

open Wire Mql5 Slot

/-! ## The command channel -/

/-- `dispatchCommand` over a terminal that answers at once. Every frame takes the whole way: it is
printed, read by `JsonField`, handled, printed again and parsed. -/
def queryChannel (t : Terminal) (b : Broker) (id : Uuid) : DispatchCommand :=
  fun a p => answer t (queryHandlers b) id (frameReader id a p)

theorem print_injective : Function.Injective Json.print := by
  intro v w h
  have hparse := Json.parse_print v
  rw [h, Json.parse_print] at hparse
  exact (Option.some.inj hparse).symm

/-- A property that is no member. -/
theorem get_eq_none {ms : List (Text × Json)} {key : Text} (h : key ∉ ms.map Prod.fst) :
    (Json.obj ms).get key = none := by
  rw [Json.get]
  induction ms with
  | nil => rfl
  | cons m ms ih =>
      rw [List.map_cons, List.mem_cons, not_or] at h
      rw [Json.lookup, ih h.2, if_neg h.1]

/-- A count and a list are an object with two members. -/
theorem countedList_object {key : Text} (hkey : PlainText key) (count : ℤ) {items : List Text}
    (h : ∀ t ∈ items, Prints t) : ∃ n vs,
    objectText [("count", integerToString count), (key, arrayText items)] =
      (Json.obj [("count", n), (key, .arr vs)]).print ∧ items = vs.map Json.print := by
  obtain ⟨n, hn⟩ := prints_integer count
  obtain ⟨vs, hvs, hitems⟩ := arrayText_eq h
  refine ⟨n, vs, ?_, hitems⟩
  have hcount : PlainText "count" := by decide
  simp only [Json.print, Json.printMembers, quote_append, escapeText_of_plain hcount,
    escapeText_of_plain hkey, ← hn, ← hvs]
  rfl

section Query

variable {t : Terminal} {b : Broker} {id : Uuid} {a : Action} {p : Payload}

/-- A query whose handler prints an object is answered with it. -/
theorem mt5Query_of_print {text : Text} {ms : List (Text × Json)}
    (hhandle : handle t (queryHandlers b) (frameReader id a p) a.name = some (.early text))
    (htext : text = (Json.obj ms).print) :
    mt5Query (queryChannel t b id) a p = .ok (.obj ms) := by
  have hfound : handle t (queryHandlers b) (frameReader id a p)
      (frameReader id a p "action") = some (.early text) := by
    rw [frameReader_action, hhandle]
  have hanswer := answer_printed t (queryHandlers b) id (frameReader_id id a p) hfound htext
  simp only [mt5Query, queryChannel, hanswer]
  rfl

end Query

/-! ## What a result should carry -/

/-- A property is there and prints as the text. Numbers are compared by their text, which is what
the format has written. -/
def Shows (v : Json) (key text : Text) : Prop := (v.get key).map Json.print = some text

/-- `SymbolSpec` has the values of the symbol. -/
structure SymbolCarried (row : SymbolRow) (spec : SymbolSpec) : Prop where
  symbol : spec.symbol = some (.str row.name)
  digits : spec.digits.print = intText row.digits
  minLot : spec.minLot.print = doubleToString row.volumeMin 2
  maxLot : spec.maxLot.print = doubleToString row.volumeMax 2
  lotStep : spec.lotStep.print = doubleToString row.volumeStep 2
  currency : spec.currency = .str row.currencyBase

/-- The side of an order type. -/
def orderSide : Mql5.OrderType → Side
  | .buy | .buyLimit | .buyStop => .buy
  | .sell | .sellLimit | .sellStop => .sell

/-- The kind of an order type. -/
def orderKind : Mql5.OrderType → OrderKind
  | .buy | .sell => .market
  | .buyLimit | .sellLimit => .limit
  | .buyStop | .sellStop => .stop

/-- `BrokerOrder` has the values of the order; its volume is the initial or the current
one. -/
structure OrderCarried (row : Mql5.OrderRow) (order : Json) : Prop where
  ticket : Shows order "ticket" (ticketText row.ticket)
  symbol : Shows order "symbol" (quote row.symbol)
  side : ∃ side : Side, Shows order "side" (quote side.text) ∧
    ∀ type ∈ row.type, side = orderSide type
  type : ∃ kind : OrderKind, Shows order "type" (quote kind.text) ∧
    ∀ type ∈ row.type, kind = orderKind type
  volume : Shows order "volume" (doubleToString row.volumeInitial 2) ∨
    Shows order "volume" (doubleToString row.volumeCurrent 2)

/-- `BrokerDeal` has the values of the deal; its time is in seconds or in milliseconds. -/
structure DealCarried (row : DealRow) (deal : Json) : Prop where
  ticket : Shows deal "ticket" (ticketText row.ticket)
  symbol : Shows deal "symbol" (quote row.symbol)
  side : ∃ side : Side, Shows deal "side" (quote side.text) ∧
    (row.type = .buy → side = .buy) ∧ (row.type = .sell → side = .sell)
  volume : Shows deal "volume" (doubleToString row.volume 2)
  price : Shows deal "price" (doubleToString row.price 5)
  ts : Shows deal "ts" (integerToString row.time) ∨
    Shows deal "ts" (integerToString (1000 * row.time))

/-- `Quote` has the prices of the symbol and the time of the terminal, in seconds or in
milliseconds. -/
structure QuoteCarried (row : SymbolRow) (time : ℤ) (quote : Quote) : Prop where
  bid : quote.bid.print = doubleToString row.bid row.digits
  ask : quote.ask.print = doubleToString row.ask row.digits
  ts : quote.ts.print = integerToString time ∨ quote.ts.print = integerToString (1000 * time)

/-- A glob and a text: `*` stands for any text and `?` for any character. -/
def glob : Text → Text → Bool
  | [], t => t.isEmpty
  | c :: p, t =>
      if c = '*' then t.tails.any (glob p)
      else match t with
        | [] => false
        | d :: t => (c = '?' || c = d) && glob p t

/-- The two patterns that the comment on `SymbolsQueryOpts` has for an example. -/
example : glob "EUR*" "EURUSD" = true ∧ glob "EUR*" "AUDEUR" = false ∧
    glob "*USD" "EURUSD" = true ∧ glob "*USD" "USDJPY" = false := by
  decide

/-- What the options describe: the pattern is a glob of the name, unless there is none, and
the symbol is in Market Watch if only those are asked for. -/
def AsksFor (opts : SymbolsQueryOpts) (s : SymbolRow) : Prop :=
  (opts.pattern.getD [] = [] ∨ glob (opts.pattern.getD []) s.name = true) ∧
    (opts.marketWatchOnly.getD false = false ∨ s.inMarketWatch = true)

instance (opts : SymbolsQueryOpts) (s : SymbolRow) : Decidable (AsksFor opts s) :=
  inferInstanceAs (Decidable (_ ∧ _))

/-- The symbols that the options ask for.  A terminal has no symbol without a name:
`SymbolName` gives the empty one where there is none. -/
def matchingSymbols (b : Broker) (opts : SymbolsQueryOpts) : List SymbolRow :=
  b.symbols.filter fun s => s.name ≠ [] && decide (AsksFor opts s)

/-- What `JsonField` leaves of the pattern: it is cut at its first comma, closing brace or
blank, and its escapes stay. -/
def cutPattern (opts : SymbolsQueryOpts) : Text :=
  escapeText ((opts.pattern.getD []).takeWhile bare)

/-- No symbol of the terminal is asked for, and none has the pattern in its name. Then the handler
lists nothing, and nothing is what was asked for. -/
def NothingListed (b : Broker) (opts : SymbolsQueryOpts) : Prop :=
  ∀ s ∈ b.symbols, s.name ≠ [] → ¬ AsksFor opts s ∧ ¬ cutPattern opts <:+: s.name

/-- The orders that `HandleOrders` lists. -/
def pendingOrders (b : Broker) : List Mql5.OrderRow := b.orders.filter (·.ticket ≠ 0)

section Calls

variable (t : Terminal) (b : Broker) (id : Uuid)

/-- What `HandleSymbols` reads for the options. -/
def symbolsReader (opts : SymbolsQueryOpts) : Reader :=
  frameReader id .symbols (Mt5Connector.symbolsPayload opts)

/-- What `HandleHistory` reads for the options. -/
def historyReaderOf (rec : Option AccountRecord) (opts : HistoryQueryOpts) : Reader :=
  frameReader id .history (Mt5Connector.historyPayload rec opts)

/-- `symbols` returns one carried spec per symbol that the options ask for. What they ask for is
`AsksFor`, from the comments of `SymbolsQueryOpts`, and not what the handler selects. -/
def SymbolsFaithful (opts : SymbolsQueryOpts) : Prop :=
  ∃ specs, Mt5Connector.symbols (queryChannel t b id) opts = .ok specs ∧
    List.Forall₂ SymbolCarried (matchingSymbols b opts) specs

/-- `getOrders` returns one carried order per pending order, in their order. A row without a
ticket is none. -/
def OrdersFaithful (rec : Option AccountRecord) : Prop :=
  ∃ orders, Mt5Connector.getOrders (queryChannel t b id) rec = .ok (.arr orders) ∧
    List.Forall₂ OrderCarried (pendingOrders b) orders

/-- `getHistory` returns one carried deal per deal of the range. The range is the one that the
handler reads; that it is not the one that was asked for is treated with the fills. -/
def HistoryFaithful (rec : Option AccountRecord) (opts : HistoryQueryOpts) : Prop :=
  ∃ deals, Mt5Connector.getHistory (queryChannel t b id) rec opts = .ok (.arr deals) ∧
    List.Forall₂ DealCarried (historyDeals b (historyReaderOf id rec opts)) deals

/-- `quote` returns what the terminal knows of the symbol, whatever the clock of the
server says. -/
def QuoteFaithful (symbol : Text) : Prop :=
  ∀ row, b.symbols.find? (·.name = symbol) = some row → ∀ now, ∃ quote,
    Mt5Connector.quote (queryChannel t b id) now symbol = .ok quote ∧
      QuoteCarried row b.now quote

end Calls

/-! ## What the calls answer -/

/-- The spec that the connector makes of every symbol. -/
def bareSpec : SymbolSpec :=
  ⟨none, .num (Numeral.ofNat 5), .num hundredth, .num (Numeral.ofNat 100), .num hundredth,
    .str "USD"⟩

/-- A string has none of the properties. -/
theorem symbolSpec_str (s : Text) : symbolSpec (.str s) = .ok bareSpec := rfl

theorem mapM_symbolSpec_str (rows : List SymbolRow) :
    ((rows.map (·.name)).map Json.str).mapM symbolSpec = .ok (rows.map fun _ => bareSpec) := by
  induction rows with
  | nil => rfl
  | cons row rows ih =>
      rw [List.map_cons, List.map_cons, List.mapM_cons, symbolSpec_str, ih]
      rfl

/-- The symbols that `HandleSymbols` selects. -/
def selectedSymbols (b : Broker) (field : Reader) : List SymbolRow :=
  b.symbols.filter fun s =>
    (field "payload.market_watch_only" ≠ "true".toList || s.inMarketWatch) &&
      (s.name ≠ [] && (field "payload.pattern" = [] ||
        (find (field "payload.pattern") s.name).isSome))

/-- The names that `HandleSymbols` encodes are those of the selected symbols. -/
theorem handleSymbols_eq (b : Broker) (field : Reader) : ∃ count : ℤ, handleSymbols b field =
    objectText [("count", integerToString count), ("symbols", arrayText
      (((selectedSymbols b field).map (·.name)).map fun name => rawString (jsonEscape name)))] := by
  have hnames : selectedSymbols b field = (b.symbols.filter fun s =>
      field "payload.market_watch_only" ≠ "true".toList || s.inMarketWatch).filter fun s =>
        s.name ≠ [] && (field "payload.pattern" = [] ||
          (find (field "payload.pattern") s.name).isSome) := by
    rw [List.filter_filter]
    exact List.filter_congr fun s _ => Bool.and_comm ..
  refine ⟨((b.symbols.filter fun s =>
    field "payload.market_watch_only" ≠ "true".toList || s.inMarketWatch).length : ℤ), ?_⟩
  rw [hnames, handleSymbols, List.filter_map]
  rfl

section Answers

variable {t : Terminal} {b : Broker} {id : Uuid}

/-- `HandleSymbols` reads the cut pattern and no restriction, which comes second. -/
theorem symbolsReader_options (opts : SymbolsQueryOpts) :
    symbolsReader id opts "payload.pattern" = cutPattern opts ∧
      symbolsReader id opts "payload.market_watch_only" = [] := by
  have hentries : (Mt5Connector.symbolsPayload opts).entries =
      [(("pattern" : Text), Scalar.str (opts.pattern.getD [])),
        ("market_watch_only", .bool (opts.marketWatchOnly.getD false))] := rfl
  have hread (key : Text) (hkey : Identifier key) : symbolsReader id opts (payloadPath key) =
      payloadReading (Mt5Connector.symbolsPayload opts) key :=
    jsonField_payload id .symbols _ hkey
  constructor
  · refine (hread "pattern" (by decide)).trans ?_
    rw [payloadReading, hentries]
    exact if_pos (.inl rfl)
  · refine (hread "market_watch_only" (by decide)).trans ?_
    rw [payloadReading, hentries]
    exact if_neg (by decide)

theorem mem_selectedSymbols {opts : SymbolsQueryOpts} {s : SymbolRow} :
    s ∈ selectedSymbols b (symbolsReader id opts) ↔
      s ∈ b.symbols ∧ s.name ≠ [] ∧ cutPattern opts <:+: s.name := by
  obtain ⟨hpattern, hwatch⟩ := @symbolsReader_options id opts
  have hfound : (cutPattern opts = [] ∨ cutPattern opts <:+: s.name) ↔
      cutPattern opts <:+: s.name :=
    or_iff_right_of_imp fun h => h ▸ List.nil_infix
  rw [selectedSymbols, List.mem_filter, hpattern, hwatch]
  simp only [Bool.and_eq_true, Bool.or_eq_true, decide_eq_true_eq, find_isSome_iff, hfound]
  exact and_congr_right fun _ => and_iff_right (.inl (by decide))

theorem mem_matchingSymbols {opts : SymbolsQueryOpts} {s : SymbolRow} :
    s ∈ matchingSymbols b opts ↔ s ∈ b.symbols ∧ s.name ≠ [] ∧ AsksFor opts s := by
  rw [matchingSymbols, List.mem_filter]
  simp only [Bool.and_eq_true, decide_eq_true_eq]

/-- Nothing is listed when both selections are empty. -/
theorem nothingListed_iff {opts : SymbolsQueryOpts} : NothingListed b opts ↔
    matchingSymbols b opts = [] ∧ selectedSymbols b (symbolsReader id opts) = [] := by
  simp only [List.eq_nil_iff_forall_not_mem, mem_matchingSymbols, mem_selectedSymbols, not_and]
  exact ⟨fun h => ⟨fun s hs hname => (h s hs hname).1, fun s hs hname => (h s hs hname).2⟩,
    fun h s hs hname => ⟨h.1 s hs hname, h.2 s hs hname⟩⟩

/-- A handler that answers with a count and the texts of values is answered with them. -/
theorem countedList_answer {a : Action} {p : Payload} {key : Text} (hkey : PlainText key)
    {count : ℤ} {items : List Text} (hitems : ∀ text ∈ items, Prints text)
    (hhandle : handle t (queryHandlers b) (frameReader id a p) a.name =
      some (.early (objectText [("count", integerToString count), (key, arrayText items)]))) :
    ∃ n vs, mt5Query (queryChannel t b id) a p =
      .ok (.obj [("count", n), (key, .arr vs)]) ∧ items = vs.map Json.print := by
  obtain ⟨n, vs, htext, hvs⟩ := countedList_object hkey count hitems
  exact ⟨n, vs, mt5Query_of_print hhandle htext, hvs⟩

/-- Every symbol is answered with the same spec. -/
theorem symbols_answer {opts : SymbolsQueryOpts}
    (hplain : ∀ s ∈ selectedSymbols b (symbolsReader id opts), ¬ HasRawControl s.name) :
    Mt5Connector.symbols (queryChannel t b id) opts =
      .ok ((selectedSymbols b (symbolsReader id opts)).map fun _ => bareSpec) := by
  obtain ⟨count, htext⟩ := handleSymbols_eq b (symbolsReader id opts)
  have hprint : ((selectedSymbols b (symbolsReader id opts)).map (·.name)).map
      (fun name => rawString (jsonEscape name)) =
        (((selectedSymbols b (symbolsReader id opts)).map (·.name)).map Json.str).map
          Json.print := by
    rw [List.map_map (f := Json.str)]
    refine List.map_congr_left fun name hname => ?_
    obtain ⟨s, hs, rfl⟩ := List.mem_map.mp hname
    rw [jsonEscape_eq_escapeText (by simpa [HasRawControl] using hplain s hs)]
    rfl
  rw [hprint] at htext
  have hhandle : handle t (queryHandlers b) (symbolsReader id opts) Action.symbols.name =
      some (.early (handleSymbols b (symbolsReader id opts))) := rfl
  rw [htext] at hhandle
  obtain ⟨n, vs, hanswer, hvs⟩ := countedList_answer (by decide) (fun text htext => by
    obtain ⟨v, -, rfl⟩ := List.mem_map.mp htext
    exact ⟨v, rfl⟩) hhandle
  have hsame := (List.map_injective_iff.mpr print_injective) hvs
  simp only [Mt5Connector.symbols, hanswer, ← hsame]
  exact mapM_symbolSpec_str _

/-- A pending order is answered with what its format has. -/
theorem getOrders_answer (rec : Option AccountRecord)
    (hplain : ∀ o ∈ pendingOrders b, PlainText o.symbol ∧ ¬ HasRawControl o.comment) :
    ∃ orders, Mt5Connector.getOrders (queryChannel t b id) rec = .ok (.arr orders) ∧
      (pendingOrders b).map orderText = orders.map Json.print := by
  have hitems : ∀ text ∈ (pendingOrders b).map orderText, Prints text := by
    rw [List.forall_mem_map]
    exact fun o ho => (orderText_object (hplain o ho).1 (hplain o ho).2).prints
  obtain ⟨n, orders, hanswer, horders⟩ := @countedList_answer t b id .orders
    (Mt5Connector.ordersPayload rec) "orders" (by decide) _ _ hitems rfl
  refine ⟨orders, ?_, horders⟩
  simp only [Mt5Connector.getOrders, hanswer]
  rfl

/-- A deal is answered with what its format has. -/
theorem getHistory_answer (rec : Option AccountRecord) (opts : HistoryQueryOpts)
    (hplain : ∀ d ∈ historyDeals b (historyReaderOf id rec opts), PlainText d.symbol) :
    ∃ deals, Mt5Connector.getHistory (queryChannel t b id) rec opts = .ok (.arr deals) ∧
      (historyDeals b (historyReaderOf id rec opts)).map dealText = deals.map Json.print := by
  have hitems : ∀ text ∈ (historyDeals b (historyReaderOf id rec opts)).map dealText,
      Prints text := by
    rw [List.forall_mem_map]
    exact fun d hd => (dealText_object (hplain d hd)).prints
  obtain ⟨n, deals, hanswer, hdeals⟩ := @countedList_answer t b id .history
    (Mt5Connector.historyPayload rec opts) "history" (by decide) _ _ hitems rfl
  refine ⟨deals, ?_, hdeals⟩
  simp only [Mt5Connector.getHistory, hanswer]
  rfl

/-- What a query for a quote names is escaped already. -/
theorem quoteSymbol_prints (symbol : Text) : Prints (rawString (querySymbol
    (frameReader id .quote (Mt5Connector.quotePayload symbol)))) := by
  have hread (key : Text) (hkey : Identifier key) : Prints (rawString
      (frameReader id .quote (Mt5Connector.quotePayload symbol) (payloadPath key))) := by
    rw [frameReader, jsonField_payload id .quote _ hkey]
    have hentries : (Mt5Connector.quotePayload symbol).entries =
        [(("symbol" : Text), Scalar.str symbol)] := rfl
    simp only [payloadReading, hentries]
    split
    · exact ⟨.str (symbol.takeWhile bare), rfl⟩
    · exact ⟨.str [], rfl⟩
  unfold querySymbol
  split
  · exact hread "instrument" (by decide)
  · exact hread "symbol" (by decide)

/-- A quote is answered with the clock of the server. -/
theorem quote_answer (symbol : Text) : ∃ name bid ask, ∀ now,
    Mt5Connector.quote (queryChannel t b id) now symbol = .ok ⟨name, bid, ask, .num now⟩ := by
  obtain ⟨ms, htext, hts⟩ : ∃ ms, handleQuote b
      (frameReader id .quote (Mt5Connector.quotePayload symbol)) = (Json.obj ms).print ∧
        ("ts" : Text) ∉ ms.map Prod.fst := by
    rcases @handleQuote_object b _ (@quoteSymbol_prints id symbol) with
      ⟨ms, htext, hkeys⟩ | ⟨ms, htext, hkeys⟩
    · exact ⟨ms, htext, by rw [hkeys]; decide⟩
    · exact ⟨ms, htext, by rw [hkeys]; decide⟩
  have hanswer : mt5Query (queryChannel t b id) .quote (Mt5Connector.quotePayload symbol) =
      .ok (.obj ms) := mt5Query_of_print rfl htext
  have hfound (key : Text) (default : Json) : ∃ v, propertyOr (.obj ms) key default = .ok v :=
    ⟨_, rfl⟩
  obtain ⟨name, hname⟩ := hfound "symbol" (.str symbol)
  obtain ⟨bid, hbid⟩ := hfound "bid" (.num (Numeral.ofNat 0))
  obtain ⟨ask, hask⟩ := hfound "ask" (.num (Numeral.ofNat 0))
  refine ⟨name, bid, ask, fun now => ?_⟩
  have hclock : propertyOr (.obj ms) "ts" (.num now) = .ok (.num now) := by
    simp only [propertyOr, property, get_eq_none hts]
    rfl
  simp only [Mt5Connector.quote, hanswer, bind, Except.bind, hname, hbid, hask, hclock]
  rfl

end Answers

/-! ## Nothing is carried -/

/-- An object shows no property that is not among its keys. -/
theorem not_shows_of_keys {keys : List Text} {v : Json} {key text : Text}
    (hobject : PrintsObject keys v.print) (hkey : key ∉ keys) : ¬ Shows v key text := by
  obtain ⟨ms, hprint, hkeys⟩ := hobject
  obtain rfl := print_injective hprint
  rw [Shows, get_eq_none (hkeys ▸ hkey)]
  simp

/-- Rows that are never carried are carried only when there are none. -/
theorem forall₂_iff_nil {R : α → β → Prop} {rows : List α} {results : List β}
    (hlength : rows.length = results.length) (hno : ∀ row, ∀ v ∈ results, ¬ R row v) :
    List.Forall₂ R rows results ↔ rows = [] := by
  constructor
  · intro h
    cases h with
    | nil => rfl
    | cons hrow _ => exact absurd hrow (hno _ _ (List.mem_cons_self ..))
  · rintro rfl
    rw [List.length_nil, eq_comm, List.length_eq_zero_iff] at hlength
    rw [hlength]
    exact List.Forall₂.nil

section Faithful

variable {t : Terminal} {b : Broker} {id : Uuid}

theorem symbolsFaithful_iff {opts : SymbolsQueryOpts}
    (hplain : ∀ s ∈ selectedSymbols b (symbolsReader id opts), ¬ HasRawControl s.name) :
    SymbolsFaithful t b id opts ↔ NothingListed b opts := by
  have hno : ∀ row, ¬ SymbolCarried row bareSpec := fun row hcarried =>
    absurd hcarried.symbol (by simp [bareSpec])
  rw [@nothingListed_iff b id, SymbolsFaithful, symbols_answer hplain]
  simp only [Except.ok.injEq, exists_eq_left']
  cases selectedSymbols b (symbolsReader id opts) with
  | nil => simp
  | cons s rest =>
      refine iff_of_false (fun h => ?_) fun h => List.cons_ne_nil _ _ h.2
      obtain ⟨row, -, hrow, -⟩ := List.forall₂_cons_right_iff.mp h
      exact hno row hrow

theorem ordersFaithful_iff {rec : Option AccountRecord}
    (hplain : ∀ o ∈ pendingOrders b, PlainText o.symbol ∧ ¬ HasRawControl o.comment) :
    OrdersFaithful t b id rec ↔ pendingOrders b = [] := by
  obtain ⟨orders, hanswer, horders⟩ := @getOrders_answer t b id rec hplain
  have hno : ∀ row, ∀ order ∈ orders, ¬ OrderCarried row order := by
    intro row order horder hcarried
    obtain ⟨o, ho, htext⟩ := List.mem_map.mp (horders ▸ List.mem_map_of_mem horder)
    obtain ⟨side, hside, -⟩ := hcarried.side
    have hobject := orderText_object (hplain o ho).1 (hplain o ho).2
    rw [htext] at hobject
    exact not_shows_of_keys hobject (by decide) hside
  have hlength := congrArg List.length horders
  rw [List.length_map, List.length_map] at hlength
  rw [← forall₂_iff_nil hlength hno, OrdersFaithful, hanswer]
  simp only [Except.ok.injEq, Json.arr.injEq, exists_eq_left']

theorem historyFaithful_iff {rec : Option AccountRecord} {opts : HistoryQueryOpts}
    (hplain : ∀ d ∈ historyDeals b (historyReaderOf id rec opts), PlainText d.symbol) :
    HistoryFaithful t b id rec opts ↔ historyDeals b (historyReaderOf id rec opts) = [] := by
  obtain ⟨deals, hanswer, hdeals⟩ := @getHistory_answer t b id rec opts hplain
  have hno : ∀ row, ∀ deal ∈ deals, ¬ DealCarried row deal := by
    intro row deal hdeal hcarried
    obtain ⟨d, hd, htext⟩ := List.mem_map.mp (hdeals ▸ List.mem_map_of_mem hdeal)
    obtain ⟨side, hside, -⟩ := hcarried.side
    have hobject := dealText_object (hplain d hd)
    rw [htext] at hobject
    exact not_shows_of_keys hobject (by decide) hside
  have hlength := congrArg List.length hdeals
  rw [List.length_map, List.length_map] at hlength
  rw [← forall₂_iff_nil hlength hno, HistoryFaithful, hanswer]
  simp only [Except.ok.injEq, Json.arr.injEq, exists_eq_left']

/-- Two texts do not show three different clocks. -/
theorem quoteFaithful_iff {symbol : Text} :
    QuoteFaithful t b id symbol ↔ ∀ row ∈ b.symbols, row.name ≠ symbol := by
  have hfind : (∀ row ∈ b.symbols, row.name ≠ symbol) ↔
      ∀ row, b.symbols.find? (·.name = symbol) ≠ some row := by
    rw [← Option.eq_none_iff_forall_ne_some]
    simp
  rw [hfind]
  obtain ⟨name, bid, ask, hanswer⟩ := @quote_answer t b id symbol
  constructor
  · intro h row hrow
    have hclock : ∀ n : ℕ, natText n = integerToString b.now ∨
        natText n = integerToString (1000 * b.now) := by
      intro n
      obtain ⟨quote, hquote, hcarried⟩ := h row hrow (Numeral.ofNat n)
      rw [hanswer, Except.ok.injEq] at hquote
      have hts := hcarried.ts
      rw [← hquote] at hts
      simpa only [Json.print, Numeral.text_ofNat] using hts
    have hdiffer : natText 0 ≠ natText 1 ∧ natText 1 ≠ natText 2 ∧ natText 0 ≠ natText 2 := by
      decide
    have hzero := hclock 0
    have hone := hclock 1
    have htwo := hclock 2
    grind
  · exact fun h row hrow => absurd hrow (h row)

variable (t b id) (opts : SymbolsQueryOpts) (rec : Option AccountRecord)
  (range : HistoryQueryOpts) (symbol : Text)

/-- **A query call carries what the terminal has exactly when it has nothing.**  That
nothing is carried needs that the answer is read at all, so that the strings that are put
into it need no escape. -/
theorem queryResults_faithful_iff :
    (NothingListed b opts → SymbolsFaithful t b id opts) ∧
    (pendingOrders b = [] → OrdersFaithful t b id rec) ∧
    (historyDeals b (historyReaderOf id rec range) = [] → HistoryFaithful t b id rec range) ∧
    (QuoteFaithful t b id symbol ↔ ∀ row ∈ b.symbols, row.name ≠ symbol) ∧
    (PlainStrings b →
      (SymbolsFaithful t b id opts → NothingListed b opts) ∧
      (OrdersFaithful t b id rec → pendingOrders b = []) ∧
      (HistoryFaithful t b id rec range →
        historyDeals b (historyReaderOf id rec range) = [])) := by
  refine ⟨fun h => (symbolsFaithful_iff (by simp [(nothingListed_iff.mp h).2])).mpr h,
    fun h => (ordersFaithful_iff (by simp [h])).mpr h,
    fun h => (historyFaithful_iff (by simp [h])).mpr h, quoteFaithful_iff, fun hplain => ?_⟩
  refine ⟨(symbolsFaithful_iff fun s hs => ?_).mp, (ordersFaithful_iff fun o ho => ?_).mp,
    (historyFaithful_iff fun d hd => ?_).mp⟩
  · exact not_hasRawControl_of_plain (hplain.symbols s (List.mem_of_mem_filter hs)).1
  · exact hplain.orders o (List.mem_of_mem_filter ho)
  · have hmem := List.mem_of_mem_filter (List.mem_of_mem_filter (List.mem_of_mem_take hd))
    exact hplain.deals d hmem

end Faithful

/-! ## One symbol, one order, one deal -/

/-- A symbol with three digits, lots from 1 to 50, and prices. -/
def eurusd : SymbolRow where
  name := "EURUSD"
  inMarketWatch := true
  currencyBase := "EUR"
  digits := 3
  volumeMin := 1
  volumeMax := 50
  volumeStep := 1
  bid := 11 / 10
  ask := 12 / 10

/-- A terminal that knows EURUSD, with a limit order and a deal. -/
def tradingBroker : Broker :=
  { emptyBroker with
    symbols := [eurusd]
    orders := [⟨9, "EURUSD", 0, some .buyLimit, 1, 2, 2, 1, 0, 0, [], 1700000000⟩]
    deals := [buyDeal 3]
    now := 1700000000 }

theorem tradingBroker_plain : PlainStrings tradingBroker where
  symbols s hs := by
    obtain rfl := List.mem_singleton.mp hs
    decide
  positions p hp := absurd hp List.not_mem_nil
  orders o ho := by
    obtain rfl := List.mem_singleton.mp ho
    decide
  deals d hd := by
    obtain rfl := List.mem_singleton.mp hd
    decide
  account := by decide

/-- EURUSD is asked for by every glob that its name is of. -/
theorem tradingBroker_listed {opts : SymbolsQueryOpts} (h : AsksFor opts eurusd) :
    ¬ NothingListed tradingBroker opts := fun hnothing =>
  (hnothing eurusd (List.mem_singleton_self _) (List.cons_ne_nil _ _)).1 h

/-- The symbol has no name and two digits too many, and is missing from the list when its
pattern has a star; the order and the deal have no side, and the quote has no time. -/
theorem tradingBroker_not_carried :
    ¬ SymbolsFaithful sampleTerminal tradingBroker sampleId {} ∧
    (Mt5Connector.symbols (queryChannel sampleTerminal tradingBroker sampleId)
        { pattern := some "EUR*" } = .ok [] ∧
      ¬ SymbolsFaithful sampleTerminal tradingBroker sampleId { pattern := some "EUR*" }) ∧
    ¬ OrdersFaithful sampleTerminal tradingBroker sampleId none ∧
    ¬ HistoryFaithful sampleTerminal tradingBroker sampleId none {} ∧
    ¬ QuoteFaithful sampleTerminal tradingBroker sampleId "EURUSD" := by
  have hplain := tradingBroker_plain
  have hcontrol : ∀ opts, ∀ s ∈ selectedSymbols tradingBroker (symbolsReader sampleId opts),
      ¬ HasRawControl s.name := fun opts s hs =>
    not_hasRawControl_of_plain (hplain.symbols s (List.mem_of_mem_filter hs)).1
  refine ⟨?_, ⟨?_, ?_⟩, ?_, ?_, ?_⟩
  · rw [symbolsFaithful_iff (hcontrol _)]
    exact tradingBroker_listed (by decide)
  · have hnone : selectedSymbols tradingBroker
        (symbolsReader sampleId { pattern := some "EUR*" }) = [] := by
      decide +kernel
    rw [symbols_answer (hcontrol _), hnone]
    rfl
  · rw [symbolsFaithful_iff (hcontrol _)]
    exact tradingBroker_listed (by decide)
  · rw [ordersFaithful_iff fun o ho => hplain.orders o (List.mem_of_mem_filter ho)]
    simp [pendingOrders, tradingBroker]
  · have hstart : historyReaderOf sampleId none {} "payload.from" = [] := by decide +kernel
    have hstop : historyReaderOf sampleId none {} "payload.to" = [] := by decide +kernel
    have hlimit : historyReaderOf sampleId none {} "payload.limit" = [] := by decide +kernel
    have hdeals : ∀ d ∈ tradingBroker.deals, tradingBroker.now - 86400 ≤ d.time ∧
        d.time ≤ tradingBroker.now ∧ d.ticket ≠ 0 ∧ d.entry ≠ .out := by
      intro d hd
      obtain rfl := List.mem_singleton.mp hd
      decide
    rw [historyFaithful_iff fun d hd => hplain.deals d
      (List.mem_of_mem_filter (List.mem_of_mem_filter (List.mem_of_mem_take hd))),
      historyDeals_default hstart hstop hlimit hdeals (by simp [tradingBroker])]
    exact List.cons_ne_nil _ _
  · rw [quoteFaithful_iff]
    exact fun hno => hno eurusd (List.mem_singleton_self _) rfl

end AkronSlot.Bridge
