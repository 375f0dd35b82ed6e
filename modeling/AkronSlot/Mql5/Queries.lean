import AkronSlot.Mql5.Events
import AkronSlot.Mql5.Trade

/-!
# The query handlers of SlotService

`handleSymbols`, `handleSymbol`, `handlePositions`, `handleOrders`,
`handleHistory`, `handleQuote` and `handleAccount`: what they read from the
terminal and the text they answer with.

Every format string of these handlers is an object whose members are written out
in order, and every list is put together with commas; `objectText` and
`arrayText` are these two.  `%s` puts a string in as it is; only the names of
`handleSymbols` and the comments go through `JsonEscape`.  A ticket selects the
row it belongs to.

## The terminal as rows

Here a terminal is a list of rows, one for each symbol, position, order and deal, and a ticket
finds its row. `ArrayLoops` has the loops as they stand, over single answers, and shows that
these handlers are what they compute for such a terminal. The rows are what a reader's result is
compared with.

Numbers are rationals and are rounded to the digits of their directive; the result of `%d` is
cut to 32 bits, which a time after 2038 or a large count does not fit.

## Main Definitions

* `Broker` — what the terminal knows
* `objectText`, `arrayText`
* `queryHandlers` — the seven handlers
-/

namespace AkronSlot.Mql5

open Wire

/-! ## What the terminal knows -/

/-- A symbol, as `SymbolInfoString`, `SymbolInfoInteger` and `SymbolInfoDouble`
read it; the defaults are what they give for a symbol that does not exist. -/
structure SymbolRow where
  name : Text := []
  inMarketWatch : Bool := false
  description : Text := []
  path : Text := []
  currencyBase : Text := []
  digits : ℕ := 0
  point : ℚ := 0
  tradeContractSize : ℚ := 0
  volumeMin : ℚ := 0
  volumeMax : ℚ := 0
  volumeStep : ℚ := 0
  swapLong : ℚ := 0
  swapShort : ℚ := 0
  marginInitial : ℚ := 0
  marginMaintenance : ℚ := 0
  tradeMode : ℤ := 0
  bid : ℚ := 0
  ask : ℚ := 0
  spread : ℤ := 0
  sessionDeals : ℤ := 0
  sessionBuyOrders : ℤ := 0
  sessionSellOrders : ℤ := 0
  volume : ℤ := 0

/-- An open position. -/
structure PositionRow where
  ticket : ℕ
  symbol : Text
  magic : ℤ
  type : PositionType
  volume : ℚ
  priceOpen : ℚ
  priceCurrent : ℚ
  sl : ℚ
  tp : ℚ
  profit : ℚ
  swap : ℚ
  comment : Text
  time : ℤ

/-- A pending order.  `type` is `none` for the order types that the handler does
not name. -/
structure OrderRow where
  ticket : ℕ
  symbol : Text
  magic : ℤ
  type : Option OrderType
  state : ℤ
  volumeInitial : ℚ
  volumeCurrent : ℚ
  priceOpen : ℚ
  sl : ℚ
  tp : ℚ
  comment : Text
  timeSetup : ℤ

/-- `ENUM_DEAL_ENTRY`. -/
inductive DealEntry where
  | in_ | out | inOut | outBy
  deriving DecidableEq, Repr

/-- `ENUM_DEAL_TYPE`, as far as the handler tells them apart. -/
inductive DealType where
  | buy | sell | balance | other
  deriving DecidableEq, Repr

/-- A deal, as `HistoryDealGet*` reads it. -/
structure DealRow where
  ticket : ℕ
  order : ℤ
  positionId : ℤ
  symbol : Text
  entry : DealEntry
  type : DealType
  volume : ℚ
  price : ℚ
  profit : ℚ
  commission : ℚ
  swap : ℚ
  time : ℤ

/-- What `AccountInfo*` read. -/
structure AccountInfo where
  login : ℤ
  server : Text
  currency : Text
  name : Text
  company : Text
  leverage : ℤ
  tradeAllowed : Bool
  balance : ℚ
  equity : ℚ
  margin : ℚ
  marginFree : ℚ
  marginLevel : ℚ
  profit : ℚ

/-- The state that the query handlers read.  `deals` is the history, newest
first; `now` is `TimeCurrent()`. -/
structure Broker where
  symbols : List SymbolRow
  positions : List PositionRow
  orders : List OrderRow
  deals : List DealRow
  account : AccountInfo
  now : ℤ

/-- What is known about a symbol. -/
def Broker.symbolInfo (b : Broker) (name : Text) : SymbolRow :=
  (b.symbols.find? (·.name = name)).getD {}

/-! ## Formats -/

/-- The members after the first one, and the brace. -/
def membersText : List (Text × Text) → Text
  | [] => ['}']
  | (key, value) :: ms => ',' :: '"' :: (key ++ '"' :: ':' :: (value ++ membersText ms))

/-- A format string that is an object: the keys, and what their directives make. -/
def objectText : List (Text × Text) → Text
  | [] => ['{', '}']
  | (key, value) :: ms => '{' :: '"' :: (key ++ '"' :: ':' :: (value ++ membersText ms))

/-- The elements after the first one, and the bracket. -/
def elementsText : List Text → Text
  | [] => [']']
  | item :: items => ',' :: (item ++ elementsText items)

/-- The loops that put a list together: a comma before every item but the first. -/
def arrayText : List Text → Text
  | [] => ['[', ']']
  | item :: items => '[' :: (item ++ elementsText items)

/-- `\"%s\"`: quotes around a string that is not escaped. Where the string holds a quote, a
backslash or a control character, the object is not JSON any more. -/
def rawString (s : Text) : Text := '"' :: (s ++ ['"'])

/-- `%d`: an integer is cut to 32 bits. The setup time of an order and the time of a deal are
printed with it. -/
def intText (i : ℤ) : Text := integerToString (asInt (asUlong i))

/-- `condition ? "true" : "false"` for `%s`. -/
def boolText (b : Bool) : Text := if b then "true" else "false"

/-! ## The handlers -/

/-- `HandleSymbols`. -/
def handleSymbols (b : Broker) (field : Reader) : Text :=
  let filter := field "payload.pattern"
  let rows := b.symbols.filter fun s =>
    field "payload.market_watch_only" ≠ "true".toList || s.inMarketWatch
  let names := (rows.map (·.name)).filter fun name =>
    name ≠ [] && (filter = [] || (find filter name).isSome)
  objectText [("count", integerToString rows.length),
    ("symbols", arrayText (names.map fun name => rawString (jsonEscape name)))]

/-- The symbol that a query names. -/
def querySymbol (field : Reader) : Text :=
  if field "payload.symbol" = [] then field "payload.instrument" else field "payload.symbol"

/-- `{"error":"..."}`. -/
def errorObject (code : Text) : Text := objectText [("error", rawString code)]

/-- The format of `HandleSymbol`. -/
def symbolText (sym : Text) (s : SymbolRow) : Text :=
  objectText [("symbol", rawString sym), ("description", rawString s.description),
    ("path", rawString s.path), ("currency", rawString s.currencyBase),
    ("digits", intText s.digits), ("point", doubleToString s.point 10),
    ("trade_contract_size", doubleToString s.tradeContractSize 2),
    ("volume_min", doubleToString s.volumeMin 2), ("volume_max", doubleToString s.volumeMax 2),
    ("volume_step", doubleToString s.volumeStep 2), ("swap_long", doubleToString s.swapLong 5),
    ("swap_short", doubleToString s.swapShort 5),
    ("margin_initial", doubleToString s.marginInitial 4),
    ("margin_maintenance", doubleToString s.marginMaintenance 4),
    ("trade_mode", intText s.tradeMode), ("trade_allowed", boolText (s.tradeMode ≠ 0)),
    ("bid", doubleToString s.bid s.digits), ("ask", doubleToString s.ask s.digits),
    ("spread", intText s.spread), ("session_deals", integerToString s.sessionDeals),
    ("session_buy_orders", integerToString s.sessionBuyOrders),
    ("session_sell_orders", integerToString s.sessionSellOrders),
    ("volume", integerToString s.volume)]

/-- `HandleSymbol`. -/
def handleSymbol (b : Broker) (field : Reader) : Text :=
  let sym := querySymbol field
  if sym = [] then errorObject "missing_symbol"
  else if b.symbols.all (·.name ≠ sym) then errorObject "symbol_select_failed"
  else symbolText sym (b.symbolInfo sym)

/-- The format of a position; `digits` are those of its symbol. -/
def positionText (digits : ℕ) (p : PositionRow) : Text :=
  objectText [("ticket", ticketText p.ticket), ("symbol", rawString p.symbol),
    ("magic", integerToString p.magic),
    ("side", rawString (if p.type = .buy then "buy" else "sell")),
    ("volume", doubleToString p.volume 2), ("price_open", doubleToString p.priceOpen digits),
    ("price_current", doubleToString p.priceCurrent digits), ("sl", doubleToString p.sl 5),
    ("tp", doubleToString p.tp 5), ("profit", doubleToString p.profit 2),
    ("swap", doubleToString p.swap 2), ("comment", rawString (jsonEscape p.comment)),
    ("time", intText p.time)]

/-- `HandlePositions`. -/
def handlePositions (b : Broker) (_field : Reader) : Text :=
  objectText [("count", integerToString b.positions.length),
    ("positions", arrayText ((b.positions.filter (·.ticket ≠ 0)).map fun p =>
      positionText (b.symbolInfo p.symbol).digits p))]

/-- The name of the type of a pending order. -/
def orderTypeText : Option OrderType → Text
  | some .buy => "buy_market"
  | some .sell => "sell_market"
  | some .buyLimit => "buy_limit"
  | some .sellLimit => "sell_limit"
  | some .buyStop => "buy_stop"
  | some .sellStop => "sell_stop"
  | none => "other"

/-- The format of a pending order. -/
def orderText (o : OrderRow) : Text :=
  objectText [("ticket", ticketText o.ticket), ("symbol", rawString o.symbol),
    ("magic", integerToString o.magic), ("type", rawString (orderTypeText o.type)),
    ("state", intText o.state), ("volume_initial", doubleToString o.volumeInitial 2),
    ("volume_current", doubleToString o.volumeCurrent 2), ("price", doubleToString o.priceOpen 5),
    ("sl", doubleToString o.sl 5), ("tp", doubleToString o.tp 5),
    ("comment", rawString (jsonEscape o.comment)), ("setup_time", intText o.timeSetup)]

/-- `HandleOrders`. -/
def handleOrders (b : Broker) (_field : Reader) : Text :=
  objectText [("count", integerToString b.orders.length),
    ("orders", arrayText ((b.orders.filter (·.ticket ≠ 0)).map orderText))]

/-- The name of the type of a deal. -/
def dealTypeText : DealType → Text
  | .sell => "sell"
  | .balance => "balance"
  | _ => "buy"

/-- The format of a deal. -/
def dealText (d : DealRow) : Text :=
  objectText [("ticket", ticketText d.ticket), ("order", integerToString d.order),
    ("position_id", integerToString d.positionId), ("symbol", rawString d.symbol),
    ("entry", rawString (if d.entry = .inOut then "inout" else "in")),
    ("type", rawString (dealTypeText d.type)),
    ("volume", doubleToString d.volume 2), ("price", doubleToString d.price 5),
    ("profit", doubleToString d.profit 2), ("commission", doubleToString d.commission 2),
    ("swap", doubleToString d.swap 2), ("time", intText d.time)]

/-- The deals that `HandleHistory` answers with: those of the range that are no exits, newest
first, up to the limit. The times of the command are taken for seconds. -/
def historyDeals (b : Broker) (field : Reader) : List DealRow :=
  let start := stringToInteger (field "payload.from")
  let stop := stringToInteger (field "payload.to")
  let limit := asInt (asUlong (stringToInteger (field "payload.limit")))
  let start := if start = 0 then b.now - 86400 else start
  let stop := if stop = 0 then b.now else stop
  let limit := if limit ≤ 0 ∨ 5000 < limit then 500 else limit
  let selected := b.deals.filter fun d => start ≤ d.time && d.time ≤ stop
  (selected.filter fun d => d.ticket ≠ 0 && d.entry ≠ .out).take limit.toNat

/-- `HandleHistory`. -/
def handleHistory (b : Broker) (field : Reader) : Text :=
  let deals := historyDeals b field
  objectText [("count", integerToString deals.length), ("history", arrayText (deals.map dealText))]

/-- `HandleQuote`.  `high` and `low` are the ask and the bid once more. -/
def handleQuote (b : Broker) (field : Reader) : Text :=
  let sym := querySymbol field
  let s := b.symbolInfo sym
  if sym = [] then errorObject "missing_symbol"
  else
    objectText [("symbol", rawString sym), ("digits", intText s.digits),
      ("bid", doubleToString s.bid s.digits), ("ask", doubleToString s.ask s.digits),
      ("spread", intText s.spread), ("time", intText b.now), ("volume", integerToString s.volume),
      ("high", doubleToString s.ask s.digits), ("low", doubleToString s.bid s.digits)]

/-- `HandleAccount`. -/
def handleAccount (b : Broker) (_field : Reader) : Text :=
  let a := b.account
  objectText [("login", integerToString a.login), ("server", rawString a.server),
    ("currency", rawString a.currency), ("name", rawString a.name),
    ("company", rawString a.company), ("leverage", integerToString a.leverage),
    ("trade_allowed", boolText a.tradeAllowed), ("balance", doubleToString a.balance 2),
    ("equity", doubleToString a.equity 2), ("margin", doubleToString a.margin 2),
    ("margin_free", doubleToString a.marginFree 2),
    ("margin_level", doubleToString a.marginLevel 2), ("profit", doubleToString a.profit 2)]

/-- The query handlers over a terminal. -/
def queryHandlers (b : Broker) : QueryHandlers where
  symbols := handleSymbols b
  symbol := handleSymbol b
  positions := handlePositions b
  orders := handleOrders b
  history := handleHistory b
  quote := handleQuote b
  account := handleAccount b

end AkronSlot.Mql5
