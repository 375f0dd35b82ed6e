import AkronSlot.Slot.Mt5Connector

/-!
# The query calls of `Mt5Connector`

`symbols`, `quote`, `getPositions`, `getAccount`, `getOrders` and `getHistory`: the command
each of them dispatches and what it makes of the answer.  The types of `base.ts` are casts:
an order or a deal is the object that was sent, and a property that is not in it is
`undefined`.

## Defaults

A getter reads a member with `??`, which puts a default in the place of what is absent or
`null`. Only `property` can throw: a value that is `null` has no properties. So an answer of any
shape but that one becomes a result, and the difference between a broker without positions and a
query that failed has to be looked for behind these functions.

## Main Definitions

* `Quote`, `SymbolSpec`
* `symbols`, `quote`, `getPositions`, `getAccount`, `getOrders`, `getHistory`
-/

namespace AkronSlot.Slot

open Wire

/-! ## Types -/

/-- `Quote`. -/
structure Quote where
  symbol : Json
  bid : Json
  ask : Json
  ts : Json

/-- `SymbolSpec`; a `symbol` that is `undefined` is none. -/
structure SymbolSpec where
  symbol : Option Json
  digits : Json
  minLot : Json
  maxLot : Json
  lotStep : Json
  currency : Json

/-- `SymbolsQueryOpts`. -/
structure SymbolsQueryOpts where
  pattern : Option Text := none
  marketWatchOnly : Option Bool := none

/-- `HistoryQueryOpts`. -/
structure HistoryQueryOpts where
  start : Option Numeral := none
  stop : Option Numeral := none
  limit : Option Numeral := none

/-! ## Properties -/

/-- `v.<key>`, which throws for `null`. A number or a text has properties as well, only none of
those that are asked for. -/
def property (v : Json) (key : Text) : Except Text (Option Json) :=
  match v with
  | .null => .error ("Cannot read properties of null (reading '".toList ++ key ++ "')".toList)
  | v => .ok (v.get key)

/-- `v.<key> ?? default`. -/
def propertyOr (v : Json) (key : Text) (default : Json) : Except Text Json :=
  (property v key).map fun found =>
    match found with
    | none | some .null => default
    | some w => w

/-- The numeral `0.01`. -/
def hundredth : Numeral := Numeral.fixed 2 (1 / 100)

/-- One element of the answer to `symbols`. MQL5 sends the names alone, and a name has none of the
properties that are read. -/
def symbolSpec (s : Json) : Except Text SymbolSpec := do
  let symbol ← property s "symbol"
  let digits ← propertyOr s "digits" (.num (Numeral.ofNat 5))
  let minLot ← propertyOr s "min_lot" (.num hundredth)
  let maxLot ← propertyOr s "max_lot" (.num (Numeral.ofNat 100))
  let lotStep ← propertyOr s "lot_step" (.num hundredth)
  let currency ← propertyOr s "currency" (.str "USD")
  return ⟨symbol, digits, minLot, maxLot, lotStep, currency⟩

/-! ## The calls -/

namespace Mt5Connector

def symbolsPayload (opts : SymbolsQueryOpts) : Payload :=
  Payload.ofProperties [("pattern", some (.str (opts.pattern.getD []))),
    ("market_watch_only", some (.bool (opts.marketWatchOnly.getD false)))] (by simp)

def quotePayload (symbol : Text) : Payload :=
  Payload.ofProperties [("symbol", some (.str symbol))] (List.nodup_singleton _)

/-- The payload of `getPositions`, `getAccount` and `getOrders`. -/
def ordersPayload (rec : Option AccountRecord) : Payload :=
  Payload.ofProperties [("account_id", rec.map fun r => .str r.brokerLogin)]
    (List.nodup_singleton _)

def historyPayload (rec : Option AccountRecord) (opts : HistoryQueryOpts) : Payload :=
  Payload.ofProperties [("account_id", rec.map fun r => .str r.brokerLogin),
    ("from", opts.start.map .num), ("to", opts.stop.map .num), ("limit", opts.limit.map .num)]
    (by simp)

section Calls

variable (dispatchCommand : DispatchCommand) (rec : Option AccountRecord)

/-- `symbols`. -/
def symbols (opts : SymbolsQueryOpts) : Except Text (List SymbolSpec) := do
  let result ← mt5Query dispatchCommand .symbols (symbolsPayload opts)
  match ← propertyOr result "symbols" (.arr []) with
  | .arr syms => syms.mapM symbolSpec
  | _ => .error "syms.map is not a function"

/-- `quote`; `now` is `Date.now()`. -/
def quote (now : Numeral) (symbol : Text) : Except Text Quote := do
  let result ← mt5Query dispatchCommand .quote (quotePayload symbol)
  let name ← propertyOr result "symbol" (.str symbol)
  let bid ← propertyOr result "bid" (.num (Numeral.ofNat 0))
  let ask ← propertyOr result "ask" (.num (Numeral.ofNat 0))
  let ts ← propertyOr result "ts" (.num now)
  return ⟨name, bid, ask, ts⟩

/-- `getPositions`. -/
def getPositions : Except Text Json := do
  let result ← mt5Query dispatchCommand .positions (ordersPayload rec)
  propertyOr result "positions" (.arr [])

/-- `getAccount`.  Without a record under the reference nothing is asked. -/
def getAccount (accountRef : Text) : Except Text Json :=
  match rec with
  | none => .ok (.obj [("login", .str accountRef)])
  | some rec => mt5Query dispatchCommand .account (ordersPayload (some rec))

/-- `getOrders`. -/
def getOrders : Except Text Json := do
  let result ← mt5Query dispatchCommand .orders (ordersPayload rec)
  propertyOr result "orders" (.arr [])

/-- `getHistory`. -/
def getHistory (opts : HistoryQueryOpts) : Except Text Json := do
  let result ← mt5Query dispatchCommand .history (historyPayload rec opts)
  propertyOr result "history" (.arr [])

end Calls

end Mt5Connector

end AkronSlot.Slot
