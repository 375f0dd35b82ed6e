import AkronSlot.Slot.Accounts
import AkronSlot.Slot.Frames
import AkronSlot.Slot.Mt5Connector

/-!
# The write routes of the trading API (`api/trading.ts`)

The body schemas and the routes that place, close and modify.  A body that a
schema accepts is a value of a type that says what was checked: a quantity is a
positive number, a modification names at least one level.

## Numbers

Numbers are what `JSON.parse` leaves of a numeral.  `1e400` is accepted as an
infinity and `1e-400` refused as zero, and both matter further on: an infinity
is printed as `null` when the command is sent.

## Parsing

A schema is a function from JSON to an optional value. A body that it refuses gets one answer,
so the reasons of zod are not kept.

## Main Definitions

* `PlaceOrder`, `ClosePosition`, `ModifyLevels` — accepted bodies
* `resolveAccountRef`
* `postOrder`, `postClose`, `patchPosition`, `patchOrder`, `deleteOrder`
-/

namespace AkronSlot.Slot

open Wire

/-! ## Schemas -/

/-- `z.number()` on what `JSON.parse` makes of a numeral: the nearest double, or
an infinity where there is none.  Only `NaN` is refused, and no text is parsed
to that. -/
def numberValue (v : Json) : Option JsNumber := (asNumber v).map fun n => JsNumber.ofRat n.value

/-- A number that `z.number().positive()` accepts. -/
def PosNumber := { x : JsNumber // x.Positive }

def positiveNumber (v : Json) : Option PosNumber :=
  (numberValue v).bind fun x => if h : x.Positive then some ⟨x, h⟩ else none

/-- `z.number().nullable()`. -/
def nullableNumber : Json → Option (Option JsNumber)
  | .null => some none
  | v => (numberValue v).map some

/-- `z.string().min(1)`. -/
def nonEmptyString (v : Json) : Option { s : Text // s ≠ [] } :=
  (asString v).bind fun s => if h : s ≠ [] then some ⟨s, h⟩ else none

/-- `z.string().max(64)`. -/
def commentString (v : Json) : Option Text :=
  (asString v).bind fun s => if utf16Length s ≤ 64 then some s else none

def sideEnum (v : Json) : Option Side :=
  (asString v).bind fun s =>
    if s = "buy" then some .buy else if s = "sell" then some .sell else none

def kindEnum (v : Json) : Option OrderKind :=
  (asString v).bind fun s =>
    if s = "market" then some .market
    else if s = "limit" then some .limit
    else if s = "stop" then some .stop
    else none

/-- `req.body ?? {}` as an object. -/
def bodyObject (body : Option Json) : Option Json :=
  match body with
  | none | some .null => some (.obj [])
  | some v => (asObject v).map .obj

/-- A body that `PlaceOrderSchema` accepts, as far as the route reads it. -/
structure PlaceOrder where
  side : Side
  instrument : { s : Text // s ≠ [] }
  qty : PosNumber
  type : OrderKind
  price : Option PosNumber
  sl : Option PosNumber
  tp : Option PosNumber

/-- `PlaceOrderSchema.parse`. -/
def PlaceOrder.parse (body : Option Json) : Option PlaceOrder := do
  let v ← bodyObject body
  let side ← required sideEnum v "side"
  let instrument ← required nonEmptyString v "instrument"
  let qty ← required positiveNumber v "qty"
  let type ← optional kindEnum v "type"
  let price ← optional positiveNumber v "price"
  let sl ← optional positiveNumber v "sl"
  let tp ← optional positiveNumber v "tp"
  let _ ← optional asString v "client_order_id"
  let _ ← optional commentString v "comment"
  return { side, instrument, qty, type := type.getD .market, price, sl, tp }

/-- The order that the route hands to the connector. -/
def PlaceOrder.toNewOrder (o : PlaceOrder) : NewOrder where
  instrument := o.instrument
  side := o.side
  qty := o.qty.1
  type := o.type
  price := o.price.map (·.1)
  sl := o.sl.map (·.1)
  tp := o.tp.map (·.1)

/-- The body of a market order for two lots. -/
def marketBody (side : Side) : Json :=
  .obj [("side", .str side.text), ("instrument", .str "EURUSD"), ("qty", .num (Numeral.ofNat 2))]

theorem two_positive : (JsNumber.ofNat 2 JsNumber.two_short).Positive := by
  simp [JsNumber.Positive, JsNumber.Exceeds, JsNumber.ofNat]

/-- Two lots. -/
def twoLotQty : PosNumber := ⟨JsNumber.ofNat 2 JsNumber.two_short, two_positive⟩

theorem positiveNumber_two : positiveNumber (.num (Numeral.ofNat 2)) = some twoLotQty := by
  have hvalue : numberValue (.num (Numeral.ofNat 2)) = some twoLotQty.1 := by
    rw [numberValue, asNumber, Option.map_some, Numeral.value_ofNat,
      JsNumber.ofRat_natCast JsNumber.two_short]
    rfl
  rw [positiveNumber, hvalue, Option.bind_some]
  exact dif_pos two_positive

/-- The order of that body. -/
def marketOrder (side : Side) : PlaceOrder where
  side := side
  instrument := ⟨"EURUSD", by decide⟩
  qty := twoLotQty
  type := .market
  price := none
  sl := none
  tp := none

theorem parse_marketBody (side : Side) :
    PlaceOrder.parse (some (marketBody side)) = some (marketOrder side) := by
  have hbody : bodyObject (some (marketBody side)) = some (marketBody side) := rfl
  have hside : required sideEnum (marketBody side) "side" = some side := by cases side <;> rfl
  have hinstrument : required nonEmptyString (marketBody side) "instrument" =
      some (marketOrder side).instrument := rfl
  have hqty : required positiveNumber (marketBody side) "qty" = some twoLotQty := positiveNumber_two
  have htype : optional kindEnum (marketBody side) "type" = some none := rfl
  have hprice : optional positiveNumber (marketBody side) "price" = some none := rfl
  have hsl : optional positiveNumber (marketBody side) "sl" = some none := rfl
  have htp : optional positiveNumber (marketBody side) "tp" = some none := rfl
  have hclient : optional asString (marketBody side) "client_order_id" = some none := rfl
  have hcomment : optional commentString (marketBody side) "comment" = some none := rfl
  simp only [PlaceOrder.parse, hbody, Option.bind_eq_bind, Option.bind_some, hside, hinstrument,
    hqty, htype, hprice, hsl, htp, hclient, hcomment]
  rfl

/-- A body that `ClosePositionSchema` accepts. -/
structure ClosePosition where
  volume : Option PosNumber

/-- `ClosePositionSchema.parse`. -/
def ClosePosition.parse (body : Option Json) : Option ClosePosition := do
  let v ← bodyObject body
  let volume ← optional positiveNumber v "volume"
  return { volume }

/-- A body that `ModifyPositionSchema` and `ModifyOrderSchema` accept: the outer
option is presence, the inner one `null`. -/
structure ModifyLevels where
  sl : Option (Option JsNumber)
  tp : Option (Option JsNumber)
  some_given : sl.isSome ∨ tp.isSome

/-- `ModifyPositionSchema.parse` and `ModifyOrderSchema.parse`. -/
def ModifyLevels.parse (body : Option Json) : Option ModifyLevels := do
  let v ← bodyObject body
  let sl ← optional nullableNumber v "sl"
  let tp ← optional nullableNumber v "tp"
  if h : sl.isSome ∨ tp.isSome then some ⟨sl, tp, h⟩ else none

/-! ## Routes -/

/-- The problems a route answers with. -/
inductive Problem where
  | validation
  | noActiveAccount
  | riskBlocked (detail : Text)
  deriving DecidableEq, Repr

/-- What the routes work with: the accounts, the accounts the connector has
registered by their reference, and the command channel. -/
structure Deps where
  tenantId : Text
  connectorId : Text
  accounts : List AccountRow
  registered : Text → Option AccountRecord
  dispatchCommand : DispatchCommand

/-- `${connector.id}-${broker_server}-${broker_login}`. -/
def accountRef (connectorId : Text) (row : AccountRow) : Text :=
  connectorId ++ '-' :: (row.brokerServer ++ '-' :: row.brokerLogin)

/-- `resolveAccountRef`. -/
def resolveAccountRef (deps : Deps) : Except Problem Text :=
  match (listAccounts deps.accounts deps.tenantId).head? with
  | none => .error .noActiveAccount
  | some row =>
      if row.status = .disabled then .error .noActiveAccount
      else .ok (accountRef deps.connectorId row)

/-- The registered account that the trading routes address. -/
def addressedAccount (deps : Deps) : Option AccountRecord :=
  match resolveAccountRef deps with
  | .error _ => none
  | .ok ref => deps.registered ref

/-- A slot with one active account, to run examples with. -/
def sampleDeps : Deps where
  tenantId := "t"
  connectorId := "mt5"
  accounts := [⟨"a", "t", "Demo", "5001", .active, 0⟩]
  registered _ := some sampleRecord
  dispatchCommand _ _ := ⟨false, none, none⟩

theorem sampleDeps_resolve :
    resolveAccountRef sampleDeps =
      .ok (accountRef "mt5" ⟨"a", "t", "Demo", "5001", .active, 0⟩) := by
  simp [resolveAccountRef, listAccounts, sampleDeps]

theorem sampleDeps_account : addressedAccount sampleDeps = some sampleRecord := by
  rw [addressedAccount, sampleDeps_resolve]
  rfl

/-- A `ZodError` is answered as a validation problem. -/
def orInvalid {α : Type} (parsed : Option α) : Except Problem α :=
  match parsed with
  | none => .error .validation
  | some a => .ok a

/-- `POST /v1/orders`. -/
def postOrder (deps : Deps) (clientOrderId : Uuid) (body : Option Json) :
    Except Problem OrderResult := do
  let body ← orInvalid (PlaceOrder.parse body)
  let ref ← resolveAccountRef deps
  return openTrade deps.dispatchCommand (deps.registered ref) clientOrderId body.toNewOrder

/-- `POST /v1/positions/:id/close`. -/
def postClose (deps : Deps) (clientOrderId : Uuid) (id : Text) (body : Option Json) :
    Except Problem OrderResult := do
  let body ← orInvalid (ClosePosition.parse body)
  let ref ← resolveAccountRef deps
  return closeTrade deps.dispatchCommand (deps.registered ref) clientOrderId id
    (body.volume.map (·.1))

/-- `PATCH /v1/positions/:id`. -/
def patchPosition (deps : Deps) (id : Text) (body : Option Json) :
    Except Problem ManageResult := do
  let body ← orInvalid (ModifyLevels.parse body)
  let ref ← resolveAccountRef deps
  return modifyPosition deps.dispatchCommand (deps.registered ref) id body.sl.join body.tp.join

/-- `PATCH /v1/orders/:id`. -/
def patchOrder (deps : Deps) (id : Text) (body : Option Json) : Except Problem ManageResult := do
  let body ← orInvalid (ModifyLevels.parse body)
  let ref ← resolveAccountRef deps
  return modifyOrder deps.dispatchCommand (deps.registered ref) id body.sl.join body.tp.join

/-- `DELETE /v1/orders/:id`. -/
def deleteOrder (deps : Deps) (id : Text) : Except Problem ManageResult := do
  let ref ← resolveAccountRef deps
  return cancelOrder deps.dispatchCommand (deps.registered ref) id

end AkronSlot.Slot
