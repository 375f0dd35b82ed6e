import AkronSlot.Wire.Json

/-!
# The frame schemas of the TCP server (`mt5-tcp-server.ts`)

`AnyFrame` is a union of object schemas: the first one that accepts a value
decides, members that a schema does not name are dropped, and an optional
member may be absent but not `null`.  `anyFrame` is `AnyFrame.safeParse`.

## Schemas as partial functions

A schema is a function from JSON to an option of what it yields, and `do` puts the members
together. That a schema drops what it does not name is then a matter of the type: `FillData` has
no login, so no function behind `anyFrame` can look at one. A union takes the first success.

## Main Definitions

* `FillData`, `OrderStateData`, `PositionData`
* `Frame`, `anyFrame`
-/

namespace AkronSlot.Slot

open Wire

/-! ## Schemas of members -/

def asString : Json → Option Text
  | .str s => some s
  | _ => none

def asNumber : Json → Option Numeral
  | .num n => some n
  | _ => none

def asBoolean : Json → Option Bool
  | .bool b => some b
  | _ => none

def asObject : Json → Option (List (Text × Json))
  | .obj ms => some ms
  | _ => none

/-- A member that must be there. `null` is there, and it is up to the schema of the member to
refuse it. -/
def required {α : Type} (schema : Json → Option α) (v : Json) (key : Text) : Option α :=
  (v.get key).bind schema

/-- A member that may be absent. The outer option is the success of the schema, the inner one the
presence of the member. -/
def optional {α : Type} (schema : Json → Option α) (v : Json) (key : Text) : Option (Option α) :=
  match v.get key with
  | none => some none
  | some w => (schema w).map some

/-- A member with one admissible string. -/
def literal (v : Json) (key value : Text) : Option Unit :=
  if required asString v key = some value then some () else none

/-! ## Frames -/

structure FillData where
  brokerOrderId : Option Text
  deal : Option Text
  symbol : Text
  qty : Option Numeral
  price : Option Numeral
  volume : Option Numeral

structure OrderStateData where
  orderId : Option Text
  brokerOrderId : Option Text
  status : Text

structure PositionData where
  orderId : Option Text
  symbol : Option Text

/-- What a schema of the union yields. -/
inductive Frame where
  | fill (data : FillData) (ts : Option Numeral)
  | orderState (data : OrderStateData) (ts : Option Numeral)
  | position (data : PositionData) (ts : Option Numeral)
  | account (data : Option (List (Text × Json))) (ts : Option Numeral)
  | startup (ts : Option Numeral)
  | response (id : Text) (ok : Bool) (result : Option Json) (error : Option Text)

def fillData (v : Json) : Option FillData := do
  let _ ← asObject v
  let brokerOrderId ← optional asString v "broker_order_id"
  let deal ← optional asString v "deal"
  let symbol ← required asString v "symbol"
  let qty ← optional asNumber v "qty"
  let price ← optional asNumber v "price"
  let volume ← optional asNumber v "volume"
  return { brokerOrderId, deal, symbol, qty, price, volume }

def orderStateData (v : Json) : Option OrderStateData := do
  let _ ← asObject v
  let orderId ← optional asString v "order_id"
  let brokerOrderId ← optional asString v "broker_order_id"
  let status ← required asString v "status"
  return { orderId, brokerOrderId, status }

def positionData (v : Json) : Option PositionData := do
  let _ ← asObject v
  let orderId ← optional asString v "order_id"
  let symbol ← optional asString v "symbol"
  return { orderId, symbol }

/-- The envelope of the event schemas. -/
def eventOf {α : Type} (kind : Text) (data : Json → Option α) (v : Json) :
    Option (α × Option Numeral) := do
  literal v "type" "event"
  literal v "kind" kind
  let d ← data v
  let ts ← optional asNumber v "ts"
  return (d, ts)

def fillEvent (v : Json) : Option Frame :=
  (eventOf "fill" (fun v => required fillData v "data") v).map fun e => .fill e.1 e.2

def orderStateEvent (v : Json) : Option Frame :=
  (eventOf "order_state" (fun v => required orderStateData v "data") v).map fun e =>
    .orderState e.1 e.2

def positionEvent (v : Json) : Option Frame :=
  (eventOf "position" (fun v => required positionData v "data") v).map fun e =>
    .position e.1 e.2

def accountEvent (v : Json) : Option Frame :=
  (eventOf "account" (fun v => optional asObject v "data") v).map fun e => .account e.1 e.2

def startupEvent (v : Json) : Option Frame :=
  (eventOf "startup" (fun _ => some ()) v).map fun e => .startup e.2

/-- `ResponseFrame`. -/
def responseFrameSchema (v : Json) : Option Frame := do
  literal v "type" "response"
  let id ← required asString v "id"
  let ok ← required asBoolean v "ok"
  let error ← optional asString v "error"
  return .response id ok (v.get "result") error

/-- `AnyFrame.safeParse`. Every event has its kind as a literal, so that at most one of the
schemas accepts a value and their order does not matter. -/
def anyFrame (v : Json) : Option Frame :=
  [fillEvent, orderStateEvent, positionEvent, accountEvent, startupEvent,
    responseFrameSchema].findSome? fun schema => schema v

/-- The kind of an event frame. -/
def Frame.kind : Frame → Option Text
  | .fill _ _ => some "fill"
  | .orderState _ _ => some "order_state"
  | .position _ _ => some "position"
  | .account _ _ => some "account"
  | .startup _ => some "startup"
  | .response _ _ _ _ => none

end AkronSlot.Slot
