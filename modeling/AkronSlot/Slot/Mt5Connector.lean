import AkronSlot.Slot.CommandClient
import AkronSlot.Wire.Double

/-!
# The trade calls of `Mt5Connector` (`connectors/mt5.ts`)

`openTrade`, `closeTrade`, `modifyOrder`, `modifyPosition` and `cancelOrder`: the
command each of them dispatches and what it makes of the answer.  The command
channel is a parameter, `dispatchCommand`; it settles every command, so the
`catch` branches of the source, which only a rejected promise reaches, are those
of `mt5Query`.

## Answers and what is made of them

The connector does not see MQL5: it sees a `CommandResult`. Whether that result is the broker's
answer is a matter of the bridge modules; here the channel is any function from commands to
results, so that what is proved of a call holds whatever it is told. `TradeCall` puts the five
calls into one type, with the payload of each, for the statements that are about all of them.

## Main Definitions

* `NewOrder`, `OrderResult`, `ManageResult`
* `parseResultJson`, `mt5Query`
* `openTrade`, `closeTrade`, `modifyOrder`, `modifyPosition`, `cancelOrder`
* `TradeCall` — one of the five calls with its arguments
-/

namespace AkronSlot.Slot

open Wire

/-! ## Orders and results -/

inductive Side where
  | buy | sell
  deriving DecidableEq, Repr

def Side.text : Side → Text
  | .buy => "buy"
  | .sell => "sell"

inductive OrderKind where
  | market | limit | stop
  deriving DecidableEq, Repr

def OrderKind.text : OrderKind → Text
  | .market => "market"
  | .limit => "limit"
  | .stop => "stop"

/-- `NewOrder`. -/
structure NewOrder where
  instrument : Text
  side : Side
  qty : JsNumber
  type : OrderKind
  price : Option JsNumber := none
  sl : Option JsNumber := none
  tp : Option JsNumber := none

/-- The account record a trade call finds under its reference. -/
structure AccountRecord where
  brokerServer : Text
  brokerLogin : Text

/-- A registered account to run examples with. -/
def sampleRecord : AccountRecord := ⟨"Demo", "5001"⟩

/-- `OrderResult`. -/
inductive OrderResult where
  | placed (orderId brokerOrderId : Json)
  | failed (reason : Text)

def OrderResult.ok : OrderResult → Bool
  | .placed _ _ => true
  | .failed _ => false

/-- The result of a modification or a cancellation. -/
structure ManageResult where
  ok : Bool
  reason : Option Text := none

/-! ## Reading a result -/

/-- `parseResultJson`: a string is parsed once more, an object is taken as it is, and anything
else reads as the empty object. A text that is no JSON is the empty object too. -/
def parseResultJson : Option Json → Json
  | some (.str s) => (Json.parse s).getD (.obj [])
  | some (.obj ms) => .obj ms
  | some (.arr vs) => .arr vs
  | _ => .obj []

/-- A member that is there and not `null`; the left side of `??`. -/
def member (result : Json) (key : Text) : Option Json :=
  match result.get key with
  | none | some .null => none
  | some v => some v

/-- The command channel: what a dispatched command is answered. -/
abbrev DispatchCommand := Action → Payload → CommandResult

/-- `mt5Query`. -/
def mt5Query (dispatchCommand : DispatchCommand) (action : Action) (payload : Payload) :
    Except Text Json :=
  let r := dispatchCommand action payload
  if r.ok then .ok (parseResultJson r.result) else .error (r.error.getD "mt5_error")

/-- `v !== false`. A member that is absent is not `false`, so that an answer without the key
counts as a success. -/
def notFalse : Option Json → Bool
  | some (.bool false) => false
  | _ => true

/-- `{ ok: result.<key> !== false }`, or the message of what was thrown. -/
def unlessFalse (key : Text) (result : Except Text Json) : ManageResult :=
  match result with
  | .error message => ⟨false, some message⟩
  | .ok .null =>
      ⟨false, some ("Cannot read properties of null (reading '".toList ++ key ++ "')".toList)⟩
  | .ok v => ⟨notFalse (v.get key), none⟩

/-! ## The trade calls -/

/-- A number in a payload: `JSON.stringify` prints an infinity as `null`. -/
def numberScalar (x : JsNumber) : Scalar := x.numeral?.elim .null .num

def openPayload (rec : AccountRecord) (order : NewOrder) : Payload :=
  Payload.ofProperties [("account_id", some (.str rec.brokerLogin)),
    ("instrument", some (.str order.instrument)), ("side", some (.str order.side.text)),
    ("qty", some (numberScalar order.qty)), ("type", some (.str order.type.text)),
    ("price", order.price.map numberScalar), ("sl", order.sl.map numberScalar),
    ("tp", order.tp.map numberScalar)]
    (by simp)

def closePayload (rec : AccountRecord) (positionId : Text) (qty : Option JsNumber) : Payload :=
  Payload.ofProperties [("account_id", some (.str rec.brokerLogin)),
    ("position_id", some (.str positionId)), ("qty", qty.map numberScalar)] (by simp)

/-- A level: a number, or `null`. -/
def levelScalar (level : Option JsNumber) : Scalar := level.elim .null numberScalar

def modifyOrderPayload (rec : AccountRecord) (orderId : Text) (sl tp : Option JsNumber) : Payload :=
  Payload.ofProperties [("account_id", some (.str rec.brokerLogin)),
    ("order_id", some (.str orderId)), ("sl", some (levelScalar sl)),
    ("tp", some (levelScalar tp))] (by simp)

def modifyPositionPayload (rec : AccountRecord) (positionId : Text) (sl tp : Option JsNumber) :
    Payload :=
  Payload.ofProperties [("account_id", some (.str rec.brokerLogin)),
    ("position_id", some (.str positionId)), ("sl", some (levelScalar sl)),
    ("tp", some (levelScalar tp))] (by simp)

def cancelPayload (rec : AccountRecord) (orderId : Text) : Payload :=
  Payload.ofProperties [("account_id", some (.str rec.brokerLogin)),
    ("order_id", some (.str orderId))] (by simp)

section Calls

variable (dispatchCommand : DispatchCommand) (rec : Option AccountRecord)

/-- The broker order id of an order without one in its result. -/
def pendingId (clientOrderId : Uuid) : Json := .str ("pending-".toList ++ clientOrderId.text)

/-- What `openTrade` makes of the answer to its command. Only a frame that is not `ok` is a
failure; the result of the broker is read for a ticket and for nothing else. -/
def openResult (clientOrderId : Uuid) (r : CommandResult) : OrderResult :=
  if r.ok then
    let result := parseResultJson r.result
    .placed ((member result "order_id").getD (.str clientOrderId.text))
      ((member result "broker_order_id").getD
        ((member result "order_id").getD (pendingId clientOrderId)))
  else .failed (r.error.getD "unknown_error")

/-- `openTrade`. -/
def openTrade (clientOrderId : Uuid) (order : NewOrder) : OrderResult :=
  match rec with
  | none => .failed "unknown accountRef"
  | some rec => openResult clientOrderId (dispatchCommand .open_ (openPayload rec order))

/-- `closeTrade`. -/
def closeTrade (clientOrderId : Uuid) (positionId : Text) (qty : Option JsNumber) : OrderResult :=
  match rec with
  | none => .failed "unknown accountRef"
  | some rec =>
      let r := dispatchCommand .close (closePayload rec positionId qty)
      if r.ok then
        let result := parseResultJson r.result
        .placed (.str clientOrderId.text)
          ((member result "broker_order_id").getD
            ((member result "closed_ticket").getD (pendingId clientOrderId)))
      else .failed (r.error.getD "unknown_error")

/-- `modifyOrder`. -/
def modifyOrder (orderId : Text) (sl tp : Option JsNumber) : ManageResult :=
  match rec with
  | none => ⟨false, some "unknown accountRef"⟩
  | some rec =>
      unlessFalse "modified" (mt5Query dispatchCommand .sltp (modifyOrderPayload rec orderId sl tp))

/-- `modifyPosition`. -/
def modifyPosition (positionId : Text) (sl tp : Option JsNumber) : ManageResult :=
  match rec with
  | none => ⟨false, some "unknown accountRef"⟩
  | some rec =>
      unlessFalse "modified"
        (mt5Query dispatchCommand .modifyPosition (modifyPositionPayload rec positionId sl tp))

/-- `cancelOrder`. -/
def cancelOrder (orderId : Text) : ManageResult :=
  match rec with
  | none => ⟨false, some "unknown accountRef"⟩
  | some rec =>
      unlessFalse "cancelled" (mt5Query dispatchCommand .cancel (cancelPayload rec orderId))

end Calls

/-! ## The five calls together -/

/-- A trade call with its arguments. -/
inductive TradeCall where
  | openTrade (order : NewOrder)
  | closeTrade (positionId : Text) (qty : Option JsNumber)
  | modifyOrder (orderId : Text) (sl tp : Option JsNumber)
  | modifyPosition (positionId : Text) (sl tp : Option JsNumber)
  | cancelOrder (orderId : Text)

namespace TradeCall

/-- The action a call dispatches. -/
def action : TradeCall → Action
  | openTrade _ => .open_
  | closeTrade _ _ => .close
  | modifyOrder _ _ _ => .sltp
  | modifyPosition _ _ _ => .modifyPosition
  | cancelOrder _ => .cancel

/-- The payload a call dispatches. -/
def payload (rec : AccountRecord) : TradeCall → Payload
  | openTrade order => openPayload rec order
  | closeTrade positionId qty => closePayload rec positionId qty
  | modifyOrder orderId sl tp => modifyOrderPayload rec orderId sl tp
  | modifyPosition positionId sl tp => modifyPositionPayload rec positionId sl tp
  | cancelOrder orderId => cancelPayload rec orderId

/-- Whether the connector answers the call with `ok: true`. -/
def reportsOk (dispatchCommand : DispatchCommand) (rec : Option AccountRecord)
    (clientOrderId : Uuid) : TradeCall → Bool
  | openTrade order => (Slot.openTrade dispatchCommand rec clientOrderId order).ok
  | closeTrade positionId qty =>
      (Slot.closeTrade dispatchCommand rec clientOrderId positionId qty).ok
  | modifyOrder orderId sl tp => (Slot.modifyOrder dispatchCommand rec orderId sl tp).ok
  | modifyPosition positionId sl tp =>
      (Slot.modifyPosition dispatchCommand rec positionId sl tp).ok
  | cancelOrder orderId => (Slot.cancelOrder dispatchCommand rec orderId).ok

end TradeCall

end AkronSlot.Slot
