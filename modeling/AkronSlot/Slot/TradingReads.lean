import AkronSlot.Slot.AccountRecords
import AkronSlot.Slot.Mt5Queries
import AkronSlot.Slot.Trading
import AkronSlot.Wire.JsNumber

/-!
# Two reads of the trading API

`GET /v1/orders/:id` looks for a ticket among the pending orders, and `GET /v1/fills`
asks for a range of the history.  Both run inside `withBrokerErrors`, which turns
whatever is thrown there into a 502, its own 404 included.

## What is thrown inside

`withBrokerErrors` takes everything that is thrown in its body for a failure of the broker. The
body of `GET /v1/orders/:id` throws a `ProblemError` of its own, with the status 404, and it is
caught there as well: the caller gets a 502 with the title of the 404 as its message. `Thrown`
has both kinds, so that the wrapper can be seen to treat them alike.

## Main Definitions

* `ProblemError`, `withBrokerErrors`
* `findOrder`, `getOrder` — `GET /v1/orders/:id`
* `QueryFills`, `getFills` — `GET /v1/fills`
-/

namespace AkronSlot.Slot

open Wire Mt5Connector

/-! ## Problems -/

/-- `ProblemCode`, as far as these routes use it. -/
inductive ProblemCode where
  | badRequest
  | notFound
  | riskBlocked
  | brokerDown
  deriving DecidableEq, Repr

/-- `ProblemError`. -/
structure ProblemError where
  status : ℕ
  code : ProblemCode
  title : Text
  detail : Text

/-- Its message. -/
def ProblemError.message (e : ProblemError) : Text := e.title

/-- What is thrown inside a route: an `Error`, or a `ProblemError`. -/
inductive Thrown where
  | error (message : Text)
  | problem (e : ProblemError)

/-- `(e as Error).message`. -/
def Thrown.message : Thrown → Text
  | .error message => message
  | .problem e => e.message

/-- The problem that `withBrokerErrors` makes of a message. -/
def brokerDown (msg : Text) : ProblemError where
  status := 502
  code := .brokerDown
  title :=
    if (find "mt5_disconnected".toList msg).isSome ||
        (find "mt5_socket_not_connected".toList msg).isSome ||
        (find "mt5_timeout".toList msg).isSome then "Broker unreachable"
    else "Broker dispatch failed"
  detail := msg

/-- `withBrokerErrors`. Whatever was thrown, the answer is the problem of a broker that is down,
with the message of what was thrown. -/
def withBrokerErrors {α : Type} (result : Except Thrown α) : Except ProblemError α :=
  result.mapError fun e => brokerDown e.message

/-- What a read is refused with: before the connector is asked, or by
`withBrokerErrors`. -/
inductive ReadProblem where
  | refused (p : Problem)
  | broker (e : ProblemError)

/-- The status of the answer. -/
def ReadProblem.status : ReadProblem → ℕ
  | .refused .validation => 400
  | .refused .noActiveAccount => 404
  | .refused (.riskBlocked _) => 409
  | .broker e => e.status

/-- The code of the answer. -/
def ReadProblem.code : ReadProblem → ProblemCode
  | .refused .validation => .badRequest
  | .refused .noActiveAccount => .notFound
  | .refused (.riskBlocked _) => .riskBlocked
  | .broker e => e.code

theorem addressedAccount_eq {deps : Deps} {ref : Text} (href : resolveAccountRef deps = .ok ref) :
    addressedAccount deps = deps.registered ref := by
  rw [addressedAccount, href]

/-! ## `GET /v1/orders/:id` -/

/-- The integer that a numeral without fraction and exponent writes. -/
def integerOf (n : Numeral) : Option ℤ :=
  if n.frac = [] ∧ n.exp = none then
    some ((if n.neg then -1 else 1) * (digitsValue n.whole.digits : ℤ))
  else none

/-- The 404 of a ticket that is not pending. -/
def orderNotFound (orderId : Text) : ProblemError where
  status := 404
  code := .notFound
  title := "Order not found"
  detail := "no pending order with ticket=".toList ++ orderId

section Orders

-- `String(n)` of a number that is not written as an integer
variable (otherText : Numeral → Text)

/-- `String(n)` of a number that was parsed. -/
def numberString (n : Numeral) : Text :=
  match integerOf n with
  | some i => if i.natAbs < 10 ^ 21 then stringOfInteger i else otherText n
  | none => otherText n

/-- `String(o.ticket)`. -/
def ticketString (ticket : Option Json) : Text :=
  (ticket.map (stringOf (numberString otherText))).getD "undefined"

/-- `orders.find(...)`. An element that is `null` throws when its ticket is read, if no earlier
element was the one. -/
def findOrder (orderId : Text) : List Json → Except Text (Option Json)
  | [] => .ok none
  | o :: orders => do
      let ticket ← property o "ticket"
      if ticketString otherText ticket = orderId then return some o
      else findOrder orderId orders

/-- What the route runs inside `withBrokerErrors`; `reply` is what `getOrders` gave. -/
def orderReply (orderId : Text) (reply : Except Text Json) : Except Thrown Json := do
  match ← reply.mapError Thrown.error with
  | .arr orders =>
      let found ← (findOrder otherText orderId orders).mapError Thrown.error
      if Json.truthy found then return found.getD .null
      else .error (.problem (orderNotFound orderId))
  | _ => .error (.error "orders.find is not a function")

/-- `GET /v1/orders/:id`. -/
def getOrder (deps : Deps) (orderId : Text) : Except ReadProblem Json := do
  let ref ← (resolveAccountRef deps).mapError ReadProblem.refused
  (withBrokerErrors (orderReply otherText orderId
    (getOrders deps.dispatchCommand (deps.registered ref)))).mapError ReadProblem.broker

end Orders

/-! ## `GET /v1/fills` -/

/-- The numbers of a query, after `z.coerce`. The texts that they were coerced from are left out.
-/
structure QueryFills where
  start : Option Numeral
  stop : Option Numeral
  limit : Option Numeral

/-- `.int()`. -/
def IsInteger (n : Numeral) : Prop := n.value.den = 1

instance (n : Numeral) : Decidable (IsInteger n) := inferInstanceAs (Decidable (_ = 1))

/-- `QueryFillsSchema`. -/
structure QueryFills.Valid (q : QueryFills) : Prop where
  start : ∀ n ∈ q.start, IsInteger n ∧ 0 ≤ n.value
  stop : ∀ n ∈ q.stop, IsInteger n ∧ 0 ≤ n.value
  limit : ∀ n ∈ q.limit, IsInteger n ∧ 0 < n.value ∧ n.value ≤ 1000

instance (q : QueryFills) : Decidable q.Valid :=
  decidable_of_iff ((∀ n ∈ q.start, IsInteger n ∧ 0 ≤ n.value) ∧
    (∀ n ∈ q.stop, IsInteger n ∧ 0 ≤ n.value) ∧
    ∀ n ∈ q.limit, IsInteger n ∧ 0 < n.value ∧ n.value ≤ 1000)
    ⟨fun ⟨start, stop, limit⟩ => ⟨start, stop, limit⟩,
      fun ⟨start, stop, limit⟩ => ⟨start, stop, limit⟩⟩

/-- `deals.length`. -/
def lengthOf : Json → Except Text (Option Json)
  | .arr vs => .ok (some (.num (Numeral.ofNat vs.length)))
  | .str s => .ok (some (.num (Numeral.ofNat (utf16Length s))))
  | v => property v "length"

/-- The answer of `GET /v1/fills`. -/
structure FillsReply where
  count : Option Json
  history : Json

/-- What the route runs inside `withBrokerErrors`; `history` is what `getHistory` gave. -/
def fillsReply (history : Except Text Json) : Except Thrown FillsReply := do
  let deals ← history.mapError Thrown.error
  let count ← (lengthOf deals).mapError Thrown.error
  return ⟨count, deals⟩

/-- `GET /v1/fills`. -/
def getFills (deps : Deps) (q : QueryFills) : Except ReadProblem FillsReply :=
  if q.Valid then do
    let ref ← (resolveAccountRef deps).mapError ReadProblem.refused
    (withBrokerErrors (fillsReply (getHistory deps.dispatchCommand (deps.registered ref)
      ⟨q.start, q.stop, q.limit⟩))).mapError ReadProblem.broker
  else .error (.refused .validation)

end AkronSlot.Slot
