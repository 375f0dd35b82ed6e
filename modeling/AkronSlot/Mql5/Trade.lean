import AkronSlot.Mql5.JsonField
import AkronSlot.Systems.OrderedMap

/-!
# The trade handlers of SlotService

`handleOpen`, `handleClose`, `handleCancel`, `handleSltp` and
`handleModifyPosition` with the terminal they act on, and
`handleCommandAndRespond`, which prints the response line.

A handler reads its command through `JsonField(body, path)` only.  It therefore
takes a `Reader`, a function from paths to texts: `jsonField frame` is the one
of the program.  What a handler did is the text it answers and the request it
submitted, if it submitted one.

## One request at most

Every handler submits at most one trade request, so `Handled` is a text with an optional
request, and the broker is a function from requests to answers. What the broker does with a
request it has accepted is outside of the model.

`HandleClose` and `HandleModifyPosition` select the position by its ticket and then call
`PositionGetSymbol(ticket)`, which takes an index and selects again. The position that the
request is made from is therefore the one at that index, if there is one; `closeRequest` keeps
the two apart.

## Main Definitions

* `MqlTradeRequest`, `MqlTradeResult`, `Terminal`
* `handleOpen`, `handleClose`, `handleCancel`, `handleSltp`, `handleModifyPosition`
* `handleCommandAndRespond`
-/

namespace AkronSlot.Mql5

open Wire

/-! ## Trade requests -/

/-- The trade operations SlotService could ask for. -/
inductive TradeAction where
  | deal | pending | sltp | modify | remove
  deriving DecidableEq, Repr

/-- `ENUM_ORDER_TYPE`. -/
inductive OrderType where
  | buy | sell | buyLimit | sellLimit | buyStop | sellStop
  deriving DecidableEq, Repr

/-- `ENUM_POSITION_TYPE`. -/
inductive PositionType where
  | buy | sell
  deriving DecidableEq, Repr

/-- `ENUM_ORDER_TYPE_FILLING`. -/
inductive OrderFilling where
  | fok | ioc | boc | return_
  deriving DecidableEq, Repr

/-- `MqlTradeRequest`.  The defaults are what `ZeroMemory` leaves; zero is no
trade action, and every handler sets one. -/
structure MqlTradeRequest where
  action : TradeAction
  symbol : Text := []
  volume : ℚ := 0
  type : OrderType := .buy
  price : ℚ := 0
  sl : ℚ := 0
  tp : ℚ := 0
  deviation : ℕ := 0
  comment : Text := []
  typeFilling : OrderFilling := .fok
  position : ℕ := 0
  order : ℕ := 0

/-- `MqlTradeResult`, as far as the handlers read it. -/
structure MqlTradeResult where
  retcode : ℕ
  order : ℕ
  comment : Text

/-! ## The terminal -/

/-- An open position. -/
structure OpenPosition where
  ticket : ℕ
  symbol : Text
  volume : ℚ
  type : PositionType
  sl : ℚ
  tp : ℚ

/-- The terminal a handler runs in: the open positions in the order of their
index, and what `OrderSend` answers to a request.  Tickets are `ulong` numbers,
not zero, and no two positions share one. -/
structure Terminal where
  positions : List OpenPosition
  nodup_tickets : (positions.map OpenPosition.ticket).Nodup
  ticket_pos : ∀ p ∈ positions, 0 < p.ticket
  ticket_lt : ∀ p ∈ positions, p.ticket < 2 ^ 64
  orderSend : MqlTradeRequest → Bool × MqlTradeResult

namespace Terminal

theorem no_ticket_pos : ∀ p ∈ ([] : List OpenPosition), 0 < p.ticket := by simp

theorem no_ticket_lt : ∀ p ∈ ([] : List OpenPosition), p.ticket < 2 ^ 64 := by simp

/-- `PositionSelectByTicket`. -/
def positionSelectByTicket (t : Terminal) (ticket : ℕ) : Option OpenPosition :=
  t.positions.find? (·.ticket = ticket)

/-- `PositionGetSymbol(index)`: the position at that index is selected. -/
def positionGetSymbol (t : Terminal) (index : ℤ) : Option OpenPosition :=
  if index < 0 then none else t.positions[index.toNat]?

/-- The broker accepts a request. -/
def Accepts (t : Terminal) (req : MqlTradeRequest) : Prop := (t.orderSend req).1 = true

instance decidableAccepts (t : Terminal) (req : MqlTradeRequest) : Decidable (t.Accepts req) :=
  inferInstanceAs (Decidable (_ = _))

theorem positionSelectByTicket_mem (t : Terminal) {p : OpenPosition} (hp : p ∈ t.positions) :
    t.positionSelectByTicket p.ticket = some p :=
  Systems.find?_key t.nodup_tickets hp

end Terminal

/-! ## The handlers -/

/-- `JsonField(body, ·)`. Handlers see a frame through it alone, so what a frame makes them do is
decided by the texts at a few paths. -/
abbrev Reader := Text → Text

/-- What a handler did: the result text it returned and the trade request it submitted. The text
says what the broker answered, not what was asked for. -/
structure Handled where
  result : Text
  submitted : Option MqlTradeRequest

/-- A handler that returns before it submits anything. -/
def Handled.early (result : Text) : Handled := ⟨result, none⟩

/-- Submit a request and print one of two texts from the broker's answer. -/
def Terminal.submit (t : Terminal) (req : MqlTradeRequest)
    (accepted refused : MqlTradeResult → Text) : Handled where
  result := if t.Accepts req then accepted (t.orderSend req).2 else refused (t.orderSend req).2
  submitted := some req

/-- The ticket a payload field holds. A text that is no number gives zero, which the handlers take
for a missing field. -/
def ticketField (field : Reader) (path : Text) : ℕ := asUlong (stringToInteger (field path))

/-- `"{\"error\":\"" + JsonEscape(res.comment) + "\"}"`. -/
def commentError (res : MqlTradeResult) : Text :=
  "\x7b\"error\":\"".toList ++ jsonEscape res.comment ++ "\"\x7d".toList

/-- The same with the return code. -/
def commentRetcodeError (res : MqlTradeResult) : Text :=
  "\x7b\"error\":\"".toList ++ jsonEscape res.comment ++ "\",\"retcode\":".toList ++
    integerToString res.retcode ++ "\x7d".toList

def missingTicket : Text := "\x7b\"error\":\"missing_ticket\"\x7d"

def positionNotFound : Text := "\x7b\"error\":\"position_not_found\"\x7d"

def unknownAction : Text := "\x7b\"error\":\"unknown_action\"\x7d"

/-- The request of `HandleOpen`. -/
def openRequest (field : Reader) : MqlTradeRequest :=
  let price := stringToDouble (field "payload.price")
  let isBuy : Bool := field "payload.side" ≠ "sell"
  { action := .deal
    symbol := field "payload.instrument"
    volume := stringToDouble (field "payload.qty")
    type :=
      if price > 0 then (if isBuy then .buyLimit else .sellLimit)
      else if isBuy then .buy else .sell
    price := price
    sl := stringToDouble (field "payload.sl")
    tp := stringToDouble (field "payload.tp")
    deviation := 10
    comment := field "id"
    typeFilling := .fok }

@[simp] theorem openRequest_action (field : Reader) : (openRequest field).action = .deal := rfl

/-- `HandleOpen`. -/
def handleOpen (t : Terminal) (field : Reader) : Handled :=
  t.submit (openRequest field)
    (fun res =>
      "\x7b\"order_id\":\"".toList ++ integerToString (asLong res.order) ++ "\",".toList ++
        "\"broker_order_id\":\"".toList ++ integerToString (asLong res.order) ++ "\"\x7d".toList)
    commentRetcodeError

/-- The request of `HandleClose` on the position that its ticket selects.
`PositionGetSymbol` is given the ticket as an index, and what it finds there is
the selected position from then on. -/
def closeRequest (t : Terminal) (ticket : ℕ) (selected : OpenPosition) : MqlTradeRequest :=
  let atIndex := t.positionGetSymbol (asInt ticket)
  let now := atIndex.getD selected
  { action := .deal
    position := ticket
    symbol := (atIndex.map (·.symbol)).getD []
    volume := now.volume
    type := if now.type = .buy then .buy else .sell
    deviation := 10 }

@[simp] theorem closeRequest_action (t : Terminal) (ticket : ℕ) (selected : OpenPosition) :
    (closeRequest t ticket selected).action = .deal := rfl

/-- The ticket a handler acts on: `payload.position_id`, or else `payload.ticket`. -/
def positionTicket (field : Reader) : ℕ :=
  if ticketField field "payload.position_id" = 0 then ticketField field "payload.ticket"
  else ticketField field "payload.position_id"

/-- Act on the open position with a ticket; zero is no ticket. -/
def Terminal.withPosition (t : Terminal) (ticket : ℕ) (act : OpenPosition → Handled) : Handled :=
  if ticket = 0 then .early missingTicket
  else
    match t.positionSelectByTicket ticket with
    | none => .early positionNotFound
    | some selected => act selected

/-- `HandleClose`. -/
def handleClose (t : Terminal) (field : Reader) : Handled :=
  let ticket := positionTicket field
  t.withPosition ticket fun selected =>
    t.submit (closeRequest t ticket selected)
      (fun res =>
        "\x7b\"closed_ticket\":\"".toList ++ integerToString (asLong res.order) ++ "\"\x7d".toList)
      commentError

/-- `HandleCancel`.  `CTrade::OrderDelete` sends a removal request. -/
def handleCancel (t : Terminal) (field : Reader) : Handled :=
  let ticket := ticketField field "payload.order_id"
  if ticket = 0 then .early missingTicket
  else
    t.submit { action := .remove, order := ticket }
      (fun _ => "\x7b\"canceled\":\"".toList ++ integerToString (asLong ticket) ++ "\"\x7d".toList)
      (fun _ => "\x7b\"error\":\"cancel_failed\"\x7d")

/-- `HandleSltp`. -/
def handleSltp (t : Terminal) (field : Reader) : Handled :=
  let ticket := ticketField field "payload.position_id"
  t.withPosition ticket fun _ =>
    t.submit
      { action := .sltp
        position := ticket
        sl := stringToDouble (field "payload.sl")
        tp := stringToDouble (field "payload.tp") }
      (fun _ => "\x7b\"modified\":\"".toList ++ integerToString (asLong ticket) ++ "\"\x7d".toList)
      commentError

/-- `HandleModifyPosition`. -/
def handleModifyPosition (t : Terminal) (field : Reader) : Handled :=
  let ticket := positionTicket field
  t.withPosition ticket fun _ =>
    let sl := stringToDouble (field "payload.sl")
    let tp := stringToDouble (field "payload.tp")
    t.submit
      { action := .sltp
        position := ticket
        symbol := ((t.positionGetSymbol (asInt ticket)).map (·.symbol)).getD []
        sl := sl
        tp := tp }
      (fun _ =>
        "\x7b\"modified\":\"".toList ++ integerToString (asLong ticket) ++ "\",\"sl\":".toList ++
          doubleToString sl 5 ++ ",\"tp\":".toList ++ doubleToString tp 5 ++ "\x7d".toList)
      commentRetcodeError

/-! ## `HandleCommandAndRespond` -/

/-- The read-only handlers.  They only print; the texts are left open here. -/
structure QueryHandlers where
  symbols : Reader → Text
  symbol : Reader → Text
  positions : Reader → Text
  orders : Reader → Text
  history : Reader → Text
  quote : Reader → Text
  account : Reader → Text

/-- The branches of `HandleCommandAndRespond`: an action and what its handler
does. -/
def handlers (t : Terminal) (queries : QueryHandlers) (field : Reader) : List (Text × Handled) :=
  [("open", handleOpen t field), ("close", handleClose t field),
    ("cancel", handleCancel t field), ("sltp", handleSltp t field),
    ("modify_position", handleModifyPosition t field),
    ("symbols", .early (queries.symbols field)), ("symbol", .early (queries.symbol field)),
    ("positions", .early (queries.positions field)), ("orders", .early (queries.orders field)),
    ("history", .early (queries.history field)), ("quote", .early (queries.quote field)),
    ("account", .early (queries.account field))]

/-- What the handler of an action does; `none` for an unknown action. -/
def handle (t : Terminal) (queries : QueryHandlers) (field : Reader) (action : Text) :
    Option Handled :=
  ((handlers t queries field).find? (·.1 = action)).map (·.2)

/-- The actions `HandleCommandAndRespond` knows. -/
def knownActions : List Text :=
  ["open", "close", "cancel", "sltp", "modify_position", "symbols", "symbol", "positions",
    "orders", "history", "quote", "account"]

theorem handle_eq_none_iff (t : Terminal) (queries : QueryHandlers) (field : Reader)
    (action : Text) : handle t queries field action = none ↔ action ∉ knownActions := by
  have hnames : knownActions = (handlers t queries field).map (·.1) := rfl
  rw [handle, hnames, Option.map_eq_none_iff, List.find?_eq_none]
  simp only [List.mem_map, not_exists, not_and, decide_eq_true_eq]

/-- The response line of a command with this id: `ok` says whether the action
is known. -/
def responseLine (id : Text) (handled : Option Handled) : Text :=
  "\x7b\"type\":\"response\",\"id\":\"".toList ++ id ++ "\",\"ok\":".toList ++
    (if handled.isSome then "true".toList else "false".toList) ++ ",\"result\":".toList ++
    (handled.map (·.result)).getD unknownAction ++ "\x7d\n".toList

/-- `HandleCommandAndRespond(frame)`: the line it returns, and the trade request
it submitted on the way. -/
def handleCommandAndRespond (t : Terminal) (queries : QueryHandlers) (field : Reader) :
    Text × Option MqlTradeRequest :=
  let handled := handle t queries field (field "action")
  (responseLine (field "id") handled, handled.bind (·.submitted))

end AkronSlot.Mql5
