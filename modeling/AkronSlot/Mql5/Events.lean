import AkronSlot.Mql5.Builtins

/-!
# The trade events of SlotService

`OnTradeTransaction` turns the trade transactions of the terminal into event
frames.  A frame is put together from texts: the data of the event by
`StringFormat`, the envelope around it by concatenation.

## What is forwarded

Four types of transactions are forwarded, and the order of the tests decides. The data of an
event is an object of its own, braces included, and the envelope puts braces around it once
more: `"data":{` and `}` stand in the last line of the function. No event has other data, so
this is a property of the envelope.
-/

namespace AkronSlot.Mql5

open Wire

/-- `ENUM_TRADE_TRANSACTION_TYPE`. -/
inductive TransactionType where
  | orderAdd | orderUpdate | orderDelete
  | dealAdd | dealUpdate | dealDelete
  | historyAdd | historyUpdate | historyDelete
  | position | request
  deriving DecidableEq, Repr

/-- `MqlTradeTransaction`, as far as it is printed.  Tickets are `ulong`
numbers, enumerations their `int` values. -/
structure MqlTradeTransaction where
  type : TransactionType
  order : ℕ
  deal : ℕ
  position : ℕ
  symbol : Text
  dealType : ℤ
  orderState : ℤ
  volume : ℚ
  price : ℚ

/-- `%I64d` of a `ulong`. -/
def ticketText (ticket : ℕ) : Text := integerToString (asLong ticket)

/-- `TimeToMs`. -/
def timeToMs (t : ℤ) : Text := integerToString (t * 1000)

namespace MqlTradeTransaction

variable (trans : MqlTradeTransaction)

def dealAddData : Text :=
  "\x7b\"broker_order_id\":\"".toList ++ ticketText trans.order ++ "\",\"deal\":\"".toList ++
    ticketText trans.deal ++ "\",\"deal_type\":".toList ++ integerToString trans.dealType ++
    ",\"symbol\":\"".toList ++ trans.symbol ++ "\",\"qty\":".toList ++
    doubleToString trans.volume 8 ++ ",\"price\":".toList ++ doubleToString trans.price 8 ++
    "\x7d".toList

def historyAddData : Text :=
  "\x7b\"broker_order_id\":\"".toList ++ ticketText trans.order ++ "\",\"order\":".toList ++
    integerToString trans.orderState ++ ",\"deal\":".toList ++ ticketText trans.deal ++
    ",\"symbol\":\"".toList ++ trans.symbol ++ "\"\x7d".toList

def historyUpdateData : Text :=
  "\x7b\"order_id\":\"".toList ++ ticketText trans.order ++ "\",\"status\":\"updated\"\x7d".toList

def positionData : Text :=
  "\x7b\"order_id\":\"".toList ++ ticketText trans.position ++ "\",\"symbol\":\"".toList ++
    trans.symbol ++ "\"\x7d".toList

/-- The kind and the data of the event a transaction is forwarded as; nothing for a type that the
function returns on. A fill that is added to the history has no quantity and no price. -/
def event : Option (Text × Text) :=
  match trans.type with
  | .dealAdd => some ("fill", trans.dealAddData)
  | .historyAdd => some ("fill", trans.historyAddData)
  | .historyUpdate => some ("order_state", trans.historyUpdateData)
  | .position => some ("position", trans.positionData)
  | _ => none

end MqlTradeTransaction

/-- The envelope around the data of an event. The braces here are in addition to those of the
data. -/
def eventLine (kind data : Text) (now : ℤ) : Text :=
  "\x7b\"type\":\"event\",\"kind\":\"".toList ++ kind ++ "\",\"data\":\x7b".toList ++ data ++
    "\x7d,\"ts\":".toList ++ timeToMs now ++ "\x7d".toList

/-- `OnTradeTransaction`: the line it passes to `SendFrame`, if it forwards the
transaction. -/
def onTradeTransaction (now : ℤ) (trans : MqlTradeTransaction) : Option Text :=
  trans.event.map fun e => eventLine e.1 e.2 now

end AkronSlot.Mql5
