import AkronSlot.Slot.Accounts
import AkronSlot.Slot.Frames
import AkronSlot.Slot.Mt5Connector
import AkronSlot.Systems.Tally

/-!
# The ledger (`ledger.ts`) and the events that write it

Orders and fills are rows of two tables.  `positionsFor` joins every fill with
its order, if it has one, and nets the quantities by instrument; a fill without
an order counts as a buy.  `handleEvent` is what the TCP server does to the
ledger when an event frame arrives.

## Rows and sums

The tables are lists of rows in the order of insertion, which SQLite keeps for rows that compare
equal. A statement is a function on them; the constraints of the schema are in `LedgerOps`, so
that here a read can be studied without asking how the rows came about. `positionsFor` keeps two
maps, lots and turnover, as the source does, and the theorem at the end replaces the first by a
sum that later modules compute with.

## Main Definitions

* `OrderRow`, `FillRow`, `Ledger`
* `insertOrder`, `getOrderByBrokerId`, `updateOrderStatus`, `insertFill`
* `getOrder`, `listOrders`, `listFills`, `fillsForOrder`
* `positionsFor`, `reportedNet`
* `namedOrder`, `handleEvent`
-/

namespace AkronSlot.Slot

open Wire Systems

/-! ## Rows -/

/-- `OrderRow`. -/
structure OrderRow where
  id : Text
  accountId : Text
  instrument : Text
  side : Side
  qty : ℚ
  type : OrderKind
  price : Option ℚ := none
  sl : Option ℚ := none
  tp : Option ℚ := none
  reduceQty : Option ℚ := none
  status : Text
  brokerOrderId : Option Text
  tsOpen : ℚ
  tsClose : Option ℚ

/-- `FillRow`, without its random id. The deal of the frame is not among the columns. -/
structure FillRow where
  orderId : Option Text
  accountId : Text
  instrument : Text
  qty : ℚ
  price : ℚ
  fee : Option ℚ := none
  ts : ℚ

/-- The two tables. -/
structure Ledger where
  orders : List OrderRow := []
  fills : List FillRow := []

/-- `Position`; the side is the sign of the net quantity. -/
structure LedgerPosition where
  instrument : Text
  long : Bool
  qty : ℚ
  avgPrice : ℚ

namespace Ledger

/-! ## Writing -/

def insertOrder (L : Ledger) (row : OrderRow) : Ledger := { L with orders := L.orders ++ [row] }

def getOrderByBrokerId (L : Ledger) (accountId brokerOrderId : Text) : Option OrderRow :=
  L.orders.find? fun o => o.brokerOrderId = some brokerOrderId && o.accountId = accountId

/-- `updateOrderStatus`: absent values keep what is there (`COALESCE`). The status is overwritten
whatever it was, so that a closed order can become another one. -/
def updateOrderStatus (L : Ledger) (accountId id status : Text) (brokerOrderId : Option Text)
    (tsClose : Option ℚ) : Ledger :=
  { L with
    orders := L.orders.map fun o =>
      if o.id = id ∧ o.accountId = accountId then
        { o with
          status := status
          brokerOrderId := brokerOrderId.or o.brokerOrderId
          tsClose := tsClose.or o.tsClose }
      else o }

def insertFill (L : Ledger) (row : FillRow) : Ledger := { L with fills := L.fills ++ [row] }

/-! ## Reading -/

def getOrder (L : Ledger) (accountId id : Text) : Option OrderRow :=
  L.orders.find? fun o => o.id = id && o.accountId = accountId

/-- The `LIMIT` of a statement; a negative one is no limit. -/
def limited {α : Type} (limit : ℤ) (rows : List α) : List α :=
  if limit < 0 then rows else rows.take limit.toNat

/-- The orders of an account, the latest first. -/
def listOrders (L : Ledger) (accountId : Text) (limit : ℤ) : List OrderRow :=
  limited limit <|
    ((L.orders.filter (·.accountId = accountId)).reverse.mergeSort fun o k => k.tsOpen ≤ o.tsOpen)

/-- The fills of an account, the latest first. -/
def listFills (L : Ledger) (accountId : Text) (limit : ℤ) : List FillRow :=
  limited limit <|
    ((L.fills.filter (·.accountId = accountId)).reverse.mergeSort fun f g => g.ts ≤ f.ts)

def fillsForOrder (L : Ledger) (orderId : Text) : List FillRow :=
  L.fills.filter (·.orderId = some orderId)

/-! ## Positions -/

/-- The side of a fill: that of its order, or a buy. -/
def fillSide (L : Ledger) (f : FillRow) : Side :=
  ((f.orderId.bind fun id => L.orders.find? (·.id = id)).map (·.side)).getD .buy

/-- The sign a side counts with. -/
def sign : Side → ℚ
  | .buy => 1
  | .sell => -1

@[simp] theorem sign_buy : sign .buy = 1 := rfl

@[simp] theorem sign_sell : sign .sell = -1 := rfl

/-- The fills of an account by time. -/
def fillsByTime (L : Ledger) (accountId : Text) : List FillRow :=
  (L.fills.filter (·.accountId = accountId)).mergeSort fun f g => f.ts ≤ g.ts

/-- The net lots by instrument. -/
def lots (L : Ledger) (accountId : Text) : List (Text × ℚ) :=
  tally ((L.fillsByTime accountId).map fun f => (f.instrument, sign (L.fillSide f) * f.qty))

/-- The signed turnover by instrument. -/
def sumPx (L : Ledger) (accountId : Text) : List (Text × ℚ) :=
  tally ((L.fillsByTime accountId).map fun f =>
    (f.instrument, sign (L.fillSide f) * f.qty * f.price))

/-- What counts as no position. -/
def dust : ℚ := 1 / 10 ^ 9

/-- `positionsFor`: one pass over the fills by time. A position is reported for every instrument
whose net lots are not dust, with the turnover for each of them as its price. -/
def positionsFor (L : Ledger) (accountId : Text) : List LedgerPosition :=
  ((L.lots accountId).filter fun e => ¬ |e.2| < dust).map fun e : Text × ℚ =>
    { instrument := e.1
      long := decide (0 < e.2)
      qty := |e.2|
      avgPrice := total e.1 (L.sumPx accountId) / e.2 }

/-- The signed quantity that a list of positions reports for an instrument. -/
def reportedNet (positions : List LedgerPosition) (instrument : Text) : ℚ :=
  match positions.find? (·.instrument = instrument) with
  | none => 0
  | some p => if p.long then p.qty else -p.qty

/-- A quantity, unless it is dust. -/
def settled (x : ℚ) : ℚ := if |x| < dust then 0 else x

/-- The signed quantity of the fills of an account. -/
def netFilled (L : Ledger) (accountId instrument : Text) : ℚ :=
  (((L.fills.filter (·.accountId = accountId)).filter (·.instrument = instrument)).map fun f =>
    sign (L.fillSide f) * f.qty).sum

theorem total_lots (L : Ledger) (accountId instrument : Text) :
    total instrument (L.lots accountId) = L.netFilled accountId instrument := by
  have hperm := List.mergeSort_perm (L.fills.filter (·.accountId = accountId))
    fun f g => decide (f.ts ≤ g.ts)
  rw [lots, total_tally, List.filter_map, List.map_map, netFilled]
  exact ((hperm.filter _).map _).sum_eq

/-- **The reported quantity of an instrument is the sum of its fills**, each with
the sign of its order. -/
theorem reportedNet_positionsFor (L : Ledger) (accountId instrument : Text) :
    reportedNet (L.positionsFor accountId) instrument =
      settled (L.netFilled accountId instrument) := by
  have hnodup : ((L.lots accountId).map Prod.fst).Nodup := nodup_keys_tally _
  rw [← total_lots, reportedNet]
  cases hfind : (L.positionsFor accountId).find? (·.instrument = instrument) with
  | none =>
      have hnone := List.find?_eq_none.mp hfind
      by_cases hkey : instrument ∈ (L.lots accountId).map Prod.fst
      · obtain ⟨e, he, rfl⟩ := List.mem_map.mp hkey
        rw [total_of_mem hnodup he, settled]
        by_cases hdust : |e.2| < dust
        · simp [hdust]
        · have hmem : (⟨e.1, decide (0 < e.2), |e.2|, total e.1 (L.sumPx accountId) / e.2⟩ :
              LedgerPosition) ∈ L.positionsFor accountId :=
            List.mem_map.mpr ⟨e, List.mem_filter.mpr ⟨he, by simpa using hdust⟩, rfl⟩
          exact absurd (decide_eq_true rfl) (hnone _ hmem)
      · rw [total_of_notMem hkey]
        simp [settled]
  | some p =>
      obtain ⟨e, he, rfl⟩ := List.mem_map.mp (List.mem_of_find?_eq_some hfind)
      have hname : e.1 = instrument := by simpa using List.find?_some hfind
      obtain ⟨hlots, hdust⟩ := List.mem_filter.mp he
      have hdust : ¬ |e.2| < dust := by simpa using hdust
      rw [← hname, total_of_mem hnodup hlots, settled, if_neg hdust]
      by_cases hpos : 0 < e.2
      · simp [hpos, abs_of_pos hpos]
      · simp [hpos, abs_of_nonpos (not_lt.mp hpos)]

end Ledger

/-! ## Inbound events -/

/-- The order of an account that an event names; an empty name is none. The lookup is by the
ticket and the account, so that a ticket of another account is not found. -/
def namedOrder (L : Ledger) (accountId : Text) (brokerOrderId : Option Text) : Option OrderRow :=
  brokerOrderId.bind fun id => if id.isEmpty then none else L.getOrderByBrokerId accountId id

theorem namedOrder_eq_some_iff {L : Ledger} {accountId : Text} {brokerOrderId : Option Text}
    {o : OrderRow} :
    namedOrder L accountId brokerOrderId = some o ↔
      ∃ b, brokerOrderId = some b ∧ b ≠ [] ∧ L.getOrderByBrokerId accountId b = some o := by
  cases brokerOrderId with
  | none => simp [namedOrder]
  | some b => by_cases hb : b = [] <;> simp [namedOrder, hb]

/-- A named order is one of the account and has the name. -/
theorem namedOrder_spec {L : Ledger} {accountId : Text} {brokerOrderId : Option Text}
    {o : OrderRow} (h : namedOrder L accountId brokerOrderId = some o) :
    o ∈ L.orders ∧ o.accountId = accountId ∧ o.brokerOrderId = brokerOrderId := by
  obtain ⟨b, rfl, -, hget⟩ := namedOrder_eq_some_iff.mp h
  have hfound := List.find?_some hget
  rw [Bool.and_eq_true, decide_eq_true_eq, decide_eq_true_eq] at hfound
  exact ⟨List.mem_of_find?_eq_some hget, hfound.2, hfound.1⟩

/-- `handleEvent`, as far as it writes the ledger.  No schema keeps a login in
the data of a fill or of an order state, so the account is the fallback one. -/
def handleEvent (accounts : List AccountRow) (now : ℚ) (L : Ledger) : Frame → Ledger
  | .fill data ts =>
      match resolveAccount accounts [] with
      | none => L
      | some account =>
          let orderRow := data.brokerOrderId.bind fun id =>
            if id.isEmpty then none else L.getOrderByBrokerId account.id id
          let time := (ts.map Numeral.value).getD now
          let L := L.insertFill
            { orderId := orderRow.map (·.id)
              accountId := account.id
              instrument := data.symbol
              qty := (((data.qty.or data.volume).map Numeral.value).getD 0)
              price := (data.price.map Numeral.value).getD 0
              ts := time }
          match orderRow with
          | none => L
          | some o => L.updateOrderStatus account.id o.id "filled" o.brokerOrderId (some time)
  | .orderState data _ =>
      match resolveAccount accounts [] with
      | none => L
      | some account =>
          let orderRow := data.brokerOrderId.bind fun id =>
            if id.isEmpty then none else L.getOrderByBrokerId account.id id
          match orderRow with
          | none => L
          | some o =>
              L.updateOrderStatus account.id o.id data.status o.brokerOrderId (some now)
  | _ => L

/-- The row of a fill that is booked on an account. -/
def bookedRow (L : Ledger) (accountId : Text) (now : ℚ) (data : FillData) (ts : Option Numeral) :
    FillRow where
  orderId := (namedOrder L accountId data.brokerOrderId).map (·.id)
  accountId := accountId
  instrument := data.symbol
  qty := ((data.qty.or data.volume).map Numeral.value).getD 0
  price := (data.price.map Numeral.value).getD 0
  ts := (ts.map Numeral.value).getD now

section Events

variable {accounts : List AccountRow} {account : AccountRow}

theorem handleEvent_fill_eq (ha : fallbackAccount accounts = some account) (now : ℚ) (L : Ledger)
    (data : FillData) (ts : Option Numeral) :
    handleEvent accounts now L (.fill data ts) =
      (namedOrder L account.id data.brokerOrderId).elim
        (L.insertFill (bookedRow L account.id now data ts)) fun o =>
          (L.insertFill (bookedRow L account.id now data ts)).updateOrderStatus account.id o.id
            "filled" o.brokerOrderId (some ((ts.map Numeral.value).getD now)) := by
  rw [handleEvent, resolveAccount_nil, ha]
  dsimp only
  rw [← namedOrder, bookedRow]
  cases namedOrder L account.id data.brokerOrderId <;> rfl

theorem handleEvent_orderState_eq (ha : fallbackAccount accounts = some account) (now : ℚ)
    (L : Ledger) (data : OrderStateData) (ts : Option Numeral) :
    handleEvent accounts now L (.orderState data ts) =
      (namedOrder L account.id data.brokerOrderId).elim L fun o =>
        L.updateOrderStatus account.id o.id data.status o.brokerOrderId (some now) := by
  rw [handleEvent, resolveAccount_nil, ha]
  dsimp only
  rw [← namedOrder]
  cases namedOrder L account.id data.brokerOrderId <;> rfl

theorem handleEvent_of_no_account (ha : fallbackAccount accounts = none) (now : ℚ) (L : Ledger)
    (f : Frame) : handleEvent accounts now L f = L := by
  cases f <;> simp only [handleEvent, resolveAccount_nil, ha]

end Events

end AkronSlot.Slot
