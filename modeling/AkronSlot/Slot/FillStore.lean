import AkronSlot.Slot.Attribution
import AkronSlot.Slot.FillNetting

/-!
# Fills and a store that can fail

`handleEvent` writes a fill with two statements that are not one transaction, swallows
what they throw and then calls `onEvent`.  Each statement may succeed or throw, and a
fill without a time is given the time of the clock anew at each place.

## What can be left half done

SQLite may refuse either statement: the disk is full, the database is locked. The `catch` around
them logs and goes on, and the call of `onEvent` stands behind it, so the subscribers hear of a
fill that is not in the ledger, or the fill is there and its order is not marked. The clock is
the quieter part: three calls of `Date.now()` for one fill, in the row, in the order and in the
event, which agree only if no millisecond passes between them.

## Main Definitions

* `StoreOutcome`, `Clock`
* `Books.receiveFill` — a fill event with a store that can fail
* `AllOrNothing`

## Main Results

* `receiveFill_eq_receive` — without failures it is the event as before
* `allOrNothing_iff`
-/

namespace AkronSlot.Slot

open Wire Systems Mt5Connector

/-- Which of the two statements succeed. When the first one throws, the second is not reached,
whatever it would have done. -/
structure StoreOutcome where
  insertFill : Bool
  updateOrderStatus : Bool

/-- What `Date.now()` returns at its three calls: for the row of the fill, for the closing time of
the order and for the event. A fill with a time of its own asks none of them. -/
structure Clock where
  insertFill : ℚ
  updateOrderStatus : ℚ
  stream : ℚ

/-- The ledger part of `handleEvent` for a fill: the first statement that throws ends it. -/
def storeFill (outcome : StoreOutcome) (clock : Clock) (account : AccountRow) (L : Ledger)
    (data : FillData) (ts : Option Numeral) : Ledger :=
  let orderRow := namedOrder L account.id data.brokerOrderId
  if outcome.insertFill then
    let L := L.insertFill
      { orderId := orderRow.map (·.id)
        accountId := account.id
        instrument := data.symbol
        qty := (((data.qty.or data.volume).map Numeral.value).getD 0)
        price := (data.price.map Numeral.value).getD 0
        ts := (ts.map Numeral.value).getD clock.insertFill }
    match orderRow with
    | none => L
    | some o =>
        if outcome.updateOrderStatus then
          L.updateOrderStatus account.id o.id "filled" o.brokerOrderId
            (some ((ts.map Numeral.value).getD clock.updateOrderStatus))
        else L
  else L

/-- `handleEvent` for a fill, with a store that can fail. The result of each statement is an
argument, since the source does not decide it. -/
def Books.receiveFill (numberText : Numeral → Text) (rows : List AccountRow)
    (outcome : StoreOutcome) (clock : Clock) (b : Books) (data : FillData) (ts : Option Numeral) :
    Books :=
  match resolveAccount rows [] with
  | none => b
  | some account =>
      { ledger := storeFill outcome clock account b.ledger data ts
        connector :=
          b.connector.handleEvent numberText (.fill data ts) (some account) clock.stream }

section Store

variable {numberText : Numeral → Text} {rows : List AccountRow}

/-- With a store that does not fail and a clock that stands still, a fill is received as
before. -/
theorem receiveFill_eq_receive (now : ℚ) (b : Books) (data : FillData) (ts : Option Numeral) :
    b.receiveFill numberText rows ⟨true, true⟩ ⟨now, now, now⟩ data ts =
      b.receive numberText rows now (.fill data ts) := by
  unfold Books.receiveFill Books.receive handleEvent tcpEvent
  dsimp only [Frame.loginText, Frame.login, Option.map_none, Option.getD_none]
  cases resolveAccount rows [] with
  | none => rfl
  | some account => rfl

/-- A fill is in the ledger, its order is marked, and the subscribers of the account see it once,
with the same data. The same time is a part of it. -/
structure Booked (account : AccountRow) (named : Option OrderRow) (row : FillRow) (b b' : Books) :
    Prop where
  fills : b'.ledger.fills = b.ledger.fills ++ [row]
  booked_on : row.accountId = account.id
  parent : row.orderId = named.map (·.id)
  marked : ∀ o ∈ named, ∀ o' ∈ b'.ledger.orders, o'.id = o.id → o'.accountId = account.id →
    o'.status = "filled"
  others : List.Forall₂
    (fun o o' : OrderRow => o' = o ∨ ∃ k ∈ named, o.id = k.id ∧ o.accountId = account.id)
    b.ledger.orders b'.ledger.orders
  stream : ∃ id, b'.connector.bus = b.connector.bus ++
    [(.fill
      { brokerOrderId := id
        symbol := row.instrument
        qty := row.qty
        price := row.price
        ts := row.ts }, refOf account)]

/-- A fill is booked, or nothing at all has happened: the ledger is as it was and nobody has been
told. -/
def AllOrNothing (rows : List AccountRow) (data : FillData) (b b' : Books) : Prop :=
  (∃ account row, fallbackAccount rows = some account ∧
    Booked account (namedOrder b.ledger account.id data.brokerOrderId) row b b') ∨
  (b'.ledger = b.ledger ∧ b'.connector.bus = b.connector.bus)

/-- When that is so: both statements succeed (the second one if there is an order that is
not filled already), and there is one time. -/
structure Complete (outcome : StoreOutcome) (clock : Clock) (L : Ledger) (account : AccountRow)
    (data : FillData) (ts : Option Numeral) : Prop where
  insertFill : outcome.insertFill
  updateOrderStatus : ∀ o ∈ namedOrder L account.id data.brokerOrderId, outcome.updateOrderStatus ∨
    ∀ o' ∈ L.orders, o'.id = o.id → o'.accountId = account.id → o'.status = "filled"
  time : ts = none → clock.insertFill = clock.stream

/-- What the connector tells its subscribers, whatever the store has done. -/
theorem bus_receiveFill {account : AccountRow} (ha : fallbackAccount rows = some account)
    (outcome : StoreOutcome) (clock : Clock) (b : Books) (data : FillData) (ts : Option Numeral) :
    (b.receiveFill numberText rows outcome clock data ts).connector.bus = b.connector.bus ++
      [(.fill
        { brokerOrderId := data.brokerOrderId.getD []
          symbol := data.symbol
          qty := ((data.qty.or data.volume).map Numeral.value).getD 0
          price := (data.price.map Numeral.value).getD 0
          ts := (ts.map Numeral.value).getD clock.stream }, refOf account)] := by
  unfold Books.receiveFill
  rw [resolveAccount_nil, ha]
  rfl

theorem ledger_receiveFill {account : AccountRow} (ha : fallbackAccount rows = some account)
    (outcome : StoreOutcome) (clock : Clock) (b : Books) (data : FillData) (ts : Option Numeral) :
    (b.receiveFill numberText rows outcome clock data ts).ledger =
      storeFill outcome clock account b.ledger data ts := by
  unfold Books.receiveFill
  rw [resolveAccount_nil, ha]

/-- An update that fails leaves the orders as they are. -/
theorem orders_storeFill_of_failed {outcome : StoreOutcome}
    (h : outcome.updateOrderStatus = false) (clock : Clock) (account : AccountRow) (L : Ledger)
    (data : FillData) (ts : Option Numeral) :
    (storeFill outcome clock account L data ts).orders = L.orders := by
  unfold storeFill
  split
  · dsimp only
    split
    · rfl
    · rw [h]
      rfl
  · rfl

/-- An insertion that fails leaves everything as it is. -/
theorem storeFill_of_failed {outcome : StoreOutcome} (h : outcome.insertFill = false)
    (clock : Clock) (account : AccountRow) (L : Ledger) (data : FillData) (ts : Option Numeral) :
    storeFill outcome clock account L data ts = L := by
  unfold storeFill
  rw [h]
  rfl

/-- The row that an insertion adds. -/
theorem fills_storeFill {outcome : StoreOutcome} (h : outcome.insertFill) (clock : Clock)
    (account : AccountRow) (L : Ledger) (data : FillData) (ts : Option Numeral) :
    (storeFill outcome clock account L data ts).fills = L.fills ++ [
      { orderId := (namedOrder L account.id data.brokerOrderId).map (·.id)
        accountId := account.id
        instrument := data.symbol
        qty := ((data.qty.or data.volume).map Numeral.value).getD 0
        price := (data.price.map Numeral.value).getD 0
        ts := (ts.map Numeral.value).getD clock.insertFill }] := by
  unfold storeFill
  rw [if_pos h]
  dsimp only
  split
  · next hnone => rw [hnone]; rfl
  · next o hsome =>
      rw [hsome]
      split <;> rfl

/-- The orders after both statements. -/
theorem orders_storeFill {outcome : StoreOutcome} (hinsert : outcome.insertFill)
    (hupdate : outcome.updateOrderStatus) (clock : Clock) (account : AccountRow) (L : Ledger)
    (data : FillData) (ts : Option Numeral) :
    (storeFill outcome clock account L data ts).orders =
      (namedOrder L account.id data.brokerOrderId).elim L.orders fun o =>
        (L.updateOrderStatus account.id o.id "filled" o.brokerOrderId
          (some ((ts.map Numeral.value).getD clock.updateOrderStatus))).orders := by
  unfold storeFill
  rw [if_pos hinsert]
  dsimp only
  split
  · next hnone => rw [hnone]; rfl
  · next o hsome =>
      rw [hsome, if_pos hupdate]
      rfl

/-- After a status update to `filled` its order is filled. -/
theorem filled_of_updateOrderStatus {L : Ledger} {accountId id : Text}
    {brokerOrderId : Option Text} {tsClose : Option ℚ} {o' : OrderRow}
    (ho' : o' ∈ (L.updateOrderStatus accountId id "filled" brokerOrderId tsClose).orders)
    (hid : o'.id = id) (haccount : o'.accountId = accountId) : o'.status = "filled" := by
  obtain ⟨o, -, rfl⟩ := List.mem_map.mp ho'
  split at hid
  · next h => rw [if_pos h]
  · next h =>
      rw [if_neg h] at haccount
      exact absurd ⟨hid, haccount⟩ h

/-- A status update changes the order that it names. -/
theorem forall₂_named (L : Ledger) {accountId status : Text} {brokerOrderId : Option Text}
    {tsClose : Option ℚ} {named : Option OrderRow} {o : OrderRow} (ho : o ∈ named) :
    List.Forall₂
      (fun k k' : OrderRow => k' = k ∨ ∃ o ∈ named, k.id = o.id ∧ k.accountId = accountId)
      L.orders (L.updateOrderStatus accountId o.id status brokerOrderId tsClose).orders := by
  refine List.forall₂_map_right_iff.mpr (List.forall₂_same.mpr ?_)
  intro k _
  split
  · next h => exact Or.inr ⟨o, ho, h⟩
  · exact Or.inl rfl

/-- A complete fill is booked. -/
theorem booked_of_complete {account : AccountRow} (ha : fallbackAccount rows = some account)
    {outcome : StoreOutcome} {clock : Clock} {b : Books} {data : FillData} {ts : Option Numeral}
    (h : Complete outcome clock b.ledger account data ts) :
    ∃ row, Booked account (namedOrder b.ledger account.id data.brokerOrderId) row b
      (b.receiveFill numberText rows outcome clock data ts) := by
  have hledger : (b.receiveFill numberText rows outcome clock data ts).ledger = _ :=
    ledger_receiveFill ha outcome clock b data ts
  have hbus : (b.receiveFill numberText rows outcome clock data ts).connector.bus = _ :=
    bus_receiveFill ha outcome clock b data ts
  have htime : (ts.map Numeral.value).getD clock.stream =
      (ts.map Numeral.value).getD clock.insertFill := by
    cases ts with
    | none => exact (h.time rfl).symm
    | some t => rfl
  have hfills := fills_storeFill h.insertFill clock account b.ledger data ts
  rw [htime] at hbus
  rw [← hledger] at hfills
  refine ⟨_, hfills, rfl, rfl, ?_, ?_, _, hbus⟩
  · intro o ho o' ho' hid haccount
    rw [hledger] at ho'
    cases hupdate : outcome.updateOrderStatus with
    | true =>
        rw [orders_storeFill h.insertFill hupdate, Option.mem_def.mp ho] at ho'
        exact filled_of_updateOrderStatus ho' hid haccount
    | false =>
        rw [orders_storeFill_of_failed hupdate] at ho'
        -- the update has failed, so the order was filled already
        have hfilled := (h.updateOrderStatus o ho).resolve_left (by simp [hupdate])
        exact hfilled o' ho' hid haccount
  · rw [hledger]
    cases hupdate : outcome.updateOrderStatus with
    | true =>
        rw [orders_storeFill h.insertFill hupdate]
        cases hnamed : namedOrder b.ledger account.id data.brokerOrderId with
        | none => exact List.forall₂_same.mpr fun _ _ => Or.inl rfl
        | some o => exact forall₂_named b.ledger rfl
    | false =>
        rw [orders_storeFill_of_failed hupdate]
        exact List.forall₂_same.mpr fun _ _ => Or.inl rfl

/-- A fill that is booked was complete. -/
theorem complete_of_booked {account : AccountRow} (ha : fallbackAccount rows = some account)
    {outcome : StoreOutcome} {clock : Clock} {b : Books} {data : FillData} {ts : Option Numeral}
    {row : FillRow}
    (h : Booked account (namedOrder b.ledger account.id data.brokerOrderId) row b
      (b.receiveFill numberText rows outcome clock data ts)) :
    Complete outcome clock b.ledger account data ts := by
  have hledger : (b.receiveFill numberText rows outcome clock data ts).ledger = _ :=
    ledger_receiveFill ha outcome clock b data ts
  have hbus : (b.receiveFill numberText rows outcome clock data ts).connector.bus = _ :=
    bus_receiveFill ha outcome clock b data ts
  have hrow := h.fills
  rw [hledger] at hrow
  have hinsert : outcome.insertFill = true := by
    by_contra hfailed
    rw [storeFill_of_failed (Bool.not_eq_true _ ▸ hfailed)] at hrow
    simp at hrow
  refine ⟨hinsert, ?_, ?_⟩
  · intro o ho
    cases hupdate : outcome.updateOrderStatus with
    | true => exact Or.inl rfl
    | false =>
        -- nothing is marked, so what is marked now was marked before
        right
        intro o' ho' hid haccount
        refine h.marked o ho o' ?_ hid haccount
        rw [hledger, orders_storeFill_of_failed hupdate]
        exact ho'
  · rintro rfl
    rw [fills_storeFill hinsert] at hrow
    obtain ⟨id, hstream⟩ := h.stream
    rw [hbus] at hstream
    have hrow := List.singleton_inj.mp (List.append_cancel_left hrow)
    have hnotice := List.singleton_inj.mp (List.append_cancel_left hstream)
    rw [← hrow] at hnotice
    injection hnotice with hfill
    injection hfill with hfill
    injection hfill with _ _ _ _ hts
    exact hts.symm

/-- **A fill is booked whole or not at all**, whatever the store does, exactly if the statements
that it needs succeed and there is one time for it. The two statements are no transaction, and a
failure of the second is swallowed. -/
theorem allOrNothing_iff (outcome : StoreOutcome) (clock : Clock) (b : Books) (data : FillData)
    (ts : Option Numeral) :
    AllOrNothing rows data b (b.receiveFill numberText rows outcome clock data ts) ↔
      ∀ account, OldestEnabled rows account →
        Complete outcome clock b.ledger account data ts := by
  constructor
  · intro h account holdest
    have ha := fallbackAccount_eq_some_iff.mpr holdest
    rcases h with ⟨account', row, ha', hbooked⟩ | ⟨-, hbus⟩
    · obtain rfl : account = account' := Option.some.inj (ha.symm.trans ha')
      exact complete_of_booked ha hbooked
    · rw [bus_receiveFill ha] at hbus
      simp at hbus
  · intro h
    cases ha : fallbackAccount rows with
    | none =>
        right
        unfold Books.receiveFill
        rw [resolveAccount_nil, ha]
        exact ⟨rfl, rfl⟩
    | some account =>
        have hcomplete := h account (fallbackAccount_eq_some_iff.mp ha)
        obtain ⟨row, hbooked⟩ := booked_of_complete ha hcomplete
        exact Or.inl ⟨account, row, ha, hbooked⟩

end Store

/-- The disk is full: no row is stored, but the subscribers of the account see the fill. -/
theorem unstored_fill_streamed :
    (Books.receiveFill Numeral.text sampleDeps.accounts ⟨false, true⟩ ⟨0, 0, 0⟩ {} sampleFill
        none).ledger.fills.length = 0 ∧
    (Books.receiveFill Numeral.text sampleDeps.accounts ⟨false, true⟩ ⟨0, 0, 0⟩ {} sampleFill
        none).connector.bus.length = 1 ∧
    ¬ AllOrNothing sampleDeps.accounts sampleFill {}
      (Books.receiveFill Numeral.text sampleDeps.accounts ⟨false, true⟩ ⟨0, 0, 0⟩ {} sampleFill
        none) := by
  have hledger : (Books.receiveFill Numeral.text sampleDeps.accounts ⟨false, true⟩ ⟨0, 0, 0⟩ {}
      sampleFill none).ledger = _ := ledger_receiveFill sampleDeps_fallback _ _ _ _ _
  have hbus : (Books.receiveFill Numeral.text sampleDeps.accounts ⟨false, true⟩ ⟨0, 0, 0⟩ {}
      sampleFill none).connector.bus = _ := bus_receiveFill sampleDeps_fallback _ _ _ _ _
  refine ⟨by rw [hledger]; rfl, by rw [hbus]; rfl, ?_⟩
  rintro (⟨account, row, ha, hbooked⟩ | ⟨-, hnone⟩)
  · have hfills := hbooked.fills
    rw [hledger] at hfills
    cases hfills
  · rw [hbus] at hnone
    cases hnone

end AkronSlot.Slot
