import AkronSlot.Slot.Ledger

/-!
# The statements of the ledger and the constraints of its tables

An `INSERT` or `UPDATE` throws when it violates a key of the schema: the id of an
order, the unique index on `broker_order_id`, which is over all accounts, and the
references of orders and fills to accounts and orders.

## Constraints instead of checks

The source checks nothing before it writes; it leaves that to the schema and catches what is
thrown. So an operation has two halves here, what the constraints admit (`Accepts`) and what is
written then (`write`), and `perform` joins them as a statement does: all or nothing. That rows
have distinct keys is not assumed of any ledger but follows for every one that operations have
built.

## Main Definitions

* `LedgerOp`, `Accepts`, `write`, `perform`
* `Keyed` — what the constraints keep true

## Main Results

* `Keyed.write`, `Keyed.perform`
* `Keyed.handleEvent`
-/

namespace AkronSlot.Slot

open Wire Systems

/-- A write operation of the ledger. The reads depend on the two tables only, so a run of these is
all there is to know of a ledger. -/
inductive LedgerOp where
  | insertOrder (row : OrderRow)
  | updateOrderStatus (accountId id status : Text) (brokerOrderId : Option Text)
      (tsClose : Option ℚ)
  | insertFill (row : FillRow)

/-- The account that an operation is for. -/
def LedgerOp.accountId : LedgerOp → Text
  | .insertOrder row => row.accountId
  | .updateOrderStatus accountId _ _ _ _ => accountId
  | .insertFill row => row.accountId

/-- An order has the id of a new row or its ticket. -/
def SharesKey (row o : OrderRow) : Prop :=
  o.id = row.id ∨ ∃ b ∈ row.brokerOrderId, o.brokerOrderId = some b

instance (row o : OrderRow) : Decidable (SharesKey row o) :=
  inferInstanceAs (Decidable (_ ∨ _))

namespace Ledger

/-- The constraints that an operation has to meet. An update meets all of them if there is no row
to update, as the statement then changes nothing. -/
def Accepts (accountIds : List Text) (L : Ledger) : LedgerOp → Prop
  | .insertOrder row => row.accountId ∈ accountIds ∧ ∀ o ∈ L.orders, ¬ SharesKey row o
  | .updateOrderStatus accountId id _ brokerOrderId _ =>
      (∃ o ∈ L.orders, o.id = id ∧ o.accountId = accountId) →
        ∀ b ∈ brokerOrderId, ∀ o ∈ L.orders, o.brokerOrderId = some b → o.id = id
  | .insertFill row =>
      row.accountId ∈ accountIds ∧ ∀ id ∈ row.orderId, ∃ o ∈ L.orders, o.id = id

instance (accountIds : List Text) (L : Ledger) (op : LedgerOp) :
    Decidable (L.Accepts accountIds op) :=
  match op with
  | .insertOrder _ => inferInstanceAs (Decidable (_ ∧ _))
  | .updateOrderStatus _ _ _ _ _ => inferInstanceAs (Decidable (_ → _))
  | .insertFill _ => inferInstanceAs (Decidable (_ ∧ _))

/-- What an operation writes when it does not throw. -/
def write (L : Ledger) : LedgerOp → Ledger
  | .insertOrder row => L.insertOrder row
  | .updateOrderStatus accountId id status brokerOrderId tsClose =>
      L.updateOrderStatus accountId id status brokerOrderId tsClose
  | .insertFill row => L.insertFill row

/-- The ledger after an operation; one that throws leaves it as it is. -/
def perform (accountIds : List Text) (L : Ledger) (op : LedgerOp) : Ledger :=
  if L.Accepts accountIds op then L.write op else L

/-! ## Keys -/

/-- The keys of the tables: no two orders with one id, no two with one ticket, over all accounts,
and no fill of an order that is not there. -/
structure Keyed (L : Ledger) : Prop where
  ids : (L.orders.map (·.id)).Nodup
  tickets : ∀ o ∈ L.orders, ∀ k ∈ L.orders, ∀ b, o.brokerOrderId = some b →
    k.brokerOrderId = some b → o.id = k.id
  parents : ∀ f ∈ L.fills, ∀ id ∈ f.orderId, ∃ o ∈ L.orders, o.id = id

theorem keyed_empty : Keyed {} where
  ids := List.nodup_nil
  tickets := by simp
  parents := by simp

/-- An id is that of one order. -/
theorem Keyed.eq_of_id {L : Ledger} (h : L.Keyed) {o k : OrderRow} (ho : o ∈ L.orders)
    (hk : k ∈ L.orders) (hid : o.id = k.id) : o = k :=
  List.inj_on_of_nodup_map h.ids ho hk hid

/-- A ticket is that of one order. -/
theorem Keyed.eq_of_ticket {L : Ledger} (h : L.Keyed) {o k : OrderRow} (ho : o ∈ L.orders)
    (hk : k ∈ L.orders) {b : Text} (hob : o.brokerOrderId = some b)
    (hkb : k.brokerOrderId = some b) : o = k :=
  h.eq_of_id ho hk (h.tickets o ho k hk b hob hkb)

/-- Ids do not change in a status update. -/
theorem map_id_updateOrderStatus (L : Ledger) (accountId id status : Text)
    (brokerOrderId : Option Text) (tsClose : Option ℚ) :
    (L.updateOrderStatus accountId id status brokerOrderId tsClose).orders.map (·.id) =
      L.orders.map (·.id) := by
  rw [updateOrderStatus, List.map_map]
  refine List.map_congr_left fun o _ => ?_
  dsimp only [Function.comp]
  split <;> rfl

/-- What a status update makes of an order. -/
theorem mem_updateOrderStatus {L : Ledger} {accountId id status : Text}
    {brokerOrderId : Option Text} {tsClose : Option ℚ} {k : OrderRow}
    (hk : k ∈ (L.updateOrderStatus accountId id status brokerOrderId tsClose).orders) :
    (k ∈ L.orders ∧ ¬ (k.id = id ∧ k.accountId = accountId)) ∨
    ∃ o ∈ L.orders, (o.id = id ∧ o.accountId = accountId) ∧
      k = { o with
        status := status
        brokerOrderId := brokerOrderId.or o.brokerOrderId
        tsClose := tsClose.or o.tsClose } := by
  obtain ⟨o, ho, rfl⟩ := List.mem_map.mp hk
  split
  · next h => exact Or.inr ⟨o, ho, h, rfl⟩
  · next h => exact Or.inl ⟨ho, h⟩

/-- A ticket after an accepted update was the order's before, or it is the new one. -/
theorem ticket_updateOrderStatus {accountIds : List Text} {L : Ledger}
    {accountId id status : Text} {brokerOrderId : Option Text} {tsClose : Option ℚ}
    (ha : L.Accepts accountIds (.updateOrderStatus accountId id status brokerOrderId tsClose))
    {k : OrderRow}
    (hk : k ∈ (L.updateOrderStatus accountId id status brokerOrderId tsClose).orders) {b : Text}
    (hb : k.brokerOrderId = some b) :
    (k.id = id ∧ ∀ o ∈ L.orders, o.brokerOrderId = some b → o.id = id) ∨
      ∃ o ∈ L.orders, o.id = k.id ∧ o.brokerOrderId = some b := by
  rcases mem_updateOrderStatus hk with ⟨hmem, -⟩ | ⟨o, ho, ⟨hid, haccount⟩, rfl⟩
  · exact Or.inr ⟨k, hmem, rfl, hb⟩
  · cases hticket : brokerOrderId with
    | none => exact Or.inr ⟨o, ho, rfl, by simpa [hticket] using hb⟩
    | some c =>
        obtain rfl : c = b := by simpa [hticket] using hb
        exact Or.inl ⟨hid, ha ⟨o, ho, hid, haccount⟩ c hticket⟩

theorem Keyed.insertOrder {L : Ledger} (h : L.Keyed) {row : OrderRow}
    (hnew : ∀ o ∈ L.orders, ¬ SharesKey row o) : (L.insertOrder row).Keyed := by
  refine ⟨?_, ?_, ?_⟩
  · show ((L.orders ++ [row]).map (·.id)).Nodup
    rw [List.map_append, List.nodup_append]
    refine ⟨h.ids, List.nodup_singleton _, ?_⟩
    intro id hid id' hid'
    obtain ⟨o, ho, rfl⟩ := List.mem_map.mp hid
    rw [List.map_singleton, List.mem_singleton] at hid'
    rintro rfl
    exact hnew o ho (Or.inl hid')
  · -- two orders with one ticket are both old: the new row shares none
    intro o ho k hk b hob hkb
    rcases List.mem_append.mp ho with hold | hrow <;>
      rcases List.mem_append.mp hk with hold' | hrow'
    · exact h.tickets o hold k hold' b hob hkb
    · obtain rfl := List.mem_singleton.mp hrow'
      exact absurd (Or.inr ⟨b, hkb, hob⟩) (hnew o hold)
    · obtain rfl := List.mem_singleton.mp hrow
      exact absurd (Or.inr ⟨b, hob, hkb⟩) (hnew k hold')
    · rw [List.mem_singleton.mp hrow, List.mem_singleton.mp hrow']
  · intro f hf id hid
    obtain ⟨o, ho, hoid⟩ := h.parents f hf id hid
    exact ⟨o, List.mem_append_left _ ho, hoid⟩

theorem Keyed.updateOrderStatus {accountIds : List Text} {L : Ledger} (h : L.Keyed)
    {accountId id status : Text} {brokerOrderId : Option Text} {tsClose : Option ℚ}
    (ha : L.Accepts accountIds (.updateOrderStatus accountId id status brokerOrderId tsClose)) :
    (L.updateOrderStatus accountId id status brokerOrderId tsClose).Keyed := by
  have hids := map_id_updateOrderStatus L accountId id status brokerOrderId tsClose
  refine ⟨?_, ?_, ?_⟩
  · exact hids ▸ h.ids
  · -- a ticket was there before, or it is the one that the update has stored
    intro o ho k hk b hob hkb
    rcases ticket_updateOrderStatus ha ho hob with ⟨hoid, hob⟩ | ⟨o₀, ho₀, hoid, hob⟩ <;>
      rcases ticket_updateOrderStatus ha hk hkb with ⟨hkid, hkb⟩ | ⟨k₀, hk₀, hkid, hkb⟩
    · rw [hoid, hkid]
    · rw [hoid, ← hkid, hob k₀ hk₀ hkb]
    · rw [hkid, ← hoid, hkb o₀ ho₀ hob]
    · rw [← hoid, ← hkid, h.tickets o₀ ho₀ k₀ hk₀ b hob hkb]
  · intro f hf i hi
    obtain ⟨o, ho, hoid⟩ := h.parents f hf i hi
    have hmem : i ∈ (L.updateOrderStatus accountId id status brokerOrderId tsClose).orders.map
        (·.id) := hids ▸ List.mem_map.mpr ⟨o, ho, hoid⟩
    exact List.mem_map.mp hmem

theorem Keyed.insertFill {L : Ledger} (h : L.Keyed) {row : FillRow}
    (hparent : ∀ id, row.orderId = some id → ∃ o ∈ L.orders, o.id = id) :
    (L.insertFill row).Keyed := by
  refine ⟨h.ids, h.tickets, ?_⟩
  intro f hf id hid
  rcases List.mem_append.mp hf with hf | hf
  · exact h.parents f hf id hid
  · obtain rfl := List.mem_singleton.mp hf
    exact hparent id hid

/-- **An accepted operation keeps the keys.** -/
theorem Keyed.write {accountIds : List Text} {L : Ledger} (h : L.Keyed) {op : LedgerOp}
    (ha : L.Accepts accountIds op) : (L.write op).Keyed := by
  cases op with
  | insertOrder row => exact h.insertOrder ha.2
  | updateOrderStatus accountId id status brokerOrderId tsClose => exact h.updateOrderStatus ha
  | insertFill row => exact h.insertFill ha.2
theorem Keyed.perform {accountIds : List Text} {L : Ledger} (h : L.Keyed) (op : LedgerOp) :
    (L.perform accountIds op).Keyed := by
  rw [Ledger.perform]
  split
  · next ha => exact h.write ha
  · exact h

/-- The update that an event makes of a named order is accepted: the order keeps its ticket. -/
theorem Keyed.accepts_named {L : Ledger} (h : L.Keyed) (accountIds : List Text)
    {accountId : Text} {brokerOrderId : Option Text} {o : OrderRow}
    (ho : namedOrder L accountId brokerOrderId = some o) (status : Text) (tsClose : Option ℚ) :
    L.Accepts accountIds
      (.updateOrderStatus accountId o.id status o.brokerOrderId tsClose) := by
  rintro - b hb k hk hkb
  exact h.tickets k hk o (namedOrder_spec ho).1 b hkb hb

/-- **Events keep the keys.** -/
theorem Keyed.handleEvent {L : Ledger} (h : L.Keyed) (rows : List AccountRow) (now : ℚ)
    (f : Frame) : (handleEvent rows now L f).Keyed := by
  cases f with
  | fill data ts =>
      cases ha : fallbackAccount rows with
      | none => exact (handleEvent_of_no_account ha now L _).symm ▸ h
      | some account =>
          rw [handleEvent_fill_eq ha]
          have haccepts : L.Accepts [account.id]
              (.insertFill (bookedRow L account.id now data ts)) := by
            refine ⟨List.mem_singleton_self _, ?_⟩
            intro id hid
            obtain ⟨o, ho, rfl⟩ := Option.map_eq_some_iff.mp hid
            exact ⟨o, (namedOrder_spec ho).1, rfl⟩
          have hfill := h.write haccepts
          cases ho : namedOrder L account.id data.brokerOrderId with
          | none => exact hfill
          | some o => exact hfill.write (hfill.accepts_named [] ho "filled" _)
  | orderState data ts =>
      cases ha : fallbackAccount rows with
      | none => exact (handleEvent_of_no_account ha now L _).symm ▸ h
      | some account =>
          rw [handleEvent_orderState_eq ha]
          cases ho : namedOrder L account.id data.brokerOrderId with
          | none => exact h
          | some o => exact h.write (h.accepts_named [] ho data.status _)
  | position data ts => exact h
  | account data ts => exact h
  | startup ts => exact h
  | response id ok result error => exact h

end Ledger

/-- A pending order of an account. -/
def ticketOrder (id accountId ticket : Text) : OrderRow where
  id := id
  accountId := accountId
  instrument := "EURUSD"
  side := .buy
  qty := 1
  type := .market
  status := "pending"
  brokerOrderId := some ticket
  tsOpen := 0
  tsClose := none

end AkronSlot.Slot
