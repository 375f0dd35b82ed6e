import AkronSlot.Slot.OrderLifecycle
import AkronSlot.Slot.Redelivery

/-!
# Orders that are executed in parts

A fill marks its order `filled` whatever its quantity.  The status of an order agrees with
the quantities of its fills exactly if the first fill that reaches it is the whole of it,
and later ones do not take anything away.

## Which sums decide

A frame that reaches an order sets its status and adds its quantity, and neither of the two
looks at the other. After any number of frames the status is therefore known from whether one
has come, and the quantity is a sum; `Tracks` says both. The law compares them at every prefix
of the sequence, so it comes down to a condition on the partial sums.

## Main Definitions

* `executed`, `StatusLaw`
* `reaches`

## Main Results

* `tracks_receiveFills` — an order after a sequence of fills
* `statusLaw_iff_of_mem`
-/

namespace AkronSlot.Slot

open Wire Systems Ledger

/-- The quantity of the recorded fills of an order. It is what its status should agree with, and
no column has it. -/
def executed (L : Ledger) (id : Text) : ℚ := ((L.fillsForOrder id).map (·.qty)).sum

/-- An order is filled when its fills add up to it, and pending before. A sum beyond the quantity
still counts as filled. -/
def StatusLaw (L : Ledger) (id : Text) : Prop :=
  ∀ o ∈ L.orders, o.id = id →
    (o.status = "filled" ↔ o.qty ≤ executed L id) ∧
      (executed L id < o.qty → o.status = "pending")

/-- The quantity that is recorded for a fill. -/
def fillQty (f : FillFrame) : ℚ := ((f.data.qty.or f.data.volume).map Numeral.value).getD 0

/-- The frames that find an order by its ticket. The others are booked without an order, or not at
all. -/
def reaches (accountId ticket : Text) (f : FillFrame) : Bool :=
  bookedOn accountId f && !ticket.isEmpty

/-- The order with a ticket. -/
structure HasTicket (L : Ledger) (ticket : Text) (o : OrderRow) : Prop where
  keys : L.Keyed
  mem : o ∈ L.orders
  ticket : o.brokerOrderId = some ticket

section Orders

variable {L : Ledger} {ticket : Text} {o : OrderRow}

/-- The order is found for its account, and for no other one. -/
theorem HasTicket.namedOrder (h : HasTicket L ticket o) (accountId : Text) :
    namedOrder L accountId (some ticket) =
      if accountId = o.accountId ∧ ticket ≠ [] then some o else none := by
  split
  · next hfound =>
      obtain ⟨rfl, hne⟩ := hfound
      refine namedOrder_eq_some_iff.mpr ⟨ticket, rfl, hne, ?_⟩
      cases hget : L.getOrderByBrokerId o.accountId ticket with
      | none =>
          have hnone := List.find?_eq_none.mp hget o h.mem
          simp [h.ticket] at hnone
      | some k =>
          have hk : Slot.namedOrder L o.accountId (some ticket) = some k :=
            namedOrder_eq_some_iff.mpr ⟨ticket, rfl, hne, hget⟩
          obtain ⟨hmem, -, hkticket⟩ := namedOrder_spec hk
          rw [h.keys.eq_of_ticket hmem h.mem hkticket h.ticket]
  · next hother =>
      by_contra hsome
      obtain ⟨k, hk⟩ := Option.ne_none_iff_exists'.mp hsome
      obtain ⟨hmem, haccount, hkticket⟩ := namedOrder_spec hk
      obtain ⟨b, hb, hne, -⟩ := namedOrder_eq_some_iff.mp hk
      obtain rfl := h.keys.eq_of_ticket hmem h.mem hkticket h.ticket
      cases hb
      exact hother ⟨haccount.symm, hne⟩

/-- What a sequence of fill frames makes of an order with a ticket. It is kept by each further
frame, which reaches the order or does not. -/
structure Tracks (L : Ledger) (o : OrderRow) (ticket : Text) (fs : List FillFrame) (L' : Ledger)
    (o' : OrderRow) : Prop where
  order : HasTicket L' ticket o'
  id : o'.id = o.id
  accountId : o'.accountId = o.accountId
  qty : o'.qty = o.qty
  status : o'.status =
    if fs.any (reaches o.accountId ticket) then ("filled" : Text) else o.status
  executed : executed L' o.id =
    executed L o.id + ((fs.filter (reaches o.accountId ticket)).map fillQty).sum

theorem executed_insertFill (L : Ledger) (row : FillRow) (id : Text) :
    executed (L.insertFill row) id =
      executed L id + if row.orderId = some id then row.qty else 0 := by
  unfold executed fillsForOrder insertFill
  rw [List.filter_append, List.map_append, List.sum_append]
  by_cases hid : row.orderId = some id <;> simp [hid]

theorem reaches_eq {f : FillFrame} {account : AccountRow}
    (ha : fallbackAccount f.rows = some account) (accountId : Text) :
    reaches accountId ticket f = decide (account.id = accountId ∧ ticket ≠ []) := by
  rw [reaches, bookedOn, ha]
  cases ticket <;> simp

/-- One frame. -/
theorem HasTicket.tracks_handleEvent (h : HasTicket L ticket o) {f : FillFrame}
    (hf : f.data.brokerOrderId = some ticket) :
    ∃ o', Tracks L o ticket [f] (handleEvent f.rows f.now L (.fill f.data f.ts)) o' := by
  have hkeys := h.keys.handleEvent f.rows f.now (.fill f.data f.ts)
  cases ha : fallbackAccount f.rows with
  | none =>
      have hreach : reaches o.accountId ticket f = false := by
        rw [reaches, bookedOn, ha]
        rfl
      rw [handleEvent_of_no_account ha]
      exact ⟨o, h, rfl, rfl, rfl, by simp [hreach], by simp [hreach]⟩
  | some account =>
      have hnamed := h.namedOrder account.id
      rw [handleEvent_fill_eq ha, hf] at hkeys ⊢
      -- an empty ticket names no order
      by_cases hfound : account.id = o.accountId ∧ ticket ≠ []
      · have hreach : reaches o.accountId ticket f = true := by
          rw [reaches_eq ha, decide_eq_true hfound]
        rw [hnamed, if_pos hfound, Option.elim_some, hfound.1] at hkeys ⊢
        let time := (f.ts.map Numeral.value).getD f.now
        refine ⟨closedRow o "filled" time, ?_, rfl, rfl, rfl, ?_, ?_⟩
        · exact ⟨hkeys, (mem_update_iff h.keys h.mem _ _).mpr (Or.inr rfl), h.ticket⟩
        · simp [hreach, closedRow]
        · refine (executed_insertFill L _ o.id).trans ?_
          have hparent : (bookedRow L o.accountId f.now f.data f.ts).orderId = some o.id := by
            rw [bookedRow, hf, ← hfound.1, hnamed, if_pos hfound]
            rfl
          rw [if_pos hparent]
          simp [hreach, bookedRow, fillQty]
      · have hreach : reaches o.accountId ticket f = false := by
          rw [reaches_eq ha, decide_eq_false hfound]
        rw [hnamed, if_neg hfound, Option.elim_none] at hkeys ⊢
        refine ⟨o, ⟨hkeys, h.mem, h.ticket⟩, rfl, rfl, rfl, by simp [hreach], ?_⟩
        rw [executed_insertFill, bookedRow, hf, hnamed, if_neg hfound]
        simp [hreach]

/-- **The order after a sequence of fills**: any frame that reaches it has filled it, and
all of them are recorded. -/
theorem HasTicket.tracks_receiveFills (h : HasTicket L ticket o) {fs : List FillFrame}
    (hfs : ∀ f ∈ fs, f.data.brokerOrderId = some ticket) :
    ∃ o', Tracks L o ticket fs (receiveFills L fs) o' := by
  induction fs generalizing L o with
  | nil => exact ⟨o, h, rfl, rfl, rfl, by simp, by simp [receiveFills]⟩
  | cons f fs ih =>
      obtain ⟨hf, hfs⟩ := List.forall_mem_cons.mp hfs
      obtain ⟨o₁, hone⟩ := h.tracks_handleEvent hf
      obtain ⟨o', hrest⟩ := ih hone.order hfs
      refine ⟨o', hrest.order, hrest.id.trans hone.id, hrest.accountId.trans hone.accountId,
        hrest.qty.trans hone.qty, ?_, ?_⟩
      · rw [hrest.status, hone.status, hone.accountId, List.any_cons, List.any_cons, List.any_nil,
          Bool.or_false]
        cases reaches o.accountId ticket f with
        | true => rw [Bool.true_or, if_pos rfl, ite_self]
        | false => rfl
      · have hsum := hrest.executed
        rw [hone.accountId, hone.id, hone.executed] at hsum
        refine hsum.trans ?_
        rw [← @List.singleton_append _ f fs, List.filter_append, List.map_append,
          List.sum_append, add_assoc]

/-- The law of an order, told by its row. -/
theorem statusLaw_iff_of_mem (h : L.Keyed) (ho : o ∈ L.orders) :
    StatusLaw L o.id ↔ (o.status = "filled" ↔ o.qty ≤ executed L o.id) ∧
      (executed L o.id < o.qty → o.status = "pending") := by
  constructor
  · exact fun hlaw => hlaw o ho rfl
  · intro hlaw k hk hid
    obtain rfl := h.eq_of_id hk ho hid
    exact hlaw

end Orders

/-- **Partial fills**: after every prefix of a sequence of fills the status agrees with the
executed quantity exactly if it did before, and as soon as a fill has reached the order the
whole of it is executed. -/
theorem statusLaw_receiveFills_iff {L : Ledger} (hkeys : L.Keyed) {o : OrderRow}
    (ho : o ∈ L.orders) {ticket : Text} (hticket : o.brokerOrderId = some ticket)
    {fs : List FillFrame} (hfs : ∀ f ∈ fs, f.data.brokerOrderId = some ticket) :
    (∀ n, StatusLaw (receiveFills L (fs.take n)) o.id) ↔
      StatusLaw L o.id ∧
        ∀ n, (∃ f ∈ fs.take n, reaches o.accountId ticket f) →
          o.qty ≤ executed L o.id +
            (((fs.take n).filter (reaches o.accountId ticket)).map fillQty).sum := by
  -- the first fill that reaches the order closes it, whatever it executes
  have hafter : ∀ n, StatusLaw (receiveFills L (fs.take n)) o.id ↔
      if (fs.take n).any (reaches o.accountId ticket) then
        o.qty ≤ executed L o.id +
          (((fs.take n).filter (reaches o.accountId ticket)).map fillQty).sum
      else StatusLaw L o.id := by
    intro n
    have hprefix : ∀ f ∈ fs.take n, f.data.brokerOrderId = some ticket :=
      fun f hf => hfs f (List.mem_of_mem_take hf)
    obtain ⟨o', htracks⟩ := HasTicket.tracks_receiveFills ⟨hkeys, ho, hticket⟩ hprefix
    rw [← htracks.id, statusLaw_iff_of_mem htracks.order.keys htracks.order.mem, htracks.id,
      htracks.executed, htracks.status, htracks.qty]
    split
    · simp
    · next hnone =>
        have hempty : (fs.take n).filter (reaches o.accountId ticket) = [] :=
          List.filter_eq_nil_iff.mpr fun f hf hreach =>
            hnone (List.any_eq_true.mpr ⟨f, hf, hreach⟩)
        rw [hempty, List.map_nil, List.sum_nil, add_zero, statusLaw_iff_of_mem hkeys ho]
  simp only [hafter, ← List.any_eq_true]
  constructor
  · intro h
    refine ⟨?_, fun n hreach => ?_⟩
    · have hstart := h 0
      rw [List.take_zero, if_neg (by simp)] at hstart
      exact hstart
    · have hn := h n
      rw [if_pos hreach] at hn
      exact hn
  · rintro ⟨hstart, hreached⟩ n
    split
    · next hreach => exact hreached n hreach
    · exact hstart

/-- A fill of half the quantity of an order with the ticket 42. -/
def halfFill : FillFrame where
  rows := sampleDeps.accounts
  now := 0
  data := { sampleFill with qty := some (Numeral.ofNat 1) }
  ts := none

/-- An order of two lots. -/
def twoLotOrder : OrderRow := { ticketOrder "1" "a" "42" with qty := 2 }

def twoLots : Ledger where
  orders := [twoLotOrder]

theorem executed_twoLots : executed twoLots "1" = 0 := rfl

theorem keyed_twoLots : twoLots.Keyed where
  ids := by simp [twoLots]
  tickets := by simp [twoLots]
  parents := by simp [twoLots]

/-- The law for a fill of the whole order. -/
theorem wholeFill_statusLaw :
    (∀ n, StatusLaw (receiveFills twoLots ([sampleFrame].take n)) "1") ↔
      StatusLaw twoLots "1" ∧
        ∀ n, (∃ f ∈ [sampleFrame].take n, reaches "a" "42" f) →
          (2 : ℚ) ≤ executed twoLots "1" +
            ((([sampleFrame].take n).filter (reaches "a" "42")).map fillQty).sum :=
  statusLaw_receiveFills_iff keyed_twoLots List.mem_cons_self rfl fun _ hf =>
    List.mem_singleton.mp hf ▸ rfl

/-- Half of the order is executed, and it is `filled`. -/
theorem half_executed_filled :
    StatusLaw twoLots "1" ∧
    (receiveFills twoLots [halfFill]).orders.map (·.status) = ["filled".toList] ∧
    executed (receiveFills twoLots [halfFill]) "1" = 1 ∧
    ¬ StatusLaw (receiveFills twoLots [halfFill]) "1" := by
  have hafter : receiveFills twoLots [halfFill] =
      (twoLots.insertFill (bookedRow twoLots "a" 0 halfFill.data none)).updateOrderStatus "a" "1"
        "filled" (some "42") (some 0) := by
    show handleEvent sampleDeps.accounts 0 twoLots (.fill halfFill.data none) = _
    rw [handleEvent_fill_eq sampleDeps_fallback]
    rfl
  have horders : (receiveFills twoLots [halfFill]).orders =
      [closedRow twoLotOrder "filled" 0] := by
    rw [hafter]
    rfl
  have hexecuted : executed (receiveFills twoLots [halfFill]) "1" = 1 := by
    rw [hafter]
    refine (executed_insertFill twoLots _ _).trans ?_
    have hparent : (bookedRow twoLots "a" 0 halfFill.data none).orderId = some "1".toList := rfl
    rw [if_pos hparent]
    have hqty : (bookedRow twoLots "a" 0 halfFill.data none).qty = (Numeral.ofNat 1).value := rfl
    rw [hqty, Numeral.value_ofNat]
    rw [executed_twoLots, zero_add, Nat.cast_one]
  refine ⟨?_, by rw [horders]; rfl, hexecuted, ?_⟩
  · intro o ho hid
    rw [twoLots, List.mem_singleton] at ho
    subst ho
    refine ⟨iff_of_false (by decide) ?_, fun _ => rfl⟩
    rw [not_le]
    show executed twoLots "1" < 2
    norm_num [executed_twoLots]
  · intro hlaw
    obtain ⟨hfilled, -⟩ := hlaw _ (horders ▸ List.mem_singleton_self _) rfl
    have hwhole := hfilled.mp rfl
    rw [hexecuted] at hwhole
    norm_num [closedRow, twoLotOrder] at hwhole

end AkronSlot.Slot
