import AkronSlot.Slot.SimCosts

/-!
# Closing a position of the simulator

`closeTrade` reads the position when it is called and places a market order of the other
side; the order is filled when a timer fires, whatever the position is by then.  Nothing
counts what closes that are under way will take, and nothing caps what is asked for.

## Promised quantities

Between a call and its timer the position is promised and not yet taken. `pending` adds up what
is promised, `left` is what remains, and the code has neither: it compares with the position as
it stands. `Covered` is the invariant that the missing counter would keep; it is kept by every
call that asks for no more than what is left, and a timer then takes from the position what was
promised before.

## Main Definitions

* `SimRecord` with `openTrade`, `closeTrade` and the fill timer
* `ClosesOnly` — a step that does not take a position through zero
* `WithinLeft` — a close asks for no more than closes under way leave

## Main Results

* `Covered.step` — then the closes under way never exceed the position
* `closesOnly_along_iff`
-/

namespace AkronSlot.Slot

open Wire Systems Ledger

/-! ## Orders and timers -/

/-- An order whose timer has not fired; a market order has no price. Its side and quantity are
settled when it is placed, and are not looked at again. -/
structure SimOrder where
  instrument : Text
  side : Side
  qty : ℚ
  price : Option ℚ
  qty_pos : 0 < qty

/-- Its fill; `rng` is the price that the generator makes. -/
def SimOrder.fill (o : SimOrder) (rng : ℚ) : SimFill :=
  ⟨o.instrument, o.side, o.qty, o.price.getD rng, o.qty_pos⟩

/-- The record of an account, with the timers that are set. That every position has a quantity
above zero is a field: a position that is closed is deleted. -/
structure SimRecord where
  positions : OrderedMap Text SimPosition
  timers : List SimOrder
  held : Stocked positions

namespace SimRecord

/-- `openTrade` of a known account. -/
def openTrade (s : SimRecord) (order : SimOrder) : SimRecord :=
  { s with timers := s.timers ++ [order] }

/-- The instrument of a position: its id without the prefix `sim-pos-`. -/
def instrumentOf (positionId : Text) : Text :=
  if "sim-pos-".toList <+: positionId then positionId.drop 8 else positionId

/-- The order that closes a position. -/
def closingOrder (instrument : Text) (pos : SimPosition) (hpos : 0 < pos.qty)
    (qty : Option {q : ℚ // 0 < q}) : SimOrder where
  instrument := instrument
  side := if pos.long then .sell else .buy
  qty := (qty.getD ⟨pos.qty, hpos⟩).1
  price := none
  qty_pos := (qty.getD ⟨pos.qty, hpos⟩).2

/-- `closeTrade` of a known account, or the reason of its refusal. -/
def closeTrade (s : SimRecord) (positionId : Text) (qty : Option {q : ℚ // 0 < q}) :
    Except Text SimRecord :=
  match hpos : s.positions.get (instrumentOf positionId) with
  | none => .error "no position to close"
  | some pos =>
      .ok (s.openTrade (closingOrder (instrumentOf positionId) pos (s.held _ _ hpos) qty))

/-- A timer fires. -/
def fire (s : SimRecord) (i : ℕ) (order : SimOrder) (rng : ℚ) : SimRecord where
  positions := fillPosition s.positions (order.fill rng)
  timers := s.timers.eraseIdx i
  held := s.held.fillPosition

/-- A call of `closeTrade`, or a timer. Between a call and its timer other calls may come, and
each of them sees the position as it was. -/
inductive Event where
  | close (positionId : Text) (qty : Option {q : ℚ // 0 < q})
  | fill (i : ℕ) (rng : ℚ)

/-- One event; a refused call changes nothing. -/
def step (s : SimRecord) : Event → Option SimRecord
  | .close positionId qty =>
      match s.closeTrade positionId qty with
      | .ok s' => some s'
      | .error _ => some s
  | .fill i rng => (s.timers[i]?).map fun order => s.fire i order rng

/-! ## What is left -/

/-- The quantity of a position; none is zero. -/
def heldQty (s : SimRecord) (instrument : Text) : ℚ :=
  ((s.positions.get instrument).map (·.qty)).getD 0

/-- What the timers of an instrument will take. -/
def pending (timers : List SimOrder) (instrument : Text) : ℚ :=
  ((timers.filter (·.instrument = instrument)).map (·.qty)).sum

/-- What closes under way leave of a position. -/
def left (s : SimRecord) (instrument : Text) : ℚ :=
  s.heldQty instrument - pending s.timers instrument

/-- A call of `closeTrade` on an open position asks for no more than what is left. It is a
condition on the call; a timer and a refused call meet it by themselves. -/
def WithinLeft (s : SimRecord) : Event → Prop
  | .close positionId qty => ∀ pos, s.positions.get (instrumentOf positionId) = some pos →
      (qty.map (·.1)).getD pos.qty ≤ s.left (instrumentOf positionId)
  | .fill _ _ => True

/-- No side flips and no quantity grows, and a close of more than what is left is refused
or capped. -/
structure ClosesOnly (s : SimRecord) (e : Event) (s' : SimRecord) : Prop where
  keeps : ∀ instrument p', s'.positions.get instrument = some p' →
    ∃ p, s.positions.get instrument = some p ∧ p'.long = p.long ∧ p'.qty ≤ p.qty
  capped : ∀ positionId qty, e = .close positionId qty → s'.timers = s.timers ∨
    ∃ order, s'.timers = s.timers ++ [order] ∧ order.qty ≤ s.left (instrumentOf positionId)

/-- The closes under way are of the other side, and do not exceed the position. With it a timer
can only reduce a position, and not take it through zero. -/
structure Covered (s : SimRecord) : Prop where
  enough : ∀ instrument, 0 ≤ s.left instrument
  against : ∀ order ∈ s.timers, ∀ p, s.positions.get order.instrument = some p →
    decide (0 < sign order.side) ≠ p.long

/-! ## Sums of what is pending -/

theorem pending_append (timers : List SimOrder) (order : SimOrder) (instrument : Text) :
    pending (timers ++ [order]) instrument =
      pending timers instrument + if order.instrument = instrument then order.qty else 0 := by
  rw [pending, pending, List.filter_append, List.map_append, List.sum_append, add_right_inj]
  by_cases h : order.instrument = instrument <;> simp [h]

/-- A timer that fires takes its quantity out of what is pending. -/
theorem pending_eraseIdx {timers : List SimOrder} {i : ℕ} {order : SimOrder}
    (h : timers[i]? = some order) (instrument : Text) :
    pending timers instrument = pending (timers.eraseIdx i) instrument +
      if order.instrument = instrument then order.qty else 0 := by
  obtain ⟨hi, rfl⟩ := List.getElem?_eq_some_iff.mp h
  have hperm := (List.getElem_cons_eraseIdx_perm hi).symm
  have hsum := ((hperm.filter (·.instrument = instrument)).map (·.qty)).sum_eq
  rw [pending, hsum, pending]
  by_cases hname : timers[i].instrument = instrument
  · simp [hname, add_comm]
  · simp [hname]

theorem pending_nonneg (timers : List SimOrder) (instrument : Text) :
    0 ≤ pending timers instrument := by
  refine List.sum_nonneg fun q hq => ?_
  obtain ⟨order, -, rfl⟩ := List.mem_map.mp hq
  exact order.qty_pos.le

/-! ## One event -/

section Step

variable {s s' : SimRecord}

theorem closeTrade_of_get {positionId : Text} {qty : Option {q : ℚ // 0 < q}} {pos : SimPosition}
    (h : s.positions.get (instrumentOf positionId) = some pos) :
    s.closeTrade positionId qty = .ok (s.openTrade
      (closingOrder (instrumentOf positionId) pos (s.held _ _ h) qty)) := by
  unfold closeTrade
  split
  · next hnone => cases h.symm.trans hnone
  · next p hp =>
      obtain rfl := Option.some.inj (h.symm.trans hp)
      rfl

theorem closeTrade_of_none {positionId : Text} {qty : Option {q : ℚ // 0 < q}}
    (h : s.positions.get (instrumentOf positionId) = none) :
    s.closeTrade positionId qty = .error "no position to close" := by
  unfold closeTrade
  split
  · rfl
  · next p hp => cases h.symm.trans hp

/-- **What an event can do.** -/
theorem step_cases {e : Event} (h : s.step e = some s') :
    (∃ positionId qty, e = .close positionId qty ∧
      s.positions.get (instrumentOf positionId) = none ∧ s' = s) ∨
    (∃ positionId qty pos hpos, e = .close positionId qty ∧
      s.positions.get (instrumentOf positionId) = some pos ∧
      s' = s.openTrade (closingOrder (instrumentOf positionId) pos hpos qty)) ∨
    ∃ i rng order, e = .fill i rng ∧ s.timers[i]? = some order ∧ s' = s.fire i order rng := by
  cases e with
  | close positionId qty =>
      cases hget : s.positions.get (instrumentOf positionId) with
      | none =>
          rw [step, closeTrade_of_none hget] at h
          exact .inl ⟨positionId, qty, rfl, hget, (Option.some.inj h).symm⟩
      | some pos =>
          rw [step, closeTrade_of_get hget] at h
          exact .inr (.inl ⟨positionId, qty, pos, s.held _ _ hget, rfl, hget,
            (Option.some.inj h).symm⟩)
  | fill i rng =>
      rw [step, Option.map_eq_some_iff] at h
      obtain ⟨order, horder, rfl⟩ := h
      exact .inr (.inr ⟨i, rng, order, rfl, horder, rfl⟩)

/-- The order that closes a position is of the other side. -/
theorem closingOrder_against (instrument : Text) (pos : SimPosition) (hpos : 0 < pos.qty)
    (qty : Option {q : ℚ // 0 < q}) :
    decide (0 < sign (closingOrder instrument pos hpos qty).side) ≠ pos.long := by
  cases hlong : pos.long <;> simp [closingOrder, hlong, sign]

theorem qty_closingOrder (instrument : Text) (pos : SimPosition) (hpos : 0 < pos.qty)
    (qty : Option {q : ℚ // 0 < q}) :
    (closingOrder instrument pos hpos qty).qty = (qty.map (·.1)).getD pos.qty := by
  cases qty <;> rfl

/-- What a timer makes of a position that its order does not exceed. -/
theorem get_fire {i : ℕ} {order : SimOrder} {rng : ℚ} (hcovered : s.Covered)
    (horder : s.timers[i]? = some order) : ∃ pos,
      s.positions.get order.instrument = some pos ∧ order.qty ≤ pos.qty ∧
      ∃ avg, (s.fire i order rng).positions.get order.instrument =
        if order.qty < pos.qty then some ⟨pos.long, pos.qty - order.qty, avg⟩ else none := by
  have hmem := List.mem_of_getElem? horder
  have henough := hcovered.enough order.instrument
  have hpending := pending_eraseIdx horder order.instrument
  have hrest := pending_nonneg (s.timers.eraseIdx i) order.instrument
  rw [if_pos rfl] at hpending
  have hqty : order.qty ≤ s.heldQty order.instrument := by
    rw [left, hpending] at henough
    linarith
  cases hget : s.positions.get order.instrument with
  | none =>
      have hpos := order.qty_pos
      rw [heldQty, hget] at hqty
      exact absurd (hpos.trans_le hqty) (lt_irrefl _)
  | some pos =>
      have hle : order.qty ≤ pos.qty := by
        rw [heldQty, hget] at hqty
        exact hqty
      -- a covered order is on the other side, and no larger than the position
      have hside : (order.fill rng).long ≠ pos.long := hcovered.against order hmem pos hget
      have hfilled := @get_fillPosition s.positions (order.fill rng) pos hget (s.held _ _ hget)
      refine ⟨pos, rfl, hle, weighted pos (order.fill rng), hfilled.trans ?_⟩
      have hqty' : (order.fill rng).qty = order.qty := rfl
      rw [filledPosition, if_neg hside, hqty']
      by_cases hless : order.qty < pos.qty
      · rw [if_pos hless, if_pos hless]
      · have hequal : order.qty = pos.qty := le_antisymm hle (not_lt.mp hless)
        rw [if_neg hless, if_neg hless, if_pos hequal]

theorem get_fire_of_ne {i : ℕ} {order : SimOrder} {rng : ℚ} {instrument : Text}
    (h : instrument ≠ order.instrument) :
    (s.fire i order rng).positions.get instrument = s.positions.get instrument :=
  get_fillPosition_of_ne h

/-- **An event closes only exactly when it asks for no more than what is left.** -/
theorem closesOnly_iff {e : Event} (hcovered : s.Covered) (h : s.step e = some s') :
    s.ClosesOnly e s' ↔ s.WithinLeft e := by
  rcases step_cases h with ⟨positionId, qty, rfl, hget, rfl⟩ |
    ⟨positionId, qty, pos, hpos, rfl, hget, rfl⟩ | ⟨i, rng, order, rfl, horder, rfl⟩
  · refine iff_of_true ⟨fun _ p' hp' => ⟨p', hp', rfl, le_rfl⟩, fun _ _ _ => .inl rfl⟩ ?_
    intro pos hpos
    cases hget.symm.trans hpos
  · constructor
    · rintro ⟨-, hcapped⟩ p hp
      obtain rfl := Option.some.inj (hget.symm.trans hp)
      rcases hcapped positionId qty rfl with hsame | ⟨order, hsent, hle⟩
      · simp [openTrade] at hsame
      · rw [← qty_closingOrder (instrumentOf positionId) pos hpos qty]
        rw [openTrade, List.append_cancel_left_eq, List.singleton_inj] at hsent
        rwa [hsent]
    · intro hleft
      refine ⟨fun _ p' hp' => ⟨p', hp', rfl, le_rfl⟩, ?_⟩
      rintro _ _ ⟨⟩
      exact .inr ⟨_, rfl, by rw [qty_closingOrder]; exact hleft pos hget⟩
  · refine iff_of_true ⟨fun instrument p' hp' => ?_, by rintro _ _ ⟨⟩⟩ trivial
    by_cases hname : instrument = order.instrument
    · subst hname
      obtain ⟨pos, hpos, -, avg, hfire⟩ := get_fire hcovered horder
      rw [hfire] at hp'
      split_ifs at hp' with hless
      cases hp'
      exact ⟨pos, hpos, rfl, by have := order.qty_pos; dsimp only; linarith⟩
    · rw [get_fire_of_ne hname] at hp'
      exact ⟨p', hp', rfl, le_rfl⟩

/-- **The closes under way stay covered** while none asks for more than what is left. -/
theorem Covered.step {e : Event} (hcovered : s.Covered) (hleft : s.WithinLeft e)
    (h : s.step e = some s') : s'.Covered := by
  rcases step_cases h with ⟨positionId, qty, rfl, hget, rfl⟩ |
    ⟨positionId, qty, pos, hpos, rfl, hget, rfl⟩ | ⟨i, rng, order, rfl, horder, rfl⟩
  · exact hcovered
  · refine ⟨fun instrument => ?_, fun order horder p hp => ?_⟩
    · have henough := hcovered.enough instrument
      have hqty := hleft pos hget
      rw [left] at henough hqty ⊢
      simp only [openTrade, pending_append, qty_closingOrder]
      change 0 ≤ s.heldQty instrument - _
      split_ifs with hname
      · obtain rfl : instrumentOf positionId = instrument := hname
        linarith
      · linarith
    · rcases List.mem_append.mp horder with hold | hnew
      · exact hcovered.against order hold p hp
      · obtain rfl := List.mem_singleton.mp hnew
        obtain rfl := Option.some.inj (hget.symm.trans hp)
        exact closingOrder_against _ _ hpos qty
  · obtain ⟨pos, hpos, hle, avg, hfire⟩ := @get_fire s i order rng hcovered horder
    have hpending := pending_eraseIdx horder
    refine ⟨fun instrument => ?_, fun o ho p hp => ?_⟩
    · have henough := hcovered.enough instrument
      rw [left, hpending] at henough
      rw [left]
      change 0 ≤ heldQty (s.fire i order rng) instrument - pending (s.timers.eraseIdx i) instrument
      by_cases hname : order.instrument = instrument
      · subst hname
        rw [if_pos rfl, heldQty, hpos] at henough
        rw [heldQty, hfire]
        change 0 ≤ pos.qty - _ at henough
        split_ifs with hless
        · change 0 ≤ pos.qty - order.qty - _
          linarith
        · change 0 ≤ (0 : ℚ) - _
          linarith
      · rw [if_neg hname, heldQty] at henough
        rw [heldQty, get_fire_of_ne (Ne.symm hname)]
        linarith
    · have hold : o ∈ s.timers := List.mem_of_mem_eraseIdx ho
      by_cases hname : o.instrument = order.instrument
      · rw [hname, hfire] at hp
        split_ifs at hp with hless
        cases hp
        exact hcovered.against o hold pos (by rw [hname, hpos])
      · rw [get_fire_of_ne hname] at hp
        exact hcovered.against o hold p hp

/-- **Every event of a run closes only exactly when every close asks for no more than what
is left**, from any positions without timers. -/
theorem closesOnly_along_iff {events : List Event} (hidle : s.timers = [])
    (hrun : run step s events = some s') :
    (∀ before e after t t', events = before ++ e :: after → run step s before = some t →
      step t e = some t' → t.ClosesOnly e t') ↔ Along step WithinLeft s events := by
  have hcovered : s.Covered := by
    refine ⟨fun instrument => ?_, fun order horder => ?_⟩
    · have hnone : pending s.timers instrument = 0 := by rw [hidle]; rfl
      rw [left, hnone, sub_zero, heldQty]
      cases hget : s.positions.get instrument with
      | none => exact le_rfl
      | some pos => exact (s.held _ _ hget).le
    · rw [hidle] at horder
      cases horder
  exact @steps_iff_along_of_cond _ _ step ClosesOnly WithinLeft Covered
    (fun _ _ _ hs hstep => closesOnly_iff hs hstep)
    (fun _ _ _ hs hcond hstep => hs.step hcond hstep) s s' events hcovered hrun

end Step

/-! ## Closing twice -/

/-- Two lots long at 1. -/
def twoLots : OrderedMap Text SimPosition :=
  ({} : OrderedMap Text SimPosition).set "EURUSD" ⟨true, 2, 1⟩

theorem get_twoLots (instrument : Text) :
    twoLots.get instrument = if instrument = "EURUSD" then some ⟨true, 2, 1⟩ else none := by
  rw [twoLots, OrderedMap.get_set, OrderedMap.get_empty]

/-- An account with two lots. -/
def longRecord : SimRecord where
  positions := twoLots
  timers := []
  held := by
    intro instrument p h
    rw [get_twoLots] at h
    split_ifs at h
    cases h
    norm_num

/-- One lot. -/
def oneLot : {q : ℚ // 0 < q} := ⟨_, (lotFill .sell 1 1).qty_pos⟩

/-- Two calls close one lot each, before the timer of the first one fires. -/
def closedInHalves : List Event :=
  [.close "sim-pos-EURUSD" (some oneLot), .close "sim-pos-EURUSD" (some oneLot), .fill 0 1,
    .fill 0 1]

/-- The position is closed, and closed again before the timer fires. -/
def closedTwice : List Event :=
  [.close "sim-pos-EURUSD" none, .close "sim-pos-EURUSD" none, .fill 0 1, .fill 0 1]

theorem instrumentOf_eurusd : instrumentOf "sim-pos-EURUSD" = "EURUSD" := by decide

/-- What a call sends while no timer has fired. -/
theorem step_close {s : SimRecord} (hs : s.positions = twoLots) (qty : Option {q : ℚ // 0 < q}) :
    ∃ order, s.step (.close "sim-pos-EURUSD" qty) = some (s.openTrade order) ∧
      order.instrument = "EURUSD" ∧ order.side = .sell ∧ order.qty = (qty.map (·.1)).getD 2 := by
  have hget : s.positions.get (instrumentOf "sim-pos-EURUSD") = some ⟨true, 2, 1⟩ := by
    rw [instrumentOf_eurusd, hs, get_twoLots, if_pos rfl]
  refine ⟨_, by rw [step, closeTrade_of_get hget], instrumentOf_eurusd, rfl, ?_⟩
  exact qty_closingOrder _ _ _ _

/-- Whatever is under way, a call asks for no more than what is left of the two lots. -/
theorem withinLeft_halves {s : SimRecord} (hs : s.positions = twoLots)
    (hpending : pending s.timers "EURUSD" ≤ 1) :
    s.WithinLeft (.close "sim-pos-EURUSD" (some oneLot)) := by
  intro pos _
  have hheld : s.heldQty "EURUSD" = 2 := by
    rw [heldQty, hs, get_twoLots, if_pos rfl]
    rfl
  have hone : oneLot.1 = 1 := by simp [oneLot, lotFill]
  rw [instrumentOf_eurusd, left, hheld, Option.map_some, Option.getD_some, hone]
  linarith

/-- The second call asks for what the first one has left. -/
theorem closedInHalves_along : Along step WithinLeft longRecord closedInHalves := by
  have hnone : pending longRecord.timers "EURUSD" = 0 := rfl
  refine ⟨withinLeft_halves rfl (by rw [hnone]; norm_num), fun s hs => ⟨?_, fun _ _ =>
    ⟨trivial, fun _ _ => ⟨trivial, fun _ _ => trivial⟩⟩⟩⟩
  obtain ⟨order, hstep, hname, -, hqty⟩ := step_close (s := longRecord) rfl (some oneLot)
  obtain rfl := Option.some.inj (hstep.symm.trans hs)
  refine withinLeft_halves rfl (le_of_eq ?_)
  show pending (longRecord.timers ++ [order]) "EURUSD" = 1
  rw [pending_append, hnone, if_pos hname, hqty]
  simp [oneLot, lotFill]

/-- Both timers find what they close. -/
theorem closedInHalves_run : ∃ s, run step longRecord closedInHalves = some s := by
  obtain ⟨first, hfirst, -⟩ := step_close (s := longRecord) rfl (some oneLot)
  obtain ⟨second, hsecond, -⟩ := step_close (s := longRecord.openTrade first) rfl (some oneLot)
  exact ⟨_, (run_cons step).mpr ⟨_, hfirst, (run_cons step).mpr ⟨_, hsecond, rfl⟩⟩⟩

theorem closedInHalves_closesOnly : Along step WithinLeft longRecord closedInHalves ∧
    ∀ before e after t t', closedInHalves = before ++ e :: after →
      run step longRecord before = some t → step t e = some t' → t.ClosesOnly e t' := by
  obtain ⟨s, hrun⟩ := closedInHalves_run
  exact ⟨closedInHalves_along, (closesOnly_along_iff rfl hrun).mpr closedInHalves_along⟩

/-- The second timer sells two lots more. -/
theorem closedTwice_not_closesOnly :
    ¬ ∀ before e after t t', closedTwice = before ++ e :: after →
      run step longRecord before = some t → step t e = some t' → t.ClosesOnly e t' := by
  intro h
  obtain ⟨first, hfirst, hname, hside, hqty⟩ := step_close (s := longRecord) rfl none
  obtain ⟨second, hsecond, hname', -⟩ := step_close (s := longRecord.openTrade first) rfl none
  -- the account after both calls and the first timer
  have hrun : run step longRecord
      [.close "sim-pos-EURUSD" none, .close "sim-pos-EURUSD" none, .fill 0 1] =
        some (((longRecord.openTrade first).openTrade second).fire 0 first 1) :=
    (run_cons step).mpr ⟨_, hfirst, (run_cons step).mpr ⟨_, hsecond, rfl⟩⟩
  have hkeeps := (h [.close "sim-pos-EURUSD" none, .close "sim-pos-EURUSD" none, .fill 0 1]
    (.fill 0 1) [] _ _ rfl hrun rfl).keeps
  have hflat : (fillPosition twoLots (first.fill 1)).get "EURUSD" = none := by
    have hget : twoLots.get (first.fill 1).instrument = some ⟨true, 2, 1⟩ := by
      rw [show (first.fill 1).instrument = "EURUSD" from hname, get_twoLots, if_pos rfl]
    have hfilled := @get_fillPosition twoLots (first.fill 1) ⟨true, 2, 1⟩ hget two_pos
    rw [show (first.fill 1).instrument = "EURUSD" from hname] at hfilled
    refine hfilled.trans ?_
    simp [filledPosition, SimFill.long, SimOrder.fill, hside, hqty, sign]
  have hshort := @get_fillPosition_none (fillPosition twoLots (first.fill 1)) (second.fill 1)
  rw [show (second.fill 1).instrument = "EURUSD" from hname'] at hshort
  obtain ⟨p, hp, -⟩ := hkeeps "EURUSD" _ (hshort hflat)
  cases hflat.symm.trans hp

end SimRecord

end AkronSlot.Slot
