import AkronSlot.Slot.Ledger
import AkronSlot.Systems.AverageCost

/-!
# The average price of a ledger position

`positionsFor` adds up `±qty * price` over all fills of an instrument and divides by the
net quantity.  What a reduction has gained or lost stays in that sum: the price it reports
is the entry price less the realized result for each unit that is left, and it is the
entry price exactly if nothing has been realized in total.

## One sum against a running average

An entry price is a fold over the fills by time: adding to a position moves it, reducing leaves
it, going through zero starts it afresh. The ledger takes one pass without memory instead.
`Systems.AverageCost` has the running average over any signed trades, with the identity that the
turnover of the trades is the cost of what is left less what was realized; here the trades are
the fills of one instrument, and the identity says how far the reported price is off.

## Main Definitions

* `tradesOf` — the fills of an instrument as signed trades
* `entryPrice`, `realized`
* `ReportsEntry` — what is promised of a position

## Main Results

* `avgPrice_eq`, `reportsEntry_iff`
-/

namespace AkronSlot.Slot

open Wire Systems

namespace Ledger

/-- The fills of an instrument by time, as trades: the quantity with the sign of the side of its
order, and the price. A fill without an order counts as a purchase, as in the source. -/
def tradesOf (L : Ledger) (accountId instrument : Text) : List (ℚ × ℚ) :=
  ((L.fillsByTime accountId).filter (·.instrument = instrument)).map fun f =>
    (sign (L.fillSide f) * f.qty, f.price)

/-- The average entry price of what is open: the weighted mean after a fill in the
direction of the position, unchanged by a fill that reduces it, and the price of a fill
that takes it through zero. -/
def entryPrice (L : Ledger) (accountId instrument : Text) : ℚ :=
  (averageCost (L.tradesOf accountId instrument)).entry

/-- What the fills that reduced a position have gained. It is a sum over the whole history of the
instrument, so gains and losses cancel in it. -/
def realized (L : Ledger) (accountId instrument : Text) : ℚ :=
  (averageCost (L.tradesOf accountId instrument)).realized

/-- The fills of an instrument on one side. -/
def fillsOn (L : Ledger) (accountId instrument : Text) (side : Side) : List FillRow :=
  (L.fillsByTime accountId).filter fun f => f.instrument = instrument ∧ L.fillSide f = side

end Ledger

/-- The side of the orders that open a position. -/
def LedgerPosition.side (p : LedgerPosition) : Side := if p.long then .buy else .sell

namespace Ledger

/-- A position reports its entry price, which lies between prices of fills on its side. The second
part is what a reader of a position takes for granted, and what a negative price breaks first. -/
structure ReportsEntry (L : Ledger) (accountId : Text) (p : LedgerPosition) : Prop where
  entry : p.avgPrice = L.entryPrice accountId p.instrument
  low : ∃ f ∈ L.fillsOn accountId p.instrument p.side, f.price ≤ p.avgPrice
  high : ∃ f ∈ L.fillsOn accountId p.instrument p.side, p.avgPrice ≤ f.price

/-! ## The sums of an instrument -/

theorem total_lots_eq_netQty (L : Ledger) (accountId instrument : Text) :
    total instrument (L.lots accountId) = netQty (L.tradesOf accountId instrument) := by
  rw [lots, total_tally, List.filter_map, List.map_map, netQty, tradesOf, List.map_map]
  rfl

theorem total_sumPx_eq_turnover (L : Ledger) (accountId instrument : Text) :
    total instrument (L.sumPx accountId) = turnover (L.tradesOf accountId instrument) := by
  rw [sumPx, total_tally, List.filter_map, List.map_map, turnover, tradesOf, List.map_map]
  rfl

/-- What a reported position is made of. -/
theorem position_spec {L : Ledger} {accountId : Text} {p : LedgerPosition}
    (hp : p ∈ L.positionsFor accountId) :
    netQty (L.tradesOf accountId p.instrument) ≠ 0 ∧
      (p.long ↔ 0 < netQty (L.tradesOf accountId p.instrument)) ∧
      p.avgPrice = turnover (L.tradesOf accountId p.instrument) /
        netQty (L.tradesOf accountId p.instrument) := by
  obtain ⟨e, he, rfl⟩ := List.mem_map.mp hp
  obtain ⟨hlots, hdust⟩ := List.mem_filter.mp he
  have hnodup : ((L.lots accountId).map Prod.fst).Nodup := nodup_keys_tally _
  have hnet : e.2 = netQty (L.tradesOf accountId e.1) := by
    rw [← total_lots_eq_netQty, total_of_mem hnodup hlots]
  have hdust : ¬ |e.2| < dust := by simpa using hdust
  rw [← hnet, ← total_sumPx_eq_turnover]
  refine ⟨fun hzero => hdust ?_, decide_eq_true_iff, rfl⟩
  rw [hzero, abs_zero, dust]
  norm_num

/-- A trade in the direction of a position is a fill on its side. -/
theorem exists_fillsOn {L : Ledger} {accountId : Text} {p : LedgerPosition}
    (hp : p ∈ L.positionsFor accountId)
    (hqty : ∀ f ∈ L.fills, f.accountId = accountId → 0 < f.qty) {P : ℚ → Prop}
    (h : ∃ t ∈ L.tradesOf accountId p.instrument,
      0 < netQty (L.tradesOf accountId p.instrument) * t.1 ∧ P t.2) :
    ∃ f ∈ L.fillsOn accountId p.instrument p.side, P f.price := by
  obtain ⟨-, hlong, -⟩ := position_spec hp
  obtain ⟨t, ht, hside, hprice⟩ := h
  obtain ⟨f, hf, rfl⟩ := List.mem_map.mp ht
  obtain ⟨hbooked, hinstrument⟩ := List.mem_filter.mp hf
  have hmem := List.mem_filter.mp ((List.mergeSort_perm _ _).mem_iff.mp hbooked)
  have hpos : 0 < f.qty := hqty f hmem.1 (by simpa using hmem.2)
  refine ⟨f, List.mem_filter.mpr ⟨hbooked, ?_⟩, hprice⟩
  have hsame : L.fillSide f = p.side := by
    rw [LedgerPosition.side]
    cases hfill : L.fillSide f with
    | buy =>
        rw [hfill, sign_buy, one_mul] at hside
        rw [if_pos (hlong.mpr ((mul_pos_iff_of_pos_right hpos).mp hside))]
    | sell =>
        rw [hfill, sign_sell, neg_one_mul, mul_neg, neg_pos] at hside
        rw [if_neg fun h => hside.not_gt (mul_pos (hlong.mp h) hpos)]
  simpa using ⟨by simpa using hinstrument, hsame⟩

/-- **What the average price is**: the entry price, less the realized result for each unit
that is left. -/
theorem avgPrice_eq {L : Ledger} {accountId : Text} {p : LedgerPosition}
    (hp : p ∈ L.positionsFor accountId) :
    p.avgPrice = L.entryPrice accountId p.instrument -
      L.realized accountId p.instrument / netQty (L.tradesOf accountId p.instrument) := by
  obtain ⟨hne, -, havg⟩ := position_spec hp
  rw [havg, turnover_averageCost, qty_averageCost, sub_div, mul_div_cancel_left₀ _ hne]
  rfl

/-- **A position reports its entry price exactly if nothing has been realized in total** on its
instrument. The price is the signed turnover for each unit held, and the turnover is the cost of
what is held less what has been realized. -/
theorem reportsEntry_iff {L : Ledger} {accountId : Text} {p : LedgerPosition}
    (hp : p ∈ L.positionsFor accountId)
    (hqty : ∀ f ∈ L.fills, f.accountId = accountId → 0 < f.qty) :
    L.ReportsEntry accountId p ↔ L.realized accountId p.instrument = 0 := by
  obtain ⟨hne, -, havg⟩ := position_spec hp
  have hiff : p.avgPrice = L.entryPrice accountId p.instrument ↔
      L.realized accountId p.instrument = 0 := by
    rw [havg]
    exact turnover_div_eq_entry_iff hne
  refine ⟨fun h => hiff.mp h.entry, fun h => ?_⟩
  have hentry := hiff.mpr h
  have hlow := exists_fillsOn (P := (· ≤ L.entryPrice accountId p.instrument)) hp hqty
    (exists_le_entry hne)
  have hhigh := exists_fillsOn (P := (L.entryPrice accountId p.instrument ≤ ·)) hp hqty
    (exists_entry_le hne)
  exact ⟨hentry, by rwa [hentry], by rwa [hentry]⟩

/-! ## A reduction at a profit -/

/-- An order for two lots. -/
def lotsOrder (id : Text) (side : Side) : OrderRow where
  id := id
  accountId := "a"
  instrument := "EURUSD"
  side := side
  qty := 2
  type := .market
  status := "filled"
  brokerOrderId := some id
  tsOpen := 0
  tsClose := none

/-- A fill of an order. -/
def lotsFill (id : Text) (qty price ts : ℚ) : FillRow where
  orderId := some id
  accountId := "a"
  instrument := "EURUSD"
  qty := qty
  price := price
  ts := ts

/-- Two lots are bought at 10, and one lot of the second order is filled at 30. -/
def twoFills (side : Side) : Ledger where
  orders := [lotsOrder "1" .buy, lotsOrder "2" side]
  fills := [lotsFill "1" 2 10 1, lotsFill "2" 1 30 2]

theorem fillsByTime_twoFills (side : Side) :
    (twoFills side).fillsByTime "a" = [lotsFill "1" 2 10 1, lotsFill "2" 1 30 2] := by
  have hsorted : [lotsFill "1" 2 10 1, lotsFill "2" 1 30 2].Pairwise
      fun f g => decide (f.ts ≤ g.ts) := by
    simp [lotsFill]
  exact List.mergeSort_of_pairwise hsorted

theorem tradesOf_twoFills (side : Side) :
    (twoFills side).tradesOf "a" "EURUSD" = [(2, 10), (sign side, 30)] := by
  have hfirst : (twoFills side).fillSide (lotsFill "1" 2 10 1) = .buy := rfl
  have hsecond : (twoFills side).fillSide (lotsFill "2" 1 30 2) = side := rfl
  have hsame : [lotsFill "1" 2 10 1, lotsFill "2" 1 30 2].filter
      (·.instrument = "EURUSD".toList) = [lotsFill "1" 2 10 1, lotsFill "2" 1 30 2] := rfl
  rw [tradesOf, fillsByTime_twoFills, hsame]
  simp only [List.map_cons, List.map_nil, hfirst, hsecond]
  simp [lotsFill]

/-- The position that is reported of the two fills. -/
def reportedPosition (side : Side) : LedgerPosition where
  instrument := "EURUSD"
  long := true
  qty := 2 + sign side
  avgPrice := (20 + sign side * 30) / (2 + sign side)

theorem positionsFor_twoFills (side : Side) :
    (twoFills side).positionsFor "a" = [reportedPosition side] := by
  have hfirst : (twoFills side).fillSide (lotsFill "1" 2 10 1) = .buy := rfl
  have hsecond : (twoFills side).fillSide (lotsFill "2" 1 30 2) = side := rfl
  have hpos : 0 < 2 + sign side := by cases side <;> norm_num
  have hdust : ¬ |2 + sign side| < dust := by cases side <;> norm_num [dust]
  have hlots : (twoFills side).lots "a" = [("EURUSD".toList, 2 + sign side)] := by
    rw [lots, fillsByTime_twoFills]
    simp only [List.map_cons, List.map_nil, hfirst, hsecond]
    simp [lotsFill, tally, addTo]
  have hturnover : total "EURUSD".toList ((twoFills side).sumPx "a") = 20 + sign side * 30 := by
    rw [total_sumPx_eq_turnover, tradesOf_twoFills]
    simp [turnover]
    norm_num
  have hkept : [("EURUSD".toList, 2 + sign side)].filter (fun e => ¬ |e.2| < dust) =
      [("EURUSD".toList, 2 + sign side)] := List.filter_cons_of_pos (decide_eq_true hdust)
  rw [positionsFor, hlots, hkept, List.map_singleton, hturnover, abs_of_pos hpos,
    decide_eq_true hpos]
  rfl

/-- Three lots are bought at 10.  One of them is sold at a profit, and one at the same loss. -/
def evenFills : Ledger where
  orders := [lotsOrder "1" .buy, lotsOrder "2" .sell]
  fills := [lotsFill "1" 3 10 1, lotsFill "2" 1 12 2, lotsFill "2" 1 8 3]

theorem fillsByTime_evenFills : evenFills.fillsByTime "a" =
    [lotsFill "1" 3 10 1, lotsFill "2" 1 12 2, lotsFill "2" 1 8 3] := by
  have hsorted : [lotsFill "1" 3 10 1, lotsFill "2" 1 12 2, lotsFill "2" 1 8 3].Pairwise
      fun f g => decide (f.ts ≤ g.ts) := by
    norm_num [lotsFill]
  exact List.mergeSort_of_pairwise hsorted

/-- The sides of its fills. -/
theorem fillSide_evenFills : evenFills.fillSide (lotsFill "1" 3 10 1) = .buy ∧
    ∀ qty price ts, evenFills.fillSide (lotsFill "2" qty price ts) = .sell :=
  ⟨rfl, fun _ _ _ => rfl⟩

theorem tradesOf_evenFills :
    evenFills.tradesOf "a" "EURUSD" = [(3, 10), (-1, 12), (-1, 8)] := by
  obtain ⟨hbought, hsold⟩ := fillSide_evenFills
  have hsame : [lotsFill "1" 3 10 1, lotsFill "2" 1 12 2, lotsFill "2" 1 8 3].filter
      (·.instrument = "EURUSD".toList) =
        [lotsFill "1" 3 10 1, lotsFill "2" 1 12 2, lotsFill "2" 1 8 3] := rfl
  rw [tradesOf, fillsByTime_evenFills, hsame]
  simp only [List.map_cons, List.map_nil, hbought, hsold]
  simp [lotsFill]

/-- The lot that is left. -/
def evenPosition : LedgerPosition := ⟨"EURUSD", true, 1, 10⟩

theorem positionsFor_evenFills : evenFills.positionsFor "a" = [evenPosition] := by
  obtain ⟨hbought, hsold⟩ := fillSide_evenFills
  have hlots : evenFills.lots "a" = [("EURUSD".toList, 1)] := by
    rw [lots, fillsByTime_evenFills]
    simp only [List.map_cons, List.map_nil, hbought, hsold]
    norm_num [lotsFill, tally, addTo]
  have hturnover : total "EURUSD".toList (evenFills.sumPx "a") = 10 := by
    rw [total_sumPx_eq_turnover, tradesOf_evenFills]
    norm_num [turnover]
  have hdust : ¬ |(1 : ℚ)| < dust := by norm_num [dust]
  have hkept : [("EURUSD".toList, (1 : ℚ))].filter (fun e => ¬ |e.2| < dust) =
      [("EURUSD".toList, 1)] := List.filter_cons_of_pos (decide_eq_true hdust)
  rw [positionsFor, hlots, hkept, List.map_singleton, hturnover]
  norm_num [evenPosition]

/-- Profit and loss make up for each other: the average price is the entry price. -/
theorem even_reportsEntry : evenFills.positionsFor "a" = [evenPosition] ∧
    evenFills.ReportsEntry "a" evenPosition := by
  have hp : evenPosition ∈ evenFills.positionsFor "a" := by
    rw [positionsFor_evenFills]
    exact List.mem_singleton_self _
  refine ⟨positionsFor_evenFills, (reportsEntry_iff hp ?_).mpr ?_⟩
  · simp [evenFills, lotsFill]
  · show (averageCost (evenFills.tradesOf "a" "EURUSD")).realized = 0
    rw [tradesOf_evenFills]
    norm_num [averageCost, Holding.trade]

/-- **A price below all fills**: one of two lots bought at 10 is sold at 30, and the lot
that is left is reported at an average price of -10. -/
theorem sold_not_reportsEntry :
    (twoFills .sell).positionsFor "a" = [reportedPosition .sell] ∧
      (reportedPosition .sell).avgPrice = -10 ∧
      (twoFills .sell).entryPrice "a" "EURUSD" = 10 ∧
      ¬ (twoFills .sell).ReportsEntry "a" (reportedPosition .sell) := by
  have havg : (reportedPosition .sell).avgPrice = -10 := by norm_num [reportedPosition]
  have hentry : (twoFills .sell).entryPrice "a" "EURUSD" = 10 := by
    rw [entryPrice, tradesOf_twoFills]
    norm_num [averageCost, Holding.trade]
  refine ⟨positionsFor_twoFills .sell, havg, hentry, fun h => ?_⟩
  have hsame : (-10 : ℚ) = 10 := by rw [← havg, h.entry, ← hentry]; rfl
  norm_num at hsame

end Ledger

end AkronSlot.Slot
