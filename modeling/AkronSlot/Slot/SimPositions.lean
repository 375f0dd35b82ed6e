import AkronSlot.Slot.LedgerOps
import AkronSlot.Slot.Redelivery
import AkronSlot.Systems.OrderedMap

/-!
# Positions of the simulator and of the ledger (`connectors/sim.ts`)

The simulator keeps an unsigned quantity and a side for each instrument and changes them in
four branches; the ledger sums signed quantities.  Both come from one net quantity, so the
lists that the reconciler compares agree.

## One number behind both

An entry of the simulator is a side and a positive quantity, and no entry is a zero; the ledger
has a sum with a sign. `KeepsNet` says that the first is the second written differently, and
each of the four branches (open, add, reduce, turn) is an addition under this reading. The dust
that both sides leave out is the same, so that the lists agree and not only the numbers.

## Main Definitions

* `SimFill`, `SimPosition`, `fillPosition`
* `simPositions`
* `RecordedAs`, `SamePositions`

## Main Results

* `KeepsNet.fillPosition` — the four branches are one sum
* `simPositions_agree`
-/

namespace AkronSlot.Slot

open Wire Systems Ledger

/-- A fill of the simulator, with the side of its order. -/
structure SimFill where
  instrument : Text
  side : Side
  qty : ℚ
  price : ℚ
  qty_pos : 0 < qty

/-- What the simulator keeps of a position. -/
structure SimPosition where
  long : Bool
  qty : ℚ
  avgPrice : ℚ

/-- A `Position` that the simulator reports. -/
structure SimReport where
  id : Text
  accountId : Text
  instrument : Text
  long : Bool
  qty : ℚ
  avgPrice : ℚ
  markPrice : ℚ

/-- `1` for long and `-1` for short. -/
def direction (long : Bool) : ℚ := if long then 1 else -1

/-- The fill timer of `SimConnector.openTrade`: its four branches, with the position that is there
when the timer fires. -/
def fillPosition (positions : OrderedMap Text SimPosition) (f : SimFill) :
    OrderedMap Text SimPosition :=
  match positions.get f.instrument with
  | none => positions.set f.instrument ⟨decide (0 < sign f.side), f.qty, f.price⟩
  | some cur =>
      let newQty := cur.qty * direction cur.long + sign f.side * f.qty
      if SignType.sign newQty = SignType.sign (direction cur.long) ∨ newQty = 0 then
        if newQty = 0 then positions.delete f.instrument
        else
          let long := decide (0 < newQty)
          let avg :=
            if long = cur.long then
              (cur.avgPrice * cur.qty + f.price * f.qty) / (cur.qty + f.qty)
            else f.price
          positions.set f.instrument ⟨long, |newQty|, avg⟩
      else
        -- through zero: the other side, at the price of the fill
        positions.set f.instrument ⟨decide (0 < newQty), |newQty|, f.price⟩

/-- `SimConnector.positions`; `rng` is what the calls of the generator return. -/
def simPositions (accountRef : Text) (rng : ℕ → ℚ) (positions : OrderedMap Text SimPosition) :
    List SimReport :=
  (positions.entries.filter fun e => ¬ e.2.qty < dust).mapIdx fun i e =>
    { id := "sim-pos-".toList ++ e.1
      accountId := accountRef
      instrument := e.1
      long := e.2.long
      qty := e.2.qty
      avgPrice := e.2.avgPrice
      markPrice := e.2.avgPrice + (rng i - 1 / 2) * (4 / 10000) }

/-! ## Net quantities -/

/-- The net quantity of a sequence of fills. -/
def simNet (fills : List SimFill) (instrument : Text) : ℚ :=
  ((fills.filter (·.instrument = instrument)).map fun f => sign f.side * f.qty).sum

/-- A position with its sign. -/
def SimPosition.signed (p : SimPosition) : ℚ := p.qty * direction p.long

/-- The position with a signed quantity. -/
theorem signed_of_net (x avg : ℚ) : (⟨decide (0 < x), |x|, avg⟩ : SimPosition).signed = x := by
  by_cases hx : 0 < x
  · simp [SimPosition.signed, direction, hx, abs_of_pos hx]
  · simp [SimPosition.signed, direction, hx, abs_of_nonpos (not_lt.mp hx)]

/-- What is kept for an instrument is its net quantity, and nothing when that is zero. The average
price is left out: it is not what the two sides are compared by. -/
def KeepsNet (positions : OrderedMap Text SimPosition) (instrument : Text) (net : ℚ) : Prop :=
  (net = 0 ∧ positions.get instrument = none) ∨
    (net ≠ 0 ∧ ∃ avg, positions.get instrument = some ⟨decide (0 < net), |net|, avg⟩)

/-- **The four branches are one sum.** -/
theorem KeepsNet.fillPosition {positions : OrderedMap Text SimPosition} {f : SimFill} {net : ℚ}
    (h : KeepsNet positions f.instrument net) :
    KeepsNet (fillPosition positions f) f.instrument (net + sign f.side * f.qty) := by
  rcases h with ⟨rfl, hget⟩ | ⟨hnet, avg, hget⟩
  · right
    rw [Slot.fillPosition, hget, zero_add]
    dsimp only
    rw [OrderedMap.get_set, if_pos rfl]
    have hqty := f.qty_pos
    cases f.side with
    | buy => simp [abs_of_pos hqty, hqty, hqty.ne']
    | sell =>
        have hshort : ¬ 0 < -f.qty := by linarith
        norm_num [abs_of_pos hqty, hqty.ne', hshort]
  · rw [Slot.fillPosition, hget]
    have hsigned := signed_of_net net avg
    rw [SimPosition.signed] at hsigned
    dsimp only at hsigned ⊢
    rw [hsigned]
    by_cases hzero : net + sign f.side * f.qty = 0
    · left
      rw [if_pos (Or.inr hzero), if_pos hzero, OrderedMap.get_delete, if_pos rfl]
      exact ⟨hzero, rfl⟩
    · right
      refine ⟨hzero, ?_⟩
      rw [if_neg hzero]
      split <;> exact ⟨_, by rw [OrderedMap.get_set, if_pos rfl]⟩

/-- A fill changes no other instrument. -/
theorem get_fillPosition_of_ne {positions : OrderedMap Text SimPosition} {f : SimFill}
    {instrument : Text} (h : instrument ≠ f.instrument) :
    (fillPosition positions f).get instrument = positions.get instrument := by
  rw [fillPosition]
  split
  · rw [OrderedMap.get_set, if_neg h]
  · dsimp only
    split
    · split
      · rw [OrderedMap.get_delete, if_neg h]
      · rw [OrderedMap.get_set, if_neg h]
    · rw [OrderedMap.get_set, if_neg h]

theorem KeepsNet.fillPosition_of_ne {positions : OrderedMap Text SimPosition} {f : SimFill}
    {instrument : Text} {net : ℚ} (h : KeepsNet positions instrument net)
    (hne : instrument ≠ f.instrument) :
    KeepsNet (Slot.fillPosition positions f) instrument net := by
  rw [KeepsNet, get_fillPosition_of_ne hne]
  exact h

/-- What is kept after a sequence of fills. -/
theorem keepsNet_simNet (fills : List SimFill) (instrument : Text) :
    KeepsNet (fills.foldl fillPosition {}) instrument (simNet fills instrument) := by
  induction fills using List.reverseRecOn with
  | nil => exact Or.inl ⟨rfl, rfl⟩
  | append_singleton fills f ih =>
      rw [List.foldl_append, simNet, List.filter_append, List.map_append, List.sum_append]
      by_cases hname : f.instrument = instrument
      · subst hname
        have hstep := ih.fillPosition
        simpa [simNet] using hstep
      · have hstep := ih.fillPosition_of_ne (Ne.symm hname)
        simpa [simNet, hname] using hstep

/-! ## Reports -/

/-- What the two lists of positions are compared by. -/
def SimReport.triple (p : SimReport) : Text × Bool × ℚ := (p.instrument, p.long, p.qty)

def triple (p : LedgerPosition) : Text × Bool × ℚ := (p.instrument, p.long, p.qty)

/-- The entry of an instrument with a net quantity. -/
def entryOf (instrument : Text) (net : ℚ) : Text × Bool × ℚ :=
  (instrument, decide (0 < net), |net|)

/-- A list has an entry for every instrument whose net quantity is not dust, and no other. -/
structure Reports (net : Text → ℚ) (entries : List (Text × Bool × ℚ)) : Prop where
  mem_iff : ∀ e, e ∈ entries ↔ dust ≤ |net e.1| ∧ e = entryOf e.1 (net e.1)
  nodup : (entries.map Prod.fst).Nodup

/-- Two reports of the same quantities have the same entries. -/
theorem Reports.perm {net : Text → ℚ} {entries entries' : List (Text × Bool × ℚ)}
    (h : Reports net entries) (h' : Reports net entries') : entries.Perm entries' :=
  (List.perm_ext_iff_of_nodup h.nodup.of_map h'.nodup.of_map).mpr fun e =>
    (h.mem_iff e).trans (h'.mem_iff e).symm

theorem triple_simPositions (accountRef : Text) (rng : ℕ → ℚ)
    (positions : OrderedMap Text SimPosition) :
    (simPositions accountRef rng positions).map SimReport.triple =
      (positions.entries.filter fun e => ¬ e.2.qty < dust).map
        fun e => (e.1, e.2.long, e.2.qty) := by
  refine List.ext_getElem (by simp [simPositions]) fun i _ _ => ?_
  simp [simPositions, SimReport.triple]

/-- The simulator reports its net quantities. -/
theorem reports_simPositions (accountRef : Text) (rng : ℕ → ℚ) (fills : List SimFill) :
    Reports (simNet fills)
      ((simPositions accountRef rng (fills.foldl fillPosition {})).map SimReport.triple) := by
  rw [triple_simPositions]
  constructor
  · rintro ⟨instrument, long, qty⟩
    rw [List.mem_map]
    dsimp only
    constructor
    · rintro ⟨⟨name, p⟩, hmem, heq⟩
      obtain ⟨hentry, hdust⟩ := List.mem_filter.mp hmem
      obtain ⟨rfl, rfl, rfl⟩ : name = instrument ∧ p.long = long ∧ p.qty = qty := by simpa using heq
      rw [OrderedMap.mem_entries_iff] at hentry
      rcases keepsNet_simNet fills name with ⟨-, hnone⟩ | ⟨-, avg, hget⟩
      · rw [hnone] at hentry
        cases hentry
      · obtain rfl := Option.some.inj (hget.symm.trans hentry)
        exact ⟨by simpa using hdust, rfl⟩
    · rintro ⟨hdust, heq⟩
      rcases keepsNet_simNet fills instrument with ⟨hzero, -⟩ | ⟨-, avg, hget⟩
      · rw [hzero, abs_zero] at hdust
        exact absurd hdust (not_le.mpr dust_pos)
      · refine ⟨_, List.mem_filter.mpr ⟨(OrderedMap.mem_entries_iff _).mpr hget, ?_⟩, heq.symm⟩
        simpa using hdust
  · rw [List.map_map]
    exact (OrderedMap.nodup_keys _).sublist (List.filter_sublist.map _)

/-- The ledger reports its net quantities. -/
theorem reports_positionsFor (L : Ledger) (accountId : Text) :
    Reports (L.netFilled accountId) ((L.positionsFor accountId).map triple) := by
  have hnodup : ((L.lots accountId).map Prod.fst).Nodup := nodup_keys_tally _
  rw [positionsFor, List.map_map]
  constructor
  · rintro ⟨instrument, long, qty⟩
    rw [List.mem_map, ← total_lots]
    dsimp only
    constructor
    · rintro ⟨⟨name, net⟩, hmem, heq⟩
      obtain ⟨hentry, hdust⟩ := List.mem_filter.mp hmem
      have htotal : total name (L.lots accountId) = net := total_of_mem hnodup hentry
      obtain rfl : name = instrument := congrArg Prod.fst heq
      rw [htotal]
      exact ⟨by simpa using hdust, heq.symm⟩
    · rintro ⟨hdust, heq⟩
      have hkey : instrument ∈ (L.lots accountId).map Prod.fst := by
        by_contra hnot
        rw [total_of_notMem hnot, abs_zero] at hdust
        exact absurd hdust (not_le.mpr dust_pos)
      obtain ⟨⟨name, net⟩, hentry, rfl⟩ := List.mem_map.mp hkey
      have htotal : total name (L.lots accountId) = net := total_of_mem hnodup hentry
      rw [htotal] at hdust heq
      exact ⟨_, List.mem_filter.mpr ⟨hentry, by simpa using hdust⟩, heq.symm⟩
  · rw [List.map_map]
    exact hnodup.sublist (List.filter_sublist.map _)

/-- The fills of an account are those of the simulator, each with a parent of its side. Their
order does not matter to a sum, and is the same here. -/
def RecordedAs (L : Ledger) (accountId : Text) (fills : List SimFill) : Prop :=
  List.Forall₂ (fun (s : SimFill) (f : FillRow) => f.instrument = s.instrument ∧ f.qty = s.qty ∧
    f.price = s.price ∧ L.fillSide f = s.side) fills (fillsOf L accountId)

theorem netFilled_of_recordedAs {L : Ledger} {accountId : Text} {fills : List SimFill}
    (h : RecordedAs L accountId fills) (instrument : Text) :
    L.netFilled accountId instrument = simNet fills instrument := by
  rw [netFilled, simNet]
  unfold RecordedAs fillsOf at h
  generalize L.fills.filter (·.accountId = accountId) = rows at h ⊢
  induction h with
  | nil => rfl
  | @cons s f fills rows hfirst _ ih =>
      obtain ⟨hname, hqty, -, hside⟩ := hfirst
      by_cases heq : s.instrument = instrument
      · have heq' : f.instrument = instrument := hname.trans heq
        simp only [List.filter_cons, heq, heq', decide_true, if_true, List.map_cons, List.sum_cons,
          ih, hqty, hside]
      · have heq' : f.instrument ≠ instrument := fun h => heq (hname.symm.trans h)
        simp only [List.filter_cons, heq, heq', decide_false, Bool.false_eq_true, if_false, ih]

/-- Two lists of positions have the same entries, one for each instrument, and no dust. Their
order may differ, because the two are built from maps that are filled in different orders. -/
structure SamePositions (sim : List SimReport) (ledger : List LedgerPosition) : Prop where
  entries : (sim.map SimReport.triple).Perm (ledger.map triple)
  sim_once : (sim.map (·.instrument)).Nodup
  ledger_once : (ledger.map (·.instrument)).Nodup
  sim_qty : ∀ p ∈ sim, dust ≤ p.qty
  ledger_qty : ∀ p ∈ ledger, dust ≤ p.qty

/-- **The simulator and the ledger report the same positions** for the same fills. The simulator
has four branches, for opening, adding, reducing and turning over; each of them leaves the sum of
the signed quantities, which is what the ledger computes in one pass. -/
theorem simPositions_agree {L : Ledger} {accountId : Text} {fills : List SimFill}
    (h : RecordedAs L accountId fills) (accountRef : Text) (rng : ℕ → ℚ) :
    SamePositions (simPositions accountRef rng (fills.foldl fillPosition {}))
      (L.positionsFor accountId) := by
  have hsim := reports_simPositions accountRef rng fills
  have hledger := reports_positionsFor L accountId
  have hnet : L.netFilled accountId = simNet fills := funext (netFilled_of_recordedAs h)
  rw [hnet] at hledger
  refine ⟨hsim.perm hledger, ?_, ?_, fun p hp => ?_, fun p hp => ?_⟩
  · have honce := hsim.nodup
    rw [List.map_map] at honce
    exact honce
  · have honce := hledger.nodup
    rw [List.map_map] at honce
    exact honce
  · obtain ⟨hdust, hentry⟩ := (hsim.mem_iff p.triple).mp (List.mem_map_of_mem hp)
    exact hdust.trans_eq (congrArg (·.2.2) hentry).symm
  · obtain ⟨hdust, hentry⟩ := (hledger.mem_iff (triple p)).mp (List.mem_map_of_mem hp)
    exact hdust.trans_eq (congrArg (·.2.2) hentry).symm

/-- A fill of whole lots, one at least. -/
def lotFill (side : Side) (lots : ℕ) (price : ℚ) : SimFill :=
  ⟨"EURUSD", side, (lots.toPNat' : ℕ), price, Nat.cast_pos.mpr lots.toPNat'.pos⟩

/-- The row of such a fill. -/
def lotRow (side : Side) (lots : ℕ) (price : ℚ) : FillRow :=
  { sampleRow with
    orderId := some (if side = .buy then "1" else "2"), qty := (lots.toPNat' : ℕ), price := price }

/-- A position is opened, added to, reduced, turned over and closed exactly, and another one
is opened. -/
def turns : List (Side × ℕ × ℚ) :=
  [(.buy, 2, 1), (.buy, 1, 2), (.sell, 1, 3), (.sell, 4, 2), (.buy, 2, 1), (.sell, 3, 1)]

def turnFills : List SimFill := turns.map fun e => lotFill e.1 e.2.1 e.2.2

/-- The ledger with an order for each side. -/
def turnLedger : Ledger where
  orders := [ticketOrder "1" "a" "42", { ticketOrder "2" "a" "43" with side := .sell }]
  fills := turns.map fun e => lotRow e.1 e.2.1 e.2.2

theorem turnLedger_recordedAs : RecordedAs turnLedger "a" turnFills := by
  have hall : fillsOf turnLedger "a" = turns.map fun e => lotRow e.1 e.2.1 e.2.2 :=
    List.filter_eq_self.mpr (List.forall_mem_map.mpr fun _ _ => rfl)
  have hside : ∀ side lots price, turnLedger.fillSide (lotRow side lots price) = side := by
    rintro (_ | _) lots price <;> rfl
  rw [RecordedAs, hall, turnFills, List.forall₂_map_left_iff, List.forall₂_map_right_iff]
  exact List.forall₂_same.mpr fun e _ => ⟨rfl, rfl, rfl, hside _ _ _⟩

/-- Three lots short are left in both lists. -/
theorem turnFills_agree : simNet turnFills "EURUSD" = -3 ∧
    SamePositions (simPositions "sim-Demo-5001" (fun _ => 0) (turnFills.foldl fillPosition {}))
      (turnLedger.positionsFor "a") :=
  ⟨by decide +kernel, simPositions_agree turnLedger_recordedAs "sim-Demo-5001" fun _ => 0⟩

end AkronSlot.Slot
