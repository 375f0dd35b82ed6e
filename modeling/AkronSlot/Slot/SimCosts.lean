import AkronSlot.Slot.SimPositions
import AkronSlot.Systems.AverageCost
import AkronSlot.Systems.Runs

/-!
# The average price of the simulator

The fill timer tests on which side the position is after a fill, not on which side the fill
is.  A fill that only reduces a position leaves it on its side and so changes its average
price as if it had been added (`get_fillPosition`).

## Side of the position, side of the fill

The source asks whether the position is on the same side before and after, and takes that for a
fill in its direction. A partial close passes this test too. `get_fillPosition` sorts the
outcome by the sides and the quantities, which is how the average cost is defined, so that the
wrong branch stands next to the right one; a price equal to the average hides the difference,
which is why the condition speaks of prices.

## Main Definitions

* `FollowsCost` — what a fill should make of a position
* `ReducesOffPrice` — a fill that reduces a position at another price than its average

## Main Results

* `followsCost_along_iff`
* `heldBy_averageCost` — then the simulator keeps the average cost
-/

namespace AkronSlot.Slot

open Wire Systems Ledger

/-! ## One fill -/

/-- The side that a fill opens. -/
def SimFill.long (f : SimFill) : Bool := decide (0 < sign f.side)

theorem SimFill.sign_eq (f : SimFill) : sign f.side = direction f.long := by
  cases hside : f.side <;> norm_num [SimFill.long, hside, sign, direction]

theorem long_directed (b : Bool) {r : ℚ} (hr : 0 < r) : decide (0 < direction b * r) = b := by
  cases b <;> simp [direction, hr, hr.le]

theorem abs_directed (b : Bool) {r : ℚ} (hr : 0 < r) : |direction b * r| = r := by
  cases b <;> simp [direction, abs_of_pos hr]

theorem sign_directed (b : Bool) {r : ℚ} (hr : 0 < r) :
    SignType.sign (direction b * r) = SignType.sign (direction b) := by
  rw [sign_mul, sign_pos hr, mul_one]

theorem sign_direction_ne {b c : Bool} (h : b ≠ c) :
    SignType.sign (direction b) ≠ SignType.sign (direction c) := by
  cases b <;> cases c <;> simp [direction] at h ⊢

theorem direction_of_ne {b c : Bool} (h : b ≠ c) : direction b = -direction c := by
  cases b <;> cases c <;> simp [direction] at h ⊢

theorem directed_ne_zero (b : Bool) {r : ℚ} (hr : 0 < r) : direction b * r ≠ 0 := by
  cases b <;> simp [direction, hr.ne']

/-- The mean of two prices, weighted by the quantities. -/
def weighted (p : SimPosition) (f : SimFill) : ℚ :=
  (p.avgPrice * p.qty + f.price * f.qty) / (p.qty + f.qty)

/-- What the fill timer makes of a position. -/
def filledPosition (p : SimPosition) (f : SimFill) : Option SimPosition :=
  if f.long = p.long then some ⟨p.long, p.qty + f.qty, weighted p f⟩
  else if f.qty < p.qty then some ⟨p.long, p.qty - f.qty, weighted p f⟩
  else if f.qty = p.qty then none
  else some ⟨f.long, f.qty - p.qty, f.price⟩

section Fill

variable {positions : OrderedMap Text SimPosition} {f : SimFill}

theorem get_fillPosition_none (h : positions.get f.instrument = none) :
    (fillPosition positions f).get f.instrument = some ⟨f.long, f.qty, f.price⟩ := by
  rw [fillPosition, h]
  dsimp only
  rw [OrderedMap.get_set, if_pos rfl, SimFill.long]

/-- A fill that leaves a signed quantity on a side. -/
theorem get_fillPosition_of_net {p : SimPosition} (h : positions.get f.instrument = some p)
    {b : Bool} {r : ℚ} (hr : 0 < r)
    (hnet : p.qty * direction p.long + sign f.side * f.qty = direction b * r) :
    (fillPosition positions f).get f.instrument =
      some ⟨b, r, if b = p.long then weighted p f else f.price⟩ := by
  rw [fillPosition, h]
  dsimp only
  rw [hnet, sign_directed b hr, long_directed b hr, abs_directed b hr,
    if_neg (directed_ne_zero b hr)]
  by_cases hside : b = p.long
  · rw [if_pos (.inl (by rw [hside])), if_pos hside, OrderedMap.get_set, if_pos rfl, if_pos hside,
      weighted]
  · have hsign := sign_direction_ne hside
    rw [if_neg (by simp [hsign, directed_ne_zero b hr]), OrderedMap.get_set, if_pos rfl,
      if_neg hside]

/-- **What a fill makes of a position**, by the sides and the quantities. -/
theorem get_fillPosition {p : SimPosition} (h : positions.get f.instrument = some p)
    (hp : 0 < p.qty) : (fillPosition positions f).get f.instrument = filledPosition p f := by
  have hf := f.qty_pos
  rw [filledPosition]
  by_cases hside : f.long = p.long
  · have hnet : p.qty * direction p.long + sign f.side * f.qty =
        direction p.long * (p.qty + f.qty) := by
      rw [f.sign_eq, hside]
      ring
    rw [get_fillPosition_of_net h (by linarith) hnet, if_pos hside, if_pos rfl]
  · have hnet : p.qty * direction p.long + sign f.side * f.qty =
        direction p.long * (p.qty - f.qty) := by
      rw [f.sign_eq, direction_of_ne hside]
      ring
    rw [if_neg hside]
    rcases lt_trichotomy f.qty p.qty with hless | hequal | hmore
    · rw [get_fillPosition_of_net h (by linarith) hnet, if_pos hless, if_pos rfl]
    · rw [if_neg (by linarith), if_pos hequal, fillPosition, h]
      dsimp only
      rw [hnet, hequal, sub_self, mul_zero, if_pos (.inr rfl), if_pos rfl, OrderedMap.get_delete,
        if_pos rfl]
    · have hflip : p.qty * direction p.long + sign f.side * f.qty =
          direction f.long * (f.qty - p.qty) := by
        rw [hnet, direction_of_ne hside]
        ring
      rw [get_fillPosition_of_net h (by linarith) hflip, if_neg hmore.not_gt, if_neg hmore.ne',
        if_neg hside]

end Fill

/-! ## Average cost -/

/-- What a fill should make of a position: a mean when it is added to, the same price when it is
reduced, the price of the fill when it opens or turns it. -/
structure FollowsCost (cur : Option SimPosition) (f : SimFill) (next : Option SimPosition) :
    Prop where
  opens : cur = none → next = some ⟨f.long, f.qty, f.price⟩
  adds : ∀ p ∈ cur, f.long = p.long → next = some ⟨p.long, p.qty + f.qty, weighted p f⟩
  reduces : ∀ p ∈ cur, f.long ≠ p.long → f.qty < p.qty →
    next = some ⟨p.long, p.qty - f.qty, p.avgPrice⟩
  closes : ∀ p ∈ cur, f.long ≠ p.long → f.qty = p.qty → next = none
  crosses : ∀ p ∈ cur, f.long ≠ p.long → p.qty < f.qty →
    next = some ⟨f.long, f.qty - p.qty, f.price⟩

/-- A fill that only reduces the position, at another price than its average. These are the fills
that the code averages in and should not. -/
def ReducesOffPrice (positions : OrderedMap Text SimPosition) (f : SimFill) : Prop :=
  ∃ p, positions.get f.instrument = some p ∧ f.long ≠ p.long ∧ f.qty < p.qty ∧
    f.price ≠ p.avgPrice

/-- What the fill timer does to the positions. -/
def fillStep (positions : OrderedMap Text SimPosition) (f : SimFill) :
    Option (OrderedMap Text SimPosition) := some (fillPosition positions f)

theorem run_fillStep (positions : OrderedMap Text SimPosition) (fills : List SimFill) :
    run fillStep positions fills = some (fills.foldl fillPosition positions) := by
  induction fills generalizing positions with
  | nil => rfl
  | cons f fills ih => exact ih (fillPosition positions f)

/-- Every position has a quantity above zero. `fillPosition` deletes one that would have none. -/
def Stocked (positions : OrderedMap Text SimPosition) : Prop :=
  ∀ instrument p, positions.get instrument = some p → 0 < p.qty

section Cost

variable {positions : OrderedMap Text SimPosition} {f : SimFill}

/-- A mean of two prices is the first one only if the prices are the same. -/
theorem weighted_eq_avgPrice_iff {p : SimPosition} (hp : 0 < p.qty) :
    weighted p f = p.avgPrice ↔ f.price = p.avgPrice := by
  have hsum : p.qty + f.qty ≠ 0 := (add_pos hp f.qty_pos).ne'
  have hf := f.qty_pos.ne'
  rw [weighted, div_eq_iff hsum, mul_add, add_right_inj]
  exact mul_left_inj' hf

theorem Stocked.fillPosition (h : Stocked positions) : Stocked (fillPosition positions f) := by
  intro instrument p hget
  by_cases hname : instrument = f.instrument
  · subst hname
    cases hcur : positions.get f.instrument with
    | none =>
        rw [get_fillPosition_none hcur] at hget
        cases hget
        exact f.qty_pos
    | some cur =>
        have hqty := h _ _ hcur
        have hf := f.qty_pos
        rw [get_fillPosition hcur hqty, filledPosition] at hget
        split_ifs at hget with hside hless hequal <;> cases hget <;> dsimp only
        · linarith
        · linarith
        · exact sub_pos.mpr (lt_of_le_of_ne (not_lt.mp hless) (Ne.symm hequal))
  · rw [get_fillPosition_of_ne hname] at hget
    exact h _ _ hget

/-- **A fill follows the average cost exactly unless it reduces the position at another
price.** -/
theorem followsCost_iff (h : Stocked positions) :
    FollowsCost (positions.get f.instrument) f ((fillPosition positions f).get f.instrument) ↔
      ¬ ReducesOffPrice positions f := by
  cases hcur : positions.get f.instrument with
  | none =>
      rw [get_fillPosition_none hcur]
      refine iff_of_true ⟨fun _ => rfl, ?_, ?_, ?_, ?_⟩ ?_
      · simp
      · simp
      · simp
      · simp
      · rintro ⟨p, hp, -⟩
        cases hcur.symm.trans hp
  | some p =>
      have hqty := h _ _ hcur
      have hreduces : ¬ ReducesOffPrice positions f ↔
          (f.long ≠ p.long → f.qty < p.qty → weighted p f = p.avgPrice) := by
        rw [weighted_eq_avgPrice_iff hqty]
        simp [ReducesOffPrice, hcur]
      rw [get_fillPosition hcur hqty, hreduces, filledPosition]
      constructor
      · intro hcost hside hless
        have hnext := hcost.reduces p rfl hside hless
        rw [if_neg hside, if_pos hless] at hnext
        exact (SimPosition.mk.inj (Option.some.inj hnext)).2.2
      · intro hprice
        refine ⟨by simp, ?_, ?_, ?_, ?_⟩
        · rintro _ ⟨⟩ hside
          rw [if_pos hside]
        · rintro _ ⟨⟩ hside hless
          rw [if_neg hside, if_pos hless, hprice hside hless]
        · rintro _ ⟨⟩ hside hequal
          rw [if_neg hside, if_neg (by linarith), if_pos hequal]
        · rintro _ ⟨⟩ hside hmore
          rw [if_neg hside, if_neg hmore.not_gt, if_neg hmore.ne']

theorem held_empty : Stocked {} := by
  intro instrument p h
  cases h

/-- **Every fill of a sequence follows the average cost exactly if none of them reduces its
position at another price.** A reduction takes the branch that averages, which leaves the price
alone only at the price itself. -/
theorem followsCost_along_iff (h : Stocked positions) (fills : List SimFill) :
    (∀ before f after t t', fills = before ++ f :: after →
      run fillStep positions before = some t → fillStep t f = some t' →
        FollowsCost (t.get f.instrument) f (t'.get f.instrument)) ↔
      Along fillStep (fun t f => ¬ ReducesOffPrice t f) positions fills := by
  refine steps_iff_along ?_ ?_ h (run_fillStep positions fills)
  · rintro s f _ hs ⟨⟩
    exact followsCost_iff hs
  · rintro s f _ hs ⟨⟩
    exact hs.fillPosition

end Cost

/-- Two lots bought at 1, and one of them sold at 3. -/
def soldHalf : List SimFill :=
  [lotFill .buy 2 1, lotFill .sell 1 3]

/-- The average price of what is left is 5/3. -/
theorem soldHalf_not_followsCost :
    ¬ ∀ before f after t t', soldHalf = before ++ f :: after →
      run fillStep {} before = some t → fillStep t f = some t' →
        FollowsCost (t.get f.instrument) f (t'.get f.instrument) := by
  intro h
  have hcost := h [lotFill .buy 2 1] (lotFill .sell 1 3) [] _ _ rfl rfl rfl
  have hheld : Stocked (fillPosition {} (lotFill .buy 2 1)) := held_empty.fillPosition
  refine (followsCost_iff hheld).mp hcost ⟨⟨true, 2, 1⟩, ?_, ?_, ?_, ?_⟩
  · refine (@get_fillPosition_none {} (lotFill .buy 2 1) rfl).trans ?_
    simp [SimFill.long, lotFill, sign]
  · simp [SimFill.long, lotFill, sign]
  · norm_num [lotFill]
  · norm_num [lotFill]

/-- Two lots bought at 1, one at 2, and all of them sold. -/
def soldAll : List SimFill :=
  [lotFill .buy 2 1, lotFill .buy 1 2, lotFill .sell 3 3]

/-- None of these fills reduces a position that it does not end. -/
theorem soldAll_along : Along fillStep (fun t f => ¬ ReducesOffPrice t f) {} soldAll := by
  refine ⟨?_, ?_⟩
  · rintro ⟨p, hp, -⟩
    cases hp
  rintro s₁ ⟨⟩
  have hfirst := @get_fillPosition_none {} (lotFill .buy 2 1) rfl
  refine ⟨?_, ?_⟩
  · rintro ⟨p, hp, hside, -⟩
    obtain rfl := Option.some.inj (hfirst.symm.trans hp)
    exact hside rfl
  rintro s₂ ⟨⟩
  have hsecond := @get_fillPosition _ (lotFill .buy 1 2) _ hfirst (lotFill .buy 2 1).qty_pos
  have hadded : filledPosition ⟨true, (lotFill .buy 2 1).qty, 1⟩ (lotFill .buy 1 2) =
      some ⟨true, (lotFill .buy 2 1).qty + (lotFill .buy 1 2).qty,
        weighted ⟨true, (lotFill .buy 2 1).qty, 1⟩ (lotFill .buy 1 2)⟩ :=
    if_pos (by simp [SimFill.long, lotFill, sign])
  refine ⟨?_, fun _ _ => trivial⟩
  rintro ⟨p, hp, -, hless, -⟩
  have hlong : (lotFill .buy 2 1).long = true := by simp [SimFill.long, lotFill, sign]
  have hbought := hsecond.trans ((congrArg (filledPosition · _) (by rw [hlong]; rfl)).trans hadded)
  obtain rfl := Option.some.inj (hbought.symm.trans hp)
  norm_num [lotFill] at hless

theorem soldAll_followsCost : Along fillStep (fun t f => ¬ ReducesOffPrice t f) {} soldAll ∧
    ∀ before f after t t', soldAll = before ++ f :: after →
      run fillStep {} before = some t → fillStep t f = some t' →
        FollowsCost (t.get f.instrument) f (t'.get f.instrument) :=
  ⟨soldAll_along, (followsCost_along_iff held_empty soldAll).mpr soldAll_along⟩

/-! ## The average cost of the fills -/

/-- The position that shows a holding. -/
def heldBy (h : Holding ℚ) : Option SimPosition :=
  if h.qty = 0 then none else some ⟨decide (0 < h.qty), |h.qty|, h.entry⟩

/-- The signed trades of an instrument. -/
def simTrades (fills : List SimFill) (instrument : Text) : List (ℚ × ℚ) :=
  (fills.filter (·.instrument = instrument)).map fun f => (sign f.side * f.qty, f.price)

theorem heldBy_directed {h : Holding ℚ} {b : Bool} {r : ℚ} (hr : 0 < r)
    (hqty : h.qty = direction b * r) : heldBy h = some ⟨b, r, h.entry⟩ := by
  rw [heldBy, hqty, if_neg (directed_ne_zero b hr), long_directed b hr, abs_directed b hr]

/-- A quantity with its side. -/
theorem exists_directed {q : ℚ} (h : q ≠ 0) : ∃ b r, 0 < r ∧ q = direction b * r := by
  rcases lt_or_gt_of_ne h with hneg | hpos
  · exact ⟨false, -q, neg_pos.mpr hneg, by simp [direction]⟩
  · exact ⟨true, q, hpos, by simp [direction]⟩

theorem direction_mul_self (b : Bool) : direction b * direction b = 1 := by
  cases b <;> norm_num [direction]

/-- **The step lemma**: a fill at no other price than the average, when it only reduces the
position, is a trade of the average cost. -/
theorem heldBy_trade {positions : OrderedMap Text SimPosition} {f : SimFill} {h : Holding ℚ}
    (hget : positions.get f.instrument = heldBy h) (hprice : ¬ ReducesOffPrice positions f) :
    (fillPosition positions f).get f.instrument =
      heldBy (h.trade (sign f.side * f.qty) f.price) := by
  have hf := f.qty_pos
  -- without a position the fill opens one at its price
  by_cases hzero : h.qty = 0
  · have hnone : positions.get f.instrument = none := by rw [hget, heldBy, if_pos hzero]
    have hne := directed_ne_zero f.long hf
    rw [get_fillPosition_none hnone, f.sign_eq, h.trade_of_same (by rw [hzero, zero_mul]), hzero,
      heldBy_directed hf (zero_add _), zero_mul, zero_add, zero_add, mul_div_cancel_left₀ _ hne]
  · obtain ⟨b, r, hr, hqty⟩ := exists_directed hzero
    rw [heldBy_directed hr hqty] at hget
    have hproduct : h.qty * (direction b * f.qty) = r * f.qty := by
      linear_combination hqty * (direction b * f.qty) + r * f.qty * direction_mul_self b
    rw [get_fillPosition hget hr, filledPosition, f.sign_eq]
    dsimp only
    -- the same side adds at the weighted price; the other one reduces, closes or flips
    by_cases hside : f.long = b
    · have hsame : 0 ≤ h.qty * (direction b * f.qty) := by rw [hproduct]; positivity
      have hsum : direction b * r + direction b * f.qty = direction b * (r + f.qty) := by ring
      rw [if_pos hside, hside, h.trade_of_same hsame, heldBy_directed (add_pos hr hf)
        (by rw [hqty, hsum]), hqty, hsum, weighted]
      congr 2
      rw [← mul_div_mul_left _ _ (directed_ne_zero b one_pos)]
      ring
    · have hopposite : ¬ 0 ≤ h.qty * (direction f.long * f.qty) := by
        rw [direction_of_ne hside, neg_mul, mul_neg, hproduct, not_le, neg_lt_zero]
        positivity
      have habs : |direction f.long * f.qty| ≤ |h.qty| ↔ f.qty ≤ r := by
        rw [abs_directed _ hf, hqty, abs_directed _ hr]
      have hnet : h.qty + direction f.long * f.qty = direction b * (r - f.qty) := by
        rw [hqty, direction_of_ne hside]
        ring
      rw [if_neg hside]
      rcases lt_trichotomy f.qty r with hless | hequal | hmore
      · have hkept : weighted ⟨b, r, h.entry⟩ f = h.entry := by
          refine (weighted_eq_avgPrice_iff hr).mpr ?_
          by_contra hoff
          exact hprice ⟨_, hget, hside, hless, hoff⟩
        rw [if_pos hless, hkept, h.trade_of_reduces hopposite (habs.mpr hless.le),
          heldBy_directed (sub_pos.mpr hless) hnet]
      · rw [if_neg hequal.not_lt, if_pos hequal, h.trade_of_reduces hopposite (habs.mpr hequal.le),
          heldBy, hnet, if_pos (by rw [hequal, sub_self, mul_zero])]
      · have hflip : h.qty + direction f.long * f.qty = direction f.long * (f.qty - r) := by
          rw [hnet, direction_of_ne hside]
          ring
        rw [if_neg hmore.not_gt, if_neg hmore.ne', h.trade_of_flips hopposite
          (fun hle => hmore.not_ge (habs.mp hle)), heldBy_directed (sub_pos.mpr hmore) hflip]

/-- **Then the simulator keeps the average cost of its fills.** -/
theorem heldBy_averageCost {fills : List SimFill}
    (halong : Along fillStep (fun t f => ¬ ReducesOffPrice t f) {} fills) (instrument : Text) :
    (fills.foldl fillPosition {}).get instrument =
      heldBy (averageCost (simTrades fills instrument)) := by
  induction fills using List.reverseRecOn with
  | nil => simp [simTrades, averageCost, heldBy]
  | append_singleton fills f ih =>
      have hkept := ih (Along.left fillStep halong)
      have hlast := (Along.of_append fillStep halong (run_fillStep {} fills)).1
      rw [List.foldl_append, List.foldl_cons, List.foldl_nil]
      by_cases hname : f.instrument = instrument
      · subst hname
        have htrades : simTrades (fills ++ [f]) f.instrument =
            simTrades fills f.instrument ++ [(sign f.side * f.qty, f.price)] := by
          simp [simTrades]
        rw [htrades, averageCost_concat]
        exact heldBy_trade hkept hlast
      · have htrades : simTrades (fills ++ [f]) instrument = simTrades fills instrument := by
          simp [simTrades, hname]
        rw [htrades, get_fillPosition_of_ne (Ne.symm hname), hkept]

end AkronSlot.Slot
