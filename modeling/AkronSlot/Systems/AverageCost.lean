import Mathlib

/-!
# Average cost

A holding is built from signed trades: a quantity, positive when bought and negative when
sold, and a price.  A trade in the direction of the holding makes the entry price the
weighted mean, one against it realizes the difference to the entry price and leaves the
entry price alone, and one through zero starts again at its own price.

## Why the entry price is no average of the trades

Averaging over all trades of one direction is a one-pass computation and gives the entry price
only while nothing is sold. The turnover law says by how much it is off: by what has been
realized. The bounds say what remains true of the entry price whatever is sold: it lies between
the prices of two trades in the direction of the holding.

The field `K` is any linear ordered field, so the law holds for rational amounts as for real
ones.

## Main Definitions

* `Holding`, `Holding.trade`, `averageCost`

## Main Results

* `turnover_averageCost` — the signed turnover is the cost of what is held less what has
  been realized
* `exists_le_entry`, `exists_entry_le`
* `turnover_div_eq_entry_iff`
-/

namespace Systems

variable {K : Type*} [Field K] [LinearOrder K]

/-- What is held, at which price it was entered on average, and what has been realized. -/
@[ext]
structure Holding (K : Type*) where
  qty : K
  entry : K
  realized : K

/-- A trade of a signed quantity at a price: the holding is added to, reduced, or turned over, and
in the last case what is left of the trade starts a new one. -/
def Holding.trade (s : Holding K) (x price : K) : Holding K :=
  if 0 ≤ s.qty * x then
    { qty := s.qty + x
      entry := (s.qty * s.entry + x * price) / (s.qty + x)
      realized := s.realized }
  else if |x| ≤ |s.qty| then
    { qty := s.qty + x, entry := s.entry, realized := s.realized + x * (s.entry - price) }
  else { qty := s.qty + x, entry := price, realized := s.realized + s.qty * (price - s.entry) }

/-- The holding after a list of trades. -/
def averageCost (trades : List (K × K)) : Holding K :=
  trades.foldl (fun s t => s.trade t.1 t.2) ⟨0, 0, 0⟩

theorem averageCost_concat (trades : List (K × K)) (x price : K) :
    averageCost (trades ++ [(x, price)]) = (averageCost trades).trade x price := by
  rw [averageCost, List.foldl_append]
  rfl

/-- The signed quantity of a list of trades. -/
def netQty (trades : List (K × K)) : K := (trades.map Prod.fst).sum

/-- The signed turnover of a list of trades. -/
def turnover (trades : List (K × K)) : K := (trades.map fun t => t.1 * t.2).sum

namespace Holding

section Cases

variable (s : Holding K) {x price : K}

@[simp] theorem qty_trade (x price : K) : (s.trade x price).qty = s.qty + x := by
  rw [trade]
  split
  · rfl
  · split <;> rfl

/-- A trade in the direction of the holding. -/
theorem trade_of_same (h : 0 ≤ s.qty * x) :
    s.trade x price = ⟨s.qty + x, (s.qty * s.entry + x * price) / (s.qty + x), s.realized⟩ :=
  if_pos h

/-- A trade that only reduces the holding. -/
theorem trade_of_reduces (hside : ¬ 0 ≤ s.qty * x) (h : |x| ≤ |s.qty|) :
    s.trade x price = ⟨s.qty + x, s.entry, s.realized + x * (s.entry - price)⟩ := by
  rw [trade, if_neg hside, if_pos h]

/-- A trade that takes the holding through zero. -/
theorem trade_of_flips (hside : ¬ 0 ≤ s.qty * x) (h : ¬ |x| ≤ |s.qty|) :
    s.trade x price = ⟨s.qty + x, price, s.realized + s.qty * (price - s.entry)⟩ := by
  rw [trade, if_neg hside, if_neg h]

end Cases

variable [IsStrictOrderedRing K] (s : Holding K) {x price : K}

/-- Two quantities of one direction only cancel when both are zero. -/
theorem eq_zero_of_add_eq_zero {q : K} (h : 0 ≤ q * x) (hsum : q + x = 0) : q = 0 ∧ x = 0 := by
  obtain rfl : x = -q := eq_neg_of_add_eq_zero_right hsum
  have hq : q = 0 := by
    rw [mul_neg, neg_nonneg] at h
    exact mul_self_eq_zero.mp (le_antisymm h (mul_self_nonneg q))
  simp [hq]

/-- **The step lemma of the turnover**: a trade adds its own turnover to the cost of what is
held less what has been realized. -/
theorem cost_trade (x price : K) :
    (s.trade x price).qty * (s.trade x price).entry - (s.trade x price).realized =
      s.qty * s.entry - s.realized + x * price := by
  by_cases hside : 0 ≤ s.qty * x
  · rw [s.trade_of_same hside]
    dsimp only
    by_cases hsum : s.qty + x = 0
    · obtain ⟨hqty, hx⟩ := eq_zero_of_add_eq_zero hside hsum
      simp [hqty, hx]
    · rw [mul_div_cancel₀ _ hsum]
      ring
  · by_cases hreduces : |x| ≤ |s.qty|
    · rw [s.trade_of_reduces hside hreduces]
      ring
    · rw [s.trade_of_flips hside hreduces]
      ring

/-! ## Bounds of the entry price -/

/-- The share of a trade in the direction of the holding. -/
theorem share_nonneg {q : K} (h : 0 ≤ q * x) : 0 ≤ x / (q + x) := by
  have hsquare : x / (q + x) = x * (q + x) / ((q + x) * (q + x)) := by
    by_cases hsum : q + x = 0
    · rw [hsum]
      simp
    · rw [mul_div_mul_right _ _ hsum]
  have hshare : 0 ≤ x * (q + x) := by
    rw [mul_add, mul_comm x q]
    exact add_nonneg h (mul_self_nonneg x)
  rw [hsquare]
  exact div_nonneg hshare (mul_self_nonneg _)

/-- A weighted mean lies between what it is the mean of. -/
theorem mean_mem_uIcc {q : K} (h : 0 ≤ q * x) (hsum : q + x ≠ 0) (entry price : K) :
    (q * entry + x * price) / (q + x) ∈ Set.uIcc entry price := by
  rw [← segment_eq_uIcc]
  have hq : 0 ≤ q / (q + x) := by
    rw [add_comm]
    exact share_nonneg (by rwa [mul_comm])
  refine ⟨q / (q + x), x / (q + x), hq, share_nonneg h, ?_, ?_⟩
  · rw [← add_div, div_self hsum]
  · simp only [smul_eq_mul]
    ring

/-- Directions are transitive. -/
theorem pos_trans {a q b : K} (haq : 0 < a * q) (hqb : 0 < q * b) : 0 < a * b := by
  have hsquare : 0 < q * q := mul_self_pos.mpr (right_ne_zero_of_mul haq.ne')
  have hproduct : 0 < a * b * (q * q) := by
    rw [show a * b * (q * q) = a * q * (q * b) by ring]
    exact mul_pos haq hqb
  exact (mul_pos_iff_of_pos_right hsquare).mp hproduct

/-- A sum has the direction of a summand that the other one does not oppose. -/
theorem add_mul_pos {q : K} (h : 0 ≤ q * x) (hq : q ≠ 0) : 0 < (q + x) * q := by
  rw [add_mul, mul_comm x q]
  exact add_pos_of_pos_of_nonneg (mul_self_pos.mpr hq) h

/-- A sum has the direction of the larger summand. -/
theorem add_mul_pos_of_abs_lt {q : K} (h : |x| < |q|) : 0 < (q + x) * q := by
  have hproduct : |x * q| < q * q := by
    rw [abs_mul, ← abs_mul_abs_self q]
    exact mul_lt_mul_of_pos_right h ((abs_nonneg x).trans_lt h)
  rw [add_mul]
  linarith only [neg_abs_le (x * q), hproduct]

/-- What reduces a holding and leaves some of it is smaller. -/
theorem abs_lt_of_reduces {q : K} (hside : ¬ 0 ≤ q * x) (h : |x| ≤ |q|) (hsum : q + x ≠ 0) :
    |x| < |q| := by
  refine lt_of_le_of_ne h fun habs => ?_
  rcases abs_eq_abs.mp habs with rfl | rfl
  · exact hside (mul_self_nonneg x)
  · exact hsum (add_neg_cancel q)

/-- Some trade in the direction of the holding has a price that the entry price is in a relation
to. With an order and its converse this gives both bounds from one induction. -/
def Reaches (r : K → K → Prop) (trades : List (K × K)) : Prop :=
  s.qty ≠ 0 → ∃ t ∈ trades, 0 < s.qty * t.1 ∧ r t.2 s.entry

/-- **The step lemma of the bounds**, for an order in either direction. -/
theorem Reaches.trade {r : K → K → Prop} (htrans : ∀ a b c, r a b → r b c → r a c)
    (htotal : ∀ a b, r a b ∨ r b a) (hmean : ∀ a b c, r a b → c ∈ Set.uIcc a b → r a c)
    {trades : List (K × K)} (hs : s.Reaches r trades) (x price : K) :
    (s.trade x price).Reaches r (trades ++ [(x, price)]) := by
  intro hqty
  rw [qty_trade] at hqty ⊢
  have hown : 0 < (s.qty + x) * x → r price (s.trade x price).entry →
      ∃ t ∈ trades ++ [(x, price)], 0 < (s.qty + x) * t.1 ∧ r t.2 (s.trade x price).entry :=
    fun hpos hr => ⟨(x, price), by simp, hpos, hr⟩
  have hold : 0 < (s.qty + x) * s.qty → r s.entry (s.trade x price).entry →
      ∃ t ∈ trades ++ [(x, price)], 0 < (s.qty + x) * t.1 ∧ r t.2 (s.trade x price).entry := by
    intro hpos hr
    obtain ⟨t, ht, hside, hentry⟩ := hs (right_ne_zero_of_mul hpos.ne')
    exact ⟨t, List.mem_append_left _ ht, pos_trans hpos hside, htrans _ _ _ hentry hr⟩
  have hrefl : ∀ a, r a a := fun a => (htotal a a).elim id id
  by_cases hside : 0 ≤ s.qty * x
  · have hentry : (s.trade x price).entry = (s.qty * s.entry + x * price) / (s.qty + x) := by
      rw [s.trade_of_same hside]
    have hmem := mean_mem_uIcc hside hqty s.entry price
    rw [← hentry] at hmem
    have hownSide : x ≠ 0 → 0 < (s.qty + x) * x := by
      intro hx
      rw [add_comm]
      exact add_mul_pos (by rwa [mul_comm]) hx
    by_cases hx : x = 0
    · have hq : s.qty ≠ 0 := by simpa [hx] using hqty
      refine hold (add_mul_pos hside hq) ?_
      rw [hentry, hx, zero_mul, add_zero, add_zero, mul_div_cancel_left₀ _ hq]
      exact hrefl _
    by_cases hq : s.qty = 0
    · refine hown (hownSide hx) ?_
      rw [hentry, hq, zero_mul, zero_add, zero_add, mul_div_cancel_left₀ _ hx]
      exact hrefl _
    -- the mean is reached from the price that comes first in the order
    rcases htotal s.entry price with hfirst | hfirst
    · exact hold (add_mul_pos hside hq) (hmean _ _ _ hfirst hmem)
    · exact hown (hownSide hx) (hmean _ _ _ hfirst (Set.uIcc_comm s.entry price ▸ hmem))
  · by_cases hreduces : |x| ≤ |s.qty|
    · have hentry : (s.trade x price).entry = s.entry := by rw [s.trade_of_reduces hside hreduces]
      exact hold (add_mul_pos_of_abs_lt (abs_lt_of_reduces hside hreduces hqty))
        (hentry ▸ hrefl s.entry)
    · have hentry : (s.trade x price).entry = price := by rw [s.trade_of_flips hside hreduces]
      refine hown ?_ (by rw [hentry]; exact hrefl price)
      rw [add_comm]
      exact add_mul_pos_of_abs_lt (not_le.mp hreduces)

end Holding

/-! ## Lists of trades -/

/-- **What is held is the net quantity.** -/
theorem qty_averageCost (trades : List (K × K)) : (averageCost trades).qty = netQty trades := by
  induction trades using List.reverseRecOn with
  | nil => rfl
  | append_singleton trades t ih =>
      rw [averageCost_concat, Holding.qty_trade, ih]
      simp [netQty]

variable [IsStrictOrderedRing K]

/-- **The signed turnover is the cost of what is held less what has been realized.** -/
theorem turnover_averageCost (trades : List (K × K)) :
    turnover trades =
      (averageCost trades).qty * (averageCost trades).entry - (averageCost trades).realized := by
  induction trades using List.reverseRecOn with
  | nil => simp [turnover, averageCost]
  | append_singleton trades t ih =>
      rw [averageCost_concat, Holding.cost_trade, ← ih]
      simp [turnover]

/-- **The turnover for each unit of what is held is the entry price exactly if nothing has
been realized**, in total. -/
theorem turnover_div_eq_entry_iff {trades : List (K × K)} (h : netQty trades ≠ 0) :
    turnover trades / netQty trades = (averageCost trades).entry ↔
      (averageCost trades).realized = 0 := by
  rw [div_eq_iff h, turnover_averageCost, qty_averageCost, mul_comm (averageCost trades).entry,
    sub_eq_self]

theorem reaches_averageCost {r : K → K → Prop} (htrans : ∀ a b c, r a b → r b c → r a c)
    (htotal : ∀ a b, r a b ∨ r b a) (hmean : ∀ a b c, r a b → c ∈ Set.uIcc a b → r a c)
    (trades : List (K × K)) : (averageCost trades).Reaches r trades := by
  induction trades using List.reverseRecOn with
  | nil => exact fun h => absurd rfl h
  | append_singleton trades t ih =>
      rw [averageCost_concat]
      exact ih.trade _ htrans htotal hmean t.1 t.2

/-- **The entry price is at least a price of a trade in the direction of the holding.** -/
theorem exists_le_entry {trades : List (K × K)} (h : netQty trades ≠ 0) :
    ∃ t ∈ trades, 0 < netQty trades * t.1 ∧ t.2 ≤ (averageCost trades).entry := by
  rw [← qty_averageCost] at h ⊢
  refine reaches_averageCost (r := (· ≤ ·)) (fun _ _ _ => le_trans) le_total ?_ trades h
  intro a b c hab hc
  exact (Set.uIcc_of_le hab ▸ hc).1

/-- **The entry price is at most a price of a trade in the direction of the holding.** -/
theorem exists_entry_le {trades : List (K × K)} (h : netQty trades ≠ 0) :
    ∃ t ∈ trades, 0 < netQty trades * t.1 ∧ (averageCost trades).entry ≤ t.2 := by
  rw [← qty_averageCost] at h ⊢
  refine reaches_averageCost (r := (· ≥ ·)) (fun _ _ _ => ge_trans)
    (fun a b => le_total b a) ?_ trades h
  intro a b c hab hc
  exact (Set.uIcc_of_ge hab ▸ hc).2

end Systems
