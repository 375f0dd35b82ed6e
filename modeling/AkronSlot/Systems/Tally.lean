import Mathlib

/-!
# Tallies

A tally adds up amounts by key: a list of keys with their totals, in the order
in which the keys were first seen.  It is the pattern
`m.set(k, (m.get(k) ?? 0) + x)` on an insertion-ordered map.

## Design

The tally is a list of pairs with a linear search, since the order of its entries is part of the
result; that a key has one entry is proved and not built in. The amounts are from any additive
monoid, so the same tally serves for signed quantities and for pairs of a quantity and a
turnover.

## Main Results

* `total_tally` — the total of a key is the sum of its amounts
* `nodup_keys_tally` — every key has one entry
-/

namespace Systems

variable {κ M : Type*} [DecidableEq κ] [AddCommMonoid M]

/-- Add an amount to the total of a key. A key that was never seen is put at the end. -/
def addTo (k : κ) (x : M) : List (κ × M) → List (κ × M)
  | [] => [(k, x)]
  | (k', y) :: m => if k' = k then (k', y + x) :: m else (k', y) :: addTo k x m

/-- The total of a key; zero when it was never seen. -/
def total (k : κ) : List (κ × M) → M
  | [] => 0
  | (k', y) :: m => if k' = k then y else total k m

/-- Add up a list of amounts. -/
def tally (l : List (κ × M)) : List (κ × M) := l.foldl (fun m e => addTo e.1 e.2 m) []

theorem total_addTo (k j : κ) (x : M) (m : List (κ × M)) :
    total j (addTo k x m) = if k = j then total j m + x else total j m := by
  induction m with
  | nil => by_cases h : k = j <;> simp [addTo, total, h]
  | cons e m ih =>
      obtain ⟨k', y⟩ := e
      by_cases hk : k' = k
      · subst hk
        by_cases hj : k' = j <;> simp [addTo, total, hj]
      · by_cases hj : k' = j
        · subst hj
          simp [addTo, total, hk, Ne.symm hk]
        · simp [addTo, total, hk, hj, ih]

theorem keys_addTo (k : κ) (x : M) (m : List (κ × M)) :
    (addTo k x m).map Prod.fst =
      if k ∈ m.map Prod.fst then m.map Prod.fst else m.map Prod.fst ++ [k] := by
  induction m with
  | nil => simp [addTo]
  | cons e m ih =>
      obtain ⟨k', y⟩ := e
      by_cases hk : k' = k
      · simp [addTo, hk]
      · simp only [addTo, if_neg hk, List.map_cons, ih, List.mem_cons, Ne.symm hk, false_or]
        split <;> simp

theorem nodup_keys_addTo (k : κ) (x : M) {m : List (κ × M)} (h : (m.map Prod.fst).Nodup) :
    ((addTo k x m).map Prod.fst).Nodup := by
  rw [keys_addTo]
  split
  · exact h
  · next hk =>
      rw [← List.concat_eq_append]
      exact h.concat hk

/-- Adding up from a tally that is already there. -/
theorem total_foldl (k : κ) (l : List (κ × M)) (m : List (κ × M)) :
    total k (l.foldl (fun m e => addTo e.1 e.2 m) m) =
      total k m + ((l.filter fun e => e.1 = k).map Prod.snd).sum := by
  induction l generalizing m with
  | nil => simp
  | cons e l ih =>
      rw [List.foldl_cons, ih, total_addTo]
      by_cases hk : e.1 = k <;> simp [hk, add_assoc]

/-- **The total of a key is the sum of its amounts.** -/
theorem total_tally (k : κ) (l : List (κ × M)) :
    total k (tally l) = ((l.filter fun e => e.1 = k).map Prod.snd).sum := by
  rw [tally, total_foldl, total, zero_add]

/-- **Every key has one entry.** -/
theorem nodup_keys_tally (l : List (κ × M)) : ((tally l).map Prod.fst).Nodup := by
  have hfold : ∀ m : List (κ × M), (m.map Prod.fst).Nodup →
      ((l.foldl (fun m e => addTo e.1 e.2 m) m).map Prod.fst).Nodup := by
    induction l with
    | nil => exact fun m h => h
    | cons e l ih => exact fun m h => ih _ (nodup_keys_addTo e.1 e.2 h)
  exact hfold [] List.nodup_nil

/-- An entry of a list without repeated keys is the total of its key. -/
theorem total_of_mem {m : List (κ × M)} (h : (m.map Prod.fst).Nodup) {e : κ × M} (he : e ∈ m) :
    total e.1 m = e.2 := by
  induction m with
  | nil => simp at he
  | cons f m ih =>
      simp only [List.map_cons, List.nodup_cons] at h
      rcases List.mem_cons.mp he with rfl | hmem
      · simp [total]
      · have hne : f.1 ≠ e.1 := fun heq => h.1 (heq ▸ List.mem_map_of_mem hmem)
        simpa [total, hne] using ih h.2 hmem

/-- A key without an entry has total zero. -/
theorem total_of_notMem {m : List (κ × M)} {k : κ} (h : k ∉ m.map Prod.fst) : total k m = 0 := by
  induction m with
  | nil => rfl
  | cons f m ih =>
      simp only [List.map_cons, List.mem_cons, not_or] at h
      simp [total, Ne.symm h.1, ih h.2]

end Systems
