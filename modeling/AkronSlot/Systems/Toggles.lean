import Mathlib

/-!
# Reports of a toggle

A party watches a two-valued state and reports it when it has changed.  A report gets through or
is lost, and a lost one is not repeated: the next report is that of the next change.  So the
reports alternate, and a reader who knows those that got through is right exactly if an even
number of reports has been lost since.

## Why parity

The state has two values and every report is of a change, so the reports that are lost undo each
other in pairs. A reader who has missed two changes is right without knowing of either. Nothing
else about the losses matters, and in particular not when they happened.

## Main Definitions

* `Alternating` — every report says something else than the one before it
* `current`, `told` — the state that was reported last, and the one that the reader knows
* `missed` — how many reports have been lost in a row

## Main Results

* `alternating_concat`
* `told_eq_current_iff`
-/

namespace Systems

namespace Toggles

/-- The state that was reported last. -/
def current (start : Bool) (reports : List (Bool × Bool)) : Bool :=
  (reports.getLast?.map Prod.fst).getD start

/-- The state that the reports say that got through. A reader starts with what the party starts
with. -/
def told (start : Bool) (reports : List (Bool × Bool)) : Bool :=
  current start (reports.filter (·.2))

/-- The reports that have been lost since one got through. -/
def missed (reports : List (Bool × Bool)) : ℕ := (reports.reverse.takeWhile fun r => !r.2).length

/-- Every report is of a change. -/
def Alternating (start : Bool) (reports : List (Bool × Bool)) : Prop :=
  List.IsChain (· ≠ ·) (start :: reports.map Prod.fst)

variable {start : Bool} {reports : List (Bool × Bool)}

@[simp] theorem current_nil : current start [] = start := rfl

@[simp] theorem current_concat (r : Bool × Bool) : current start (reports ++ [r]) = r.1 := by
  simp [current]

@[simp] theorem told_nil : told start [] = start := rfl

theorem told_concat (r : Bool × Bool) :
    told start (reports ++ [r]) = if r.2 then r.1 else told start reports := by
  unfold told
  rw [List.filter_append]
  cases h : r.2 with
  | false => simp [h]
  | true => simp [h]

@[simp] theorem missed_nil : missed [] = 0 := rfl

theorem missed_concat (r : Bool × Bool) :
    missed (reports ++ [r]) = if r.2 then 0 else missed reports + 1 := by
  unfold missed
  rw [List.reverse_append, List.reverse_singleton, List.singleton_append, List.takeWhile_cons]
  cases r.2 <;> simp

theorem alternating_nil : Alternating start [] := List.isChain_singleton _

/-- One more report. -/
theorem alternating_concat (r : Bool × Bool) :
    Alternating start (reports ++ [r]) ↔
      Alternating start reports ∧ current start reports ≠ r.1 := by
  have hlast : (start :: reports.map Prod.fst).getLast? = some (current start reports) := by
    cases reports using List.reverseRecOn with
    | nil => rfl
    | append_singleton reports q =>
        rw [List.map_append, List.map_singleton, ← List.cons_append, List.getLast?_concat,
          current_concat]
  unfold Alternating
  rw [List.map_append, List.map_singleton, ← List.cons_append, List.isChain_append, hlast]
  simp

/-- **The parity law**: the reader is right exactly if an even number of reports has been lost
since one got through. -/
theorem told_eq_current_iff (h : Alternating start reports) :
    told start reports = current start reports ↔ Even (missed reports) := by
  induction reports using List.reverseRecOn with
  | nil => simp
  | append_singleton reports r ih =>
      obtain ⟨hreports, hchange⟩ := (alternating_concat r).mp h
      rw [told_concat, current_concat, missed_concat]
      cases r.2 with
      | true => simp
      | false =>
          -- the reader is right now exactly if he was wrong before
          have hother : told start reports = r.1 ↔
              ¬ told start reports = current start reports := by
            revert hchange
            cases told start reports <;> cases current start reports <;> cases r.1 <;> decide
          simp only [Bool.false_eq_true, if_false]
          rw [hother, ih hreports, Nat.even_add_one]

end Toggles

end Systems
