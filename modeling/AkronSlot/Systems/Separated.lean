import Mathlib

/-!
# Joining what a loop keeps

A loop appends the entries it keeps to a text, with a separator between two of them, and skips
the others.  To know whether a separator is due it looks at a flag, which the first kept entry
clears, or at the index of the entry.  The flag is right for every pattern of skips; the index
is right exactly when the entry that comes first is kept or none is.

## Design

All loops append to an accumulator, as the programs do, and each result says that the loop is
the accumulator followed by the kept entries, joined by Mathlib's `List.intercalate`. The
entries that are kept are a `filterMap` over the indices, in which the skips are `none`. For the
loop with the index one direction is a counterexample in general: a skip at the highest index
leaves a separator in front as soon as any other entry is kept.

## Main Definitions

* `joinFlagged`, `joinFlaggedUpTo` — a flag, and a flag with a limit
* `joinDown` — the index, counting down

## Main Results

* `filterMap_range`
* `joinFlagged_eq`, `joinFlaggedUpTo_eq`
* `joinDown_succ`, `joinDown_iff`
-/

namespace Systems

variable {ι α : Type*} (sep : List α)

/-- What follows the first of several texts. -/
theorem intercalate_cons (t : List α) (ts : List (List α)) :
    sep.intercalate (t :: ts) = t ++ ts.flatMap (sep ++ ·) := by
  induction ts generalizing t with
  | nil => simp
  | cons u ts ih =>
      rw [List.intercalate_cons_cons, ih, List.flatMap_cons, List.append_assoc, List.append_assoc]

theorem flatMap_sep_eq_intercalate_iff (hsep : sep ≠ []) {ts : List (List α)} :
    ts.flatMap (sep ++ ·) = sep.intercalate ts ↔ ts = [] := by
  refine ⟨fun h => ?_, fun h => by simp [h]⟩
  cases ts with
  | nil => rfl
  | cons t ts =>
      rw [intercalate_cons, List.flatMap_cons] at h
      have hlength := congrArg List.length h
      have hpos := List.length_pos_of_ne_nil hsep
      simp only [List.length_append] at hlength
      omega

/-- A loop over the indices of a list goes over its elements. -/
theorem filterMap_range {β : Type*} {f : ℕ → Option β} {g : α → Option β} {xs : List α}
    (h : ∀ i (hi : i < xs.length), f i = g xs[i]) :
    (List.range xs.length).filterMap f = xs.filterMap g := by
  induction xs using List.reverseRecOn with
  | nil => rfl
  | append_singleton xs x ih =>
      have hinit : ∀ i (hi : i < xs.length), f i = g xs[i] := by
        intro i hi
        rw [h i (by simp; omega), List.getElem_append_left hi]
      have hlast : f xs.length = g x := by
        rw [h xs.length (by simp), List.getElem_append_right le_rfl]
        simp
      rw [List.length_append, List.length_singleton, List.range_succ, List.filterMap_append,
        List.filterMap_append, ih hinit, List.filterMap_cons, List.filterMap_cons, hlast]
      rfl

/-! ## A flag -/

section Flag

variable (item : ι → Option (List α))

/-- One entry: the text so far, and whether it is still the first one. -/
def appendFlagged (s : List α × Bool) (i : ι) : List α × Bool :=
  match item i with
  | none => s
  | some t => (s.1 ++ ((if s.2 then [] else sep) ++ t), false)

/-- The loop over some indices. -/
def joinFlagged (out : List α) (is : List ι) : List α :=
  (is.foldl (appendFlagged sep item) (out, true)).1

theorem foldl_appendFlagged_false (out : List α) (is : List ι) :
    (is.foldl (appendFlagged sep item) (out, false)).1 =
      out ++ (is.filterMap item).flatMap (sep ++ ·) := by
  induction is generalizing out with
  | nil => simp
  | cons i is ih =>
      rw [List.foldl_cons]
      cases hi : item i with
      | none => simp [appendFlagged, hi, ih]
      | some t => simp [appendFlagged, hi, ih]

/-- **With a flag the kept entries are joined.** -/
theorem joinFlagged_eq (out : List α) (is : List ι) :
    joinFlagged sep item out is = out ++ sep.intercalate (is.filterMap item) := by
  unfold joinFlagged
  induction is with
  | nil => simp
  | cons i is ih =>
      rw [List.foldl_cons]
      cases hi : item i with
      | none => simp [appendFlagged, hi, ih]
      | some t =>
          rw [List.filterMap_cons_some hi, intercalate_cons, ← List.append_assoc,
            ← foldl_appendFlagged_false]
          simp [appendFlagged, hi]

/-- The loop that stops when it has kept as many as the limit says: the text, the flag and the
number of entries. -/
def appendUpTo (limit : ℕ) : List α × Bool × ℕ → List ι → List α × Bool × ℕ
  | s, [] => s
  | (out, first, emitted), i :: is =>
      if emitted < limit then
        match item i with
        | none => appendUpTo limit (out, first, emitted) is
        | some t =>
            appendUpTo limit (out ++ ((if first then [] else sep) ++ t), false, emitted + 1) is
      else (out, first, emitted)

/-- The text of that loop, and the number of entries in it. -/
def joinFlaggedUpTo (limit : ℕ) (out : List α) (is : List ι) : List α × ℕ :=
  let s := appendUpTo sep item limit (out, true, 0) is
  (s.1, s.2.2)

/-- What such a loop appends when it has begun. -/
theorem appendUpTo_eq (limit : ℕ) (out : List α) (first : Bool) (emitted : ℕ) (is : List ι) :
    let kept := (is.filterMap item).take (limit - emitted)
    (appendUpTo sep item limit (out, first, emitted) is).1 =
        out ++ (if first then sep.intercalate kept else kept.flatMap (sep ++ ·)) ∧
      (appendUpTo sep item limit (out, first, emitted) is).2.2 = emitted + kept.length := by
  induction is generalizing out first emitted with
  | nil => cases first <;> simp [appendUpTo]
  | cons i is ih =>
      by_cases hlimit : emitted < limit
      · cases hi : item i with
        | none =>
            simp only [appendUpTo, if_pos hlimit, hi, List.filterMap_cons_none hi]
            exact ih out first emitted
        | some t =>
            obtain ⟨htext, hcount⟩ :=
              ih (out ++ ((if first then [] else sep) ++ t)) false (emitted + 1)
            -- one of the kept entries is used up
            have hleft : limit - emitted = (limit - (emitted + 1)) + 1 := by omega
            simp only [appendUpTo, if_pos hlimit, hi, List.filterMap_cons_some hi, htext, hcount]
            rw [hleft, List.take_succ_cons]
            refine ⟨?_, by simp only [List.length_cons]; omega⟩
            cases first with
            | true => simp [intercalate_cons]
            | false => simp
      · have hleft : limit - emitted = 0 := by omega
        cases first <;> simp [appendUpTo, hlimit, hleft]

/-- **With a flag and a limit the first kept entries are joined.** -/
theorem joinFlaggedUpTo_eq (limit : ℕ) (out : List α) (is : List ι) :
    joinFlaggedUpTo sep item limit out is =
      (out ++ sep.intercalate ((is.filterMap item).take limit),
        ((is.filterMap item).take limit).length) := by
  obtain ⟨htext, hcount⟩ := appendUpTo_eq sep item limit out true 0 is
  simp only [joinFlaggedUpTo, htext, hcount, if_true, Nat.sub_zero, Nat.zero_add]

end Flag

/-! ## An index -/

section Index

variable (item : ℕ → Option (List α))

/-- The indices below a number, downwards. -/
def downFrom (n : ℕ) : List ℕ := (List.range n).reverse

theorem downFrom_succ (n : ℕ) : downFrom (n + 1) = n :: downFrom n := by
  simp [downFrom, List.range_succ]

/-- One entry of a loop that counts down: a separator comes before every index but the highest. -/
def appendBelow (n : ℕ) (out : List α) (i : ℕ) : List α :=
  match item i with
  | none => out
  | some t => out ++ ((if i + 1 < n then sep else []) ++ t)

/-- The loop that counts down. -/
def joinDown (out : List α) (n : ℕ) : List α := (downFrom n).foldl (appendBelow sep item n) out

/-- The entry at the highest index is kept, if any is. -/
def KeepsHighest (n : ℕ) : Prop := ∀ i < n, (item i).isSome = true → (item (n - 1)).isSome = true

instance (n : ℕ) : Decidable (KeepsHighest item n) :=
  inferInstanceAs (Decidable (∀ i < n, _ → _))

theorem foldl_appendBelow {n : ℕ} (out : List α) {is : List ℕ} (h : ∀ i ∈ is, i + 1 < n) :
    is.foldl (appendBelow sep item n) out = out ++ (is.filterMap item).flatMap (sep ++ ·) := by
  induction is generalizing out with
  | nil => simp
  | cons i is ih =>
      obtain ⟨hi, his⟩ := List.forall_mem_cons.mp h
      rw [List.foldl_cons, ih _ his]
      cases hitem : item i with
      | none => simp [appendBelow, hitem]
      | some t => simp [appendBelow, hitem, hi]

/-- The separators go by the index alone. -/
theorem joinDown_succ (out : List α) (n : ℕ) :
    joinDown sep item out (n + 1) =
      out ++ ((item n).getD [] ++ ((downFrom n).filterMap item).flatMap (sep ++ ·)) := by
  have hbelow : ∀ i ∈ downFrom n, i + 1 < n + 1 := by
    intro i hi
    have hlt : i < n := by simpa [downFrom] using hi
    omega
  rw [joinDown, downFrom_succ, List.foldl_cons, foldl_appendBelow sep item _ hbelow]
  cases hitem : item n with
  | none => simp [appendBelow, hitem]
  | some t => simp [appendBelow, hitem]

/-- **With the index the kept entries are joined exactly when the highest one is kept**, or
none is. -/
theorem joinDown_iff (hsep : sep ≠ []) (out : List α) (n : ℕ) :
    joinDown sep item out n = out ++ sep.intercalate ((downFrom n).filterMap item) ↔
      KeepsHighest item n := by
  cases n with
  | zero => exact iff_of_true (by simp [joinDown, downFrom]) (fun i hi => absurd hi (by omega))
  | succ n =>
      rw [joinDown_succ, downFrom_succ, List.append_cancel_left_eq]
      cases hitem : item n with
      | some t =>
          refine iff_of_true ?_ fun i _ _ => ?_
          · rw [List.filterMap_cons_some hitem, intercalate_cons]
            rfl
          · simp [hitem]
      | none =>
          -- the first separator is one too many, unless nothing is kept
          rw [List.filterMap_cons_none hitem, Option.getD_none, List.nil_append,
            flatMap_sep_eq_intercalate_iff sep hsep, List.filterMap_eq_nil_iff]
          constructor
          · intro hnone i hi hsome
            have hne : i ≠ n := by
              rintro rfl
              simp [hitem] at hsome
            have hmem : i ∈ downFrom n := by simp [downFrom]; omega
            rw [hnone i hmem] at hsome
            cases hsome
          · intro hkeeps i hi
            have hlt : i < n := by simpa [downFrom] using hi
            by_contra hsome
            have hlast := hkeeps i (by omega) (Option.isSome_iff_ne_none.mpr hsome)
            simp [hitem] at hlast

end Index

end Systems
