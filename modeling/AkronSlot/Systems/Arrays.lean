import Mathlib

/-!
# Arrays that are shifted in place

A program without lists removes an element of an array by moving those behind it
up, one by one, and cutting off the end.

## Design

The array is a list, and an assignment to an index outside of it changes nothing, as `List.set`
does. The loop is stated with the number of rounds that are left, which is what an induction
needs; the whole loop starts at the index that is removed. `take_shiftFrom` is about a list that
is split at that index, so no index arithmetic is left for its users.

## Main Definitions

* `arrayResize`, `shiftFrom`

## Main Results

* `take_shiftFrom` — the loop removes the element and nothing else
-/

namespace Systems

variable {α : Type}

/-- An array with another length: its end is cut off, or it is filled up. -/
def arrayResize (xs : List α) (n : ℕ) (fill : α) : List α :=
  xs.take n ++ List.replicate (n - xs.length) fill

theorem arrayResize_succ (xs : List α) (fill : α) :
    arrayResize xs (xs.length + 1) fill = xs ++ [fill] := by
  simp [arrayResize]

theorem arrayResize_le {xs : List α} {n : ℕ} (h : n ≤ xs.length) (fill : α) :
    arrayResize xs n fill = xs.take n := by
  simp [arrayResize, Nat.sub_eq_zero_of_le h]

/-- A resize by one that is filled at the new place. -/
theorem set_arrayResize (xs : List α) (fill x : α) :
    (arrayResize xs (xs.length + 1) fill).set xs.length x = xs ++ [x] := by
  simp [arrayResize_succ]

/-- `xs[j] = xs[j+1]`. -/
def shift (xs : List α) (j : ℕ) : List α :=
  match xs[j + 1]? with
  | none => xs
  | some x => xs.set j x

/-- The loop over `xs[j] = xs[j+1]`, from `j` on; `n` rounds are left. -/
def shiftFrom (xs : List α) (j : ℕ) : ℕ → List α
  | 0 => xs
  | n + 1 => shiftFrom (shift xs j) (j + 1) n

theorem shift_append (front rest : List α) (x y : α) :
    shift (front ++ x :: y :: rest) front.length = front ++ y :: y :: rest := by
  simp [shift]

/-- The loop moves up what is behind a place; the last element stays behind. -/
theorem shiftFrom_append (front : List α) (x : α) (rest : List α) :
    shiftFrom (front ++ x :: rest) front.length rest.length =
      front ++ rest ++ [(x :: rest).getLast (by simp)] := by
  induction rest generalizing front x with
  | nil => simp [shiftFrom]
  | cons y rest ih =>
      rw [List.length_cons, shiftFrom, shift_append]
      have hnext := ih (front ++ [y]) y
      rw [List.append_assoc, List.singleton_append, List.length_append, List.length_singleton]
        at hnext
      rw [hnext, List.append_assoc front [y], List.singleton_append,
        List.getLast_cons (List.cons_ne_nil y rest)]

/-- **The loop removes the element and nothing else.** -/
theorem take_shiftFrom (front : List α) (x : α) (rest : List α) :
    (shiftFrom (front ++ x :: rest) front.length rest.length).take (front ++ rest).length =
      front ++ rest := by
  rw [shiftFrom_append, List.take_left]

theorem length_shift (xs : List α) (j : ℕ) : (shift xs j).length = xs.length := by
  unfold shift
  split <;> simp

theorem length_shiftFrom (xs : List α) (j n : ℕ) : (shiftFrom xs j n).length = xs.length := by
  induction n generalizing xs j with
  | zero => rfl
  | succ n ih => rw [shiftFrom, ih, length_shift]

end Systems
