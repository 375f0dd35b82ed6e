import Mathlib

/-!
# Senders that do not repeat themselves

A sender makes observations and sends each of them, unless it is what was sent last.  A
send may fail.  The history of a sender is the list of its attempts, each with its result.

## Attempts instead of a register

A program keeps one value, what it sent last. Here the history is kept and the value is computed
from it (`latest`), so that a statement about a run needs no second account of what happened. A
failed send is an attempt with the result `false`; it leaves `latest` alone, and that is why the
same observation is sent again the next time.

## Main Results

* `isChain_offer` — nothing is sent twice in a row
* `latest_offer_of_ne`, `offer_of_ne` — what has failed is attempted again
-/

namespace Systems.Dedup

variable {α : Type*} [DecidableEq α]

/-- What was sent. -/
def delivered (attempts : List (α × Bool)) : List α := (attempts.filter (·.2)).map (·.1)

/-- What was sent last. -/
def latest (attempts : List (α × Bool)) : Option α := (delivered attempts).getLast?

/-- Send an observation, unless it was sent last. What was attempted last, and failed, does not
count. -/
def offer (attempts : List (α × Bool)) (a : α) (ok : Bool) : List (α × Bool) :=
  if latest attempts = some a then attempts else attempts ++ [(a, ok)]

/-- A sender's turn, in which there may be nothing to observe. -/
def poll (attempts : List (α × Bool)) (observed : Option α) (ok : Bool) : List (α × Bool) :=
  match observed with
  | none => attempts
  | some a => offer attempts a ok

section Append

omit [DecidableEq α]

variable (attempts : List (α × Bool)) (a : α)

theorem delivered_append_true :
    delivered (attempts ++ [(a, true)]) = delivered attempts ++ [a] := by
  simp [delivered]

theorem delivered_append_false : delivered (attempts ++ [(a, false)]) = delivered attempts := by
  simp [delivered]

theorem delivered_map {β : Type*} (f : α → β) :
    delivered (attempts.map (Prod.map f id)) = (delivered attempts).map f := by
  simp [delivered, List.filter_map, Function.comp_def]

theorem latest_append (ok : Bool) :
    latest (attempts ++ [(a, ok)]) = if ok then some a else latest attempts := by
  cases ok with
  | false => rw [latest, delivered_append_false]; rfl
  | true => rw [latest, delivered_append_true, List.getLast?_concat]; rfl

end Append

variable {attempts : List (α × Bool)} {a b : α}

theorem offer_of_eq (h : latest attempts = some a) (ok : Bool) : offer attempts a ok = attempts :=
  if_pos h

/-- What was not sent last is attempted. -/
theorem offer_of_ne (h : latest attempts ≠ some a) (ok : Bool) :
    offer attempts a ok = attempts ++ [(a, ok)] :=
  if_neg h

/-- **What was not sent last is not, as long as other things are observed.** -/
theorem latest_offer_of_ne (h : latest attempts ≠ some a) (hb : b ≠ a) (ok : Bool) :
    latest (offer attempts b ok) ≠ some a := by
  by_cases hlast : latest attempts = some b
  · rwa [offer_of_eq hlast]
  · rw [offer_of_ne hlast, latest_append]
    cases ok with
    | false => exact h
    | true => exact fun heq => hb (Option.some.inj heq)

/-- **Nothing is sent twice in a row.** -/
theorem isChain_offer (h : (delivered attempts).IsChain (· ≠ ·)) (a : α) (ok : Bool) :
    (delivered (offer attempts a ok)).IsChain (· ≠ ·) := by
  by_cases hlast : latest attempts = some a
  · rwa [offer_of_eq hlast]
  · rw [offer_of_ne hlast]
    cases ok with
    | false => rwa [delivered_append_false]
    | true =>
        rw [delivered_append_true]
        refine h.append (List.isChain_singleton a) fun x hx y hy => ?_
        obtain rfl := Option.some.inj hy
        rintro rfl
        exact hlast hx

theorem isChain_poll (h : (delivered attempts).IsChain (· ≠ ·)) (observed : Option α) (ok : Bool) :
    (delivered (poll attempts observed ok)).IsChain (· ≠ ·) := by
  cases observed with
  | none => exact h
  | some a => exact isChain_offer h a ok

/-- What was not sent last is not after a turn without it. -/
theorem latest_poll_of_ne (h : latest attempts ≠ some a) {observed : Option α}
    (hne : observed ≠ some a) (ok : Bool) : latest (poll attempts observed ok) ≠ some a := by
  cases observed with
  | none => exact h
  | some b => exact latest_offer_of_ne h (fun heq => hne (congrArg some heq)) ok

end Systems.Dedup
