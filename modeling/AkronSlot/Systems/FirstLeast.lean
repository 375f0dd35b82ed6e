import Mathlib

/-!
# The first least element of a list

A query that keeps some rows, orders them and takes one yields the head of a sorted
list.  As the sort is stable, that is the least of the rows that are kept, and the
first one of several.

## Why first and least

`ORDER BY … LIMIT 1` is written with a sort and a head, and both the source of the rows and the
order decide which row it is. `FirstLeast` says the same without a sort: the element is among
the kept ones, none is below it, and those before it are above it. Two queries that differ in
their filter or in their order can then be compared element by element.

## Main Results

* `head?_mergeSort_filter_iff`
* `firstLeast_both_iff` — two such queries that yield the same element
-/

namespace Systems

variable {α : Type*} {p : α → Bool} {le : α → α → Bool}

/-- The least of the elements with a property, and the first one of several. A stable sort keeps
the order of elements that are equal in it, hence the first one. -/
def FirstLeast (p : α → Bool) (le : α → α → Bool) (l : List α) (a : α) : Prop :=
  p a ∧ ∃ front back, l = front ++ a :: back ∧
    (∀ b ∈ front, p b → ¬ le b a) ∧ ∀ b ∈ back, p b → le a b

theorem FirstLeast.mem {l : List α} {a : α} (h : FirstLeast p le l a) : a ∈ l := by
  obtain ⟨-, front, back, rfl, -⟩ := h
  simp

/-- A first least element is below every element with the property. -/
theorem FirstLeast.le_of_mem (total : ∀ a b : α, le a b || le b a) {l : List α} {a b : α}
    (h : FirstLeast p le l a) (hb : b ∈ l) (hpb : p b) : le a b := by
  obtain ⟨-, front, back, rfl, hfront, hback⟩ := h
  rcases List.mem_append.mp hb with hb | hb
  · exact ((Bool.or_eq_true _ _).mp (total a b)).resolve_right (hfront b hb hpb)
  · rcases List.mem_cons.mp hb with rfl | hb
    · exact ((Bool.or_eq_true _ _).mp (total b b)).elim id id
    · exact hback b hb hpb

/-- Over a longer list it is the new element or the one that was there. -/
theorem firstLeast_cons {x a : α} {l : List α} :
    FirstLeast p le (x :: l) a ↔
      (p x ∧ a = x ∧ ∀ b ∈ l, p b → le x b) ∨ (FirstLeast p le l a ∧ (p x → ¬ le x a)) := by
  constructor
  · rintro ⟨ha, front, back, heq, hfront, hback⟩
    cases front with
    | nil =>
        obtain ⟨rfl, rfl⟩ := List.cons.inj heq
        exact Or.inl ⟨ha, rfl, hback⟩
    | cons y front =>
        obtain ⟨rfl, rfl⟩ := List.cons.inj heq
        refine Or.inr ⟨⟨ha, front, back, rfl, ?_, hback⟩, hfront x List.mem_cons_self⟩
        exact fun b hb => hfront b (List.mem_cons_of_mem x hb)
  · rintro (⟨hx, rfl, hle⟩ | ⟨⟨ha, front, back, rfl, hfront, hback⟩, hx⟩)
    · exact ⟨hx, [], l, rfl, by simp, hle⟩
    · refine ⟨ha, x :: front, back, rfl, ?_, hback⟩
      intro b hb
      rcases List.mem_cons.mp hb with rfl | hb
      · exact hx
      · exact hfront b hb

/-- A stable sort puts a new element before the head if it is not above it. -/
theorem head?_mergeSort_cons (trans : ∀ a b c : α, le a b → le b c → le a c)
    (total : ∀ a b : α, le a b || le b a) (x : α) (l : List α) :
    ((x :: l).mergeSort le).head? =
      some ((l.mergeSort le).head?.elim x fun b => if le x b then x else b) := by
  obtain ⟨l₁, l₂, hcons, htail, hlt⟩ := List.mergeSort_cons trans total x l
  rw [hcons, htail]
  cases l₁ with
  | nil =>
      have hsorted := List.pairwise_mergeSort trans total (x :: l)
      rw [hcons] at hsorted
      cases l₂ with
      | nil => rfl
      | cons b l₂ =>
          have hle : le x b := (List.pairwise_cons.mp hsorted).1 b List.mem_cons_self
          show some x = some (if le x b then x else b)
          rw [if_pos hle]
  | cons b l₁ =>
      have hnle : ¬ le x b := by simpa using hlt b List.mem_cons_self
      show some b = some (if le x b then x else b)
      rw [if_neg hnle]

/-- **What an ordered query with a limit of one selects.** -/
theorem head?_mergeSort_filter_iff (trans : ∀ a b c : α, le a b → le b c → le a c)
    (total : ∀ a b : α, le a b || le b a) {l : List α} {a : α} :
    ((l.filter p).mergeSort le).head? = some a ↔ FirstLeast p le l a := by
  induction l generalizing a with
  | nil => simp [FirstLeast]
  | cons x l ih =>
      rw [firstLeast_cons, ← ih]
      by_cases hx : p x
      · rw [List.filter_cons_of_pos hx, head?_mergeSort_cons trans total, Option.some_inj]
        cases hhead : ((l.filter p).mergeSort le).head? with
        | none =>
            have hperm := List.mergeSort_perm (l.filter p) le
            rw [List.head?_eq_none_iff.mp hhead] at hperm
            have hnil : l.filter p = [] := hperm.symm.eq_nil
            have hempty : ∀ b ∈ l, p b → le x b := fun b hb hpb =>
              absurd (hnil ▸ List.mem_filter.mpr ⟨hb, hpb⟩) List.not_mem_nil
            constructor
            · rintro rfl
              exact Or.inl ⟨hx, rfl, hempty⟩
            · rintro (⟨-, rfl, -⟩ | ⟨h, -⟩)
              · rfl
              · cases h
        | some c =>
            -- the new element is first unless the first of the others is less
            have hc := ih.mp hhead
            show (if le x c then x else c) = a ↔ _
            split
            · next hle =>
                constructor
                · rintro rfl
                  exact Or.inl ⟨hx, rfl, fun b hb hpb =>
                    trans _ _ _ hle (hc.le_of_mem total hb hpb)⟩
                · rintro (⟨-, rfl, -⟩ | ⟨h, hnle⟩)
                  · rfl
                  · exact absurd hle (Option.some.inj h ▸ hnle hx)
            · next hnle =>
                constructor
                · rintro rfl
                  exact Or.inr ⟨rfl, fun _ => hnle⟩
                · rintro (⟨-, -, hle⟩ | ⟨h, -⟩)
                  · exact absurd (hle c hc.mem hc.1) hnle
                  · exact Option.some.inj h
      · rw [List.filter_cons_of_neg hx]
        constructor
        · exact fun h => Or.inr ⟨h, fun hpx => absurd hpx hx⟩
        · rintro (⟨hpx, -⟩ | ⟨h, -⟩)
          · exact absurd hpx hx
          · exact h

/-- Two queries yield the same element: it is the first least one for both, at one
place of the list. -/
theorem firstLeast_both_iff {q : α → Bool} {le' : α → α → Bool} (refl : ∀ a, le a a)
    (refl' : ∀ a, le' a a) {l : List α} {a : α} :
    FirstLeast p le l a ∧ FirstLeast q le' l a ↔
      p a ∧ q a ∧ ∃ front back, l = front ++ a :: back ∧
        (∀ b ∈ front, (p b → ¬ le b a) ∧ (q b → ¬ le' b a)) ∧
        ∀ b ∈ back, (p b → le a b) ∧ (q b → le' a b) := by
  constructor
  · rintro ⟨⟨hp, front, back, rfl, hfront, hback⟩, hq, front', back', heq, hfront', hback'⟩
    -- the element is not before itself
    have hnot : a ∉ front := fun hmem => hfront a hmem hp (refl a)
    have hnot' : a ∉ front' := fun hmem => hfront' a hmem hq (refl' a)
    obtain ⟨rfl, rfl⟩ : front = front' ∧ back = back' := by
      rcases List.append_eq_append_iff.mp heq with ⟨cs, rfl, hcs⟩ | ⟨cs, rfl, hcs⟩
      · cases cs with
        | nil => simpa using hcs
        | cons c cs =>
            obtain ⟨rfl, -⟩ := List.cons.inj hcs
            simp at hnot'
      · cases cs with
        | nil => simpa [eq_comm] using hcs
        | cons c cs =>
            obtain ⟨rfl, -⟩ := List.cons.inj hcs
            simp at hnot
    exact ⟨hp, hq, front, back, rfl, fun b hb => ⟨hfront b hb, hfront' b hb⟩,
      fun b hb => ⟨hback b hb, hback' b hb⟩⟩
  · rintro ⟨hp, hq, front, back, rfl, hfront, hback⟩
    exact ⟨⟨hp, front, back, rfl, fun b hb => (hfront b hb).1, fun b hb => (hback b hb).1⟩,
      hq, front, back, rfl, fun b hb => (hfront b hb).2, fun b hb => (hback b hb).2⟩

end Systems
