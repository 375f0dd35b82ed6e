import Mathlib

/-!
# Maps in insertion order

Keys with their values, in the order in which the keys were first set.  Setting a key
again keeps its place, and deleting it gives the place up.

## Design

This is the `Map` of ECMAScript: iteration follows the order of insertion, and setting a key
again does not move it. The structure carries the proof that its keys are distinct, so a lookup
needs no condition and an entry is found by its key.

## Main Results

* `find?_key_iff` — where keys are distinct, an element is found by its key
* `get_set`, `get_delete` — one key changes, the others do not
* `mem_entries_iff`
-/

namespace Systems

/-! ## Distinct keys -/

section Keys

variable {α κ : Type*} [DecidableEq κ] {key : α → κ} {l : List α}

/-- An element is found by its key. -/
theorem find?_key (h : (l.map key).Nodup) {a : α} (ha : a ∈ l) :
    l.find? (key · = key a) = some a := by
  cases hfind : l.find? (key · = key a) with
  | none => exact absurd (decide_eq_true rfl) (List.find?_eq_none.mp hfind a ha)
  | some b =>
      have hkey : key b = key a := by simpa using List.find?_some hfind
      rw [List.inj_on_of_nodup_map h (List.mem_of_find?_eq_some hfind) ha hkey]

theorem find?_key_iff (h : (l.map key).Nodup) {k : κ} {a : α} :
    l.find? (key · = k) = some a ↔ a ∈ l ∧ key a = k := by
  constructor
  · intro hfind
    exact ⟨List.mem_of_find?_eq_some hfind, by simpa using List.find?_some hfind⟩
  · rintro ⟨hmem, rfl⟩
    exact find?_key h hmem

end Keys

/-! ## Maps -/

/-- Values by key, in insertion order. No key stands twice. -/
structure OrderedMap (κ α : Type*) where
  entries : List (κ × α) := []
  nodup_keys : (entries.map Prod.fst).Nodup := by simp

namespace OrderedMap

variable {κ α : Type*} [DecidableEq κ]

def get (m : OrderedMap κ α) (k : κ) : Option α := (m.entries.find? (·.1 = k)).map Prod.snd

/-- A key that is there keeps its place. -/
def set (m : OrderedMap κ α) (k : κ) (a : α) : OrderedMap κ α :=
  if h : k ∈ m.entries.map Prod.fst then
    { entries := m.entries.map fun e => if e.1 = k then (k, a) else e
      nodup_keys := by
        have hkeys : (m.entries.map fun e => if e.1 = k then (k, a) else e).map Prod.fst =
            m.entries.map Prod.fst := by
          rw [List.map_map]
          refine List.map_congr_left fun e _ => ?_
          dsimp only [Function.comp]
          split
          · next heq => exact heq.symm
          · rfl
        exact hkeys ▸ m.nodup_keys }
  else
    { entries := m.entries ++ [(k, a)]
      nodup_keys := by
        rw [List.map_append]
        exact m.nodup_keys.append (by simp) (by simpa using h) }

def delete (m : OrderedMap κ α) (k : κ) : OrderedMap κ α where
  entries := m.entries.filter (·.1 ≠ k)
  nodup_keys := m.nodup_keys.sublist (List.filter_sublist.map _)

/-- The entries are the values of the keys. -/
theorem mem_entries_iff (m : OrderedMap κ α) {k : κ} {a : α} :
    (k, a) ∈ m.entries ↔ m.get k = some a := by
  rw [get, Option.map_eq_some_iff]
  constructor
  · intro hmem
    exact ⟨(k, a), find?_key m.nodup_keys hmem, rfl⟩
  · rintro ⟨e, hfind, rfl⟩
    obtain ⟨hmem, rfl⟩ := (find?_key_iff m.nodup_keys).mp hfind
    exact hmem

theorem mem_entries_set (m : OrderedMap κ α) (k : κ) (a : α) (e : κ × α) :
    e ∈ (m.set k a).entries ↔ if e.1 = k then e.2 = a else e ∈ m.entries := by
  by_cases hmem : k ∈ m.entries.map Prod.fst
  · have hentries : (m.set k a).entries = m.entries.map fun e => if e.1 = k then (k, a) else e := by
      rw [set, dif_pos hmem]
    rw [hentries, List.mem_map]
    constructor
    · rintro ⟨f, hf, rfl⟩
      by_cases hkey : f.1 = k <;> simp [hkey, hf]
    · intro he
      split at he
      · next hkey =>
          obtain ⟨f, hf, hfkey⟩ := List.mem_map.mp hmem
          exact ⟨f, hf, by rw [if_pos hfkey, ← hkey, ← he]⟩
      · next hkey => exact ⟨e, he, if_neg hkey⟩
  · have hentries : (m.set k a).entries = m.entries ++ [(k, a)] := by
      rw [set, dif_neg hmem]
    rw [hentries, List.mem_append, List.mem_singleton]
    split
    · next hkey =>
        have hnot : e ∉ m.entries := fun he => hmem (hkey ▸ List.mem_map_of_mem he)
        constructor
        · rintro (he | rfl)
          · exact absurd he hnot
          · rfl
        · rintro rfl
          exact Or.inr (Prod.ext hkey rfl)
    · next hkey =>
        constructor
        · rintro (he | rfl)
          · exact he
          · exact absurd rfl hkey
        · exact Or.inl

theorem get_set (m : OrderedMap κ α) (k j : κ) (a : α) :
    (m.set k a).get j = if j = k then some a else m.get j := by
  apply Option.ext
  intro b
  rw [← mem_entries_iff, mem_entries_set]
  split
  · rw [Option.some_inj, eq_comm]
  · exact m.mem_entries_iff

theorem get_delete (m : OrderedMap κ α) (k j : κ) :
    (m.delete k).get j = if j = k then none else m.get j := by
  apply Option.ext
  intro b
  rw [← mem_entries_iff, delete, List.mem_filter]
  by_cases hj : j = k
  · simp [hj]
  · simp [hj, mem_entries_iff]

@[simp] theorem get_empty (k : κ) : ({} : OrderedMap κ α).get k = none := rfl

end OrderedMap

end Systems
