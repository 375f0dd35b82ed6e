import AkronSlot.Systems.OrderedMap

/-!
# Registries

Objects that are made once and changed in place, and keys that name some of them:
a key names at most one object, and an object has at most one key.  An object
whose key is removed is still there for whoever holds it, but nobody can change it
through the registry any more.

## Two kinds of identity

The same object can be reached by its key and by whoever got it from the registry earlier, and
the difference shows when the key is removed and made again: the second object is another one.
Objects therefore have a position that never changes, and a key is a name for a position. The
structure carries that names are distinct and point to objects that exist.

## Main Definitions

* `Registry` with `get`, `createIfAbsent`, `remove`, `modify`

## Main Results

* `get_createIfAbsent`, `get_remove`, `get_modify` — one key changes, the others
  do not
-/

namespace Systems

/-- Objects, oldest first, and the keys of some of them, in the order in which they
were given. -/
structure Registry (κ α : Type*) where
  objects : List α := []
  names : List (κ × ℕ) := []
  nodup_keys : (names.map Prod.fst).Nodup := by simp
  nodup_objects : (names.map Prod.snd).Nodup := by simp
  named_lt : ∀ e ∈ names, e.2 < objects.length := by simp

namespace Registry

variable {κ α : Type*} [DecidableEq κ]

/-- The object that a key names, as a position. -/
def position (r : Registry κ α) (k : κ) : Option ℕ := (r.names.find? (·.1 = k)).map Prod.snd

/-- The object that a key names. -/
def get (r : Registry κ α) (k : κ) : Option α := (r.position k).bind (r.objects[·]?)

omit [DecidableEq κ] in
/-- The first key. -/
def firstKey (r : Registry κ α) : Option κ := r.names.head?.map Prod.fst

/-- The first key whose object has a property. -/
def keyOf (r : Registry κ α) (p : α → Bool) : Option κ :=
  (r.names.find? fun e => (r.objects[e.2]?).any p).map Prod.fst

theorem position_eq_some_iff (r : Registry κ α) {k : κ} {i : ℕ} :
    r.position k = some i ↔ (k, i) ∈ r.names := by
  rw [position, Option.map_eq_some_iff]
  constructor
  · rintro ⟨e, hfind, rfl⟩
    obtain ⟨hmem, rfl⟩ := (find?_key_iff r.nodup_keys).mp hfind
    exact hmem
  · intro hmem
    exact ⟨(k, i), find?_key r.nodup_keys hmem, rfl⟩

theorem position_eq_none_iff (r : Registry κ α) {k : κ} :
    r.position k = none ↔ k ∉ r.names.map Prod.fst := by
  rw [Option.eq_none_iff_forall_not_mem]
  simp only [Option.mem_def, position_eq_some_iff, List.mem_map, not_exists, not_and]
  constructor
  · rintro h ⟨k', i⟩ hmem rfl
    exact h i hmem
  · intro h i hmem
    exact h (k, i) hmem rfl

theorem position_lt (r : Registry κ α) {k : κ} {i : ℕ} (h : r.position k = some i) :
    i < r.objects.length := r.named_lt _ (r.position_eq_some_iff.mp h)

/-- Two keys do not name one object. -/
theorem position_inj (r : Registry κ α) {k k' : κ} {i : ℕ} (h : r.position k = some i)
    (h' : r.position k' = some i) : k = k' := by
  have hsame := List.inj_on_of_nodup_map r.nodup_objects (r.position_eq_some_iff.mp h)
    (r.position_eq_some_iff.mp h') rfl
  exact (Prod.mk.inj hsame).1

theorem get_eq_none_iff (r : Registry κ α) {k : κ} : r.get k = none ↔ r.position k = none := by
  constructor
  · intro h
    by_contra hnamed
    obtain ⟨i, hi⟩ := Option.ne_none_iff_exists'.mp hnamed
    have hlt := r.position_lt hi
    rw [get, hi, Option.bind_some, List.getElem?_eq_none_iff] at h
    omega
  · intro h
    rw [get, h]
    rfl

/-! ## Creating -/

/-- A key that names nothing gets a new object. A key that names one keeps it, and the new value
is dropped. -/
def createIfAbsent (r : Registry κ α) (k : κ) (a : α) : Registry κ α :=
  if h : k ∈ r.names.map Prod.fst then r
  else
    { objects := r.objects ++ [a]
      names := r.names ++ [(k, r.objects.length)]
      nodup_keys := by
        rw [List.map_append]
        exact r.nodup_keys.append (by simp) (by simpa using h)
      nodup_objects := by
        have hfresh : r.objects.length ∉ r.names.map Prod.snd := by
          intro hmem
          obtain ⟨e, he, heq⟩ := List.mem_map.mp hmem
          exact absurd (r.named_lt e he) (by omega)
        rw [List.map_append]
        exact r.nodup_objects.append (by simp) (by simpa using hfresh)
      named_lt := by
        intro e he
        rw [List.length_append, List.length_singleton]
        rcases List.mem_append.mp he with he | he
        · exact (r.named_lt e he).trans (Nat.lt_succ_self _)
        · rw [List.mem_singleton.mp he]
          exact Nat.lt_succ_self _ }

/-- A key that names something keeps it. -/
theorem createIfAbsent_of_named (r : Registry κ α) {k : κ} (a : α) (h : r.position k ≠ none) :
    r.createIfAbsent k a = r :=
  dif_pos (by_contra fun hmem => h (r.position_eq_none_iff.mpr hmem))

theorem names_createIfAbsent (r : Registry κ α) {k : κ} (a : α) (h : r.position k = none) :
    (r.createIfAbsent k a).names = r.names ++ [(k, r.objects.length)] := by
  rw [createIfAbsent, dif_neg (r.position_eq_none_iff.mp h)]

theorem objects_createIfAbsent (r : Registry κ α) {k : κ} (a : α) (h : r.position k = none) :
    (r.createIfAbsent k a).objects = r.objects ++ [a] := by
  rw [createIfAbsent, dif_neg (r.position_eq_none_iff.mp h)]

theorem position_createIfAbsent (r : Registry κ α) (k k' : κ) (a : α) :
    (r.createIfAbsent k a).position k' =
      if k' = k then (r.position k).or (some r.objects.length) else r.position k' := by
  cases hposition : r.position k with
  | some j =>
      rw [r.createIfAbsent_of_named a (by simp [hposition])]
      split
      · next heq => rw [heq, hposition, Option.some_or]
      · rfl
  | none =>
      apply Option.ext
      intro i
      rw [position_eq_some_iff, r.names_createIfAbsent a hposition, List.mem_append,
        List.mem_singleton, Prod.mk.injEq]
      split
      · next heq =>
          subst heq
          rw [← position_eq_some_iff, hposition]
          simp [eq_comm]
      · next hne =>
          rw [← position_eq_some_iff]
          simp [hne]

/-- **Creating**: the key names its object, or the new one, and no other key
changes. -/
theorem get_createIfAbsent (r : Registry κ α) (k k' : κ) (a : α) :
    (r.createIfAbsent k a).get k' = if k' = k then (r.get k).or (some a) else r.get k' := by
  cases hget : r.get k with
  | some b =>
      have hnamed : r.position k ≠ none := fun hnone => by
        rw [r.get_eq_none_iff.mpr hnone] at hget
        cases hget
      rw [r.createIfAbsent_of_named a hnamed]
      split
      · next heq => rw [heq, hget, Option.some_or]
      · rfl
  | none =>
      have hnone := r.get_eq_none_iff.mp hget
      rw [get, position_createIfAbsent, r.objects_createIfAbsent a hnone]
      split
      · rw [hnone]
        simp
      · cases h : r.position k' with
        | none => simp [get, h]
        | some i => simp [get, h, List.getElem?_append_left (r.position_lt h)]

/-! ## Removing -/

/-- A key names nothing any more. Its object stays where it is, for those who hold it. -/
def remove (r : Registry κ α) (k : κ) : Registry κ α where
  objects := r.objects
  names := r.names.filter (·.1 ≠ k)
  nodup_keys := r.nodup_keys.sublist ((List.filter_sublist).map _)
  nodup_objects := r.nodup_objects.sublist ((List.filter_sublist).map _)
  named_lt e he := r.named_lt e (List.mem_of_mem_filter he)

theorem position_remove (r : Registry κ α) (k k' : κ) :
    (r.remove k).position k' = if k' = k then none else r.position k' := by
  apply Option.ext
  intro i
  have hnames : (r.remove k).names = r.names.filter (·.1 ≠ k) := rfl
  rw [position_eq_some_iff, hnames, List.mem_filter]
  split
  · next heq => simp [heq]
  · next hne => simp [hne, position_eq_some_iff]

/-- **Removing**: the key names nothing, and no other key changes. -/
theorem get_remove (r : Registry κ α) (k k' : κ) :
    (r.remove k).get k' = if k' = k then none else r.get k' := by
  rw [get, position_remove]
  split
  · rfl
  · rfl

/-! ## Changing -/

/-- The object that a key names changes in place. -/
def modify (r : Registry κ α) (k : κ) (f : α → α) : Registry κ α where
  objects := match r.position k with
    | none => r.objects
    | some i => r.objects.modify i f
  names := r.names
  nodup_keys := r.nodup_keys
  nodup_objects := r.nodup_objects
  named_lt e he := by
    split
    · exact r.named_lt e he
    · simpa using r.named_lt e he

/-- **Changing**: the object of the key changes, and that of no other key does. -/
theorem get_modify (r : Registry κ α) (k k' : κ) (f : α → α) :
    (r.modify k f).get k' = if k' = k then (r.get k).map f else r.get k' := by
  have hposition : (r.modify k f).position k' = r.position k' := rfl
  cases hk : r.position k with
  | none =>
      have hobjects : (r.modify k f).objects = r.objects := by simp [modify, hk]
      have hsame : (r.modify k f).get k' = r.get k' := by rw [get, hposition, hobjects, get]
      rw [hsame]
      split
      · next heq =>
          subst heq
          rw [r.get_eq_none_iff.mpr hk]
          rfl
      · rfl
  | some i =>
      have hobjects : (r.modify k f).objects = r.objects.modify i f := by simp [modify, hk]
      rw [get, hposition, hobjects]
      split
      · next heq =>
          subst heq
          rw [get, hk, Option.bind_some, Option.bind_some, List.getElem?_modify]
          simp
      · next hne =>
          cases hk' : r.position k' with
          | none => rw [r.get_eq_none_iff.mpr hk']; rfl
          | some j =>
              -- two keys do not name one object
              have hij : i ≠ j := fun heq => hne (r.position_inj hk' (heq ▸ hk))
              rw [get, hk', Option.bind_some, Option.bind_some, List.getElem?_modify]
              simp [hij]

end Registry

end Systems
