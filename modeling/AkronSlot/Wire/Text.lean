import Mathlib

/-!
# Texts and substring search

Every protocol of this development moves text.  A text is a list of Unicode
scalar values, so that a function over it recurses on the list and a proof
about it is an induction on the list.

## Positions

A position in a text is represented by the **suffix that starts there**: an
index search returns the suffix of its first match, and "continue at index `i`"
is "continue on that suffix".  This keeps index arithmetic out of every proof.

## Main Definitions

* `find p t` — the suffix of `t` at the first occurrence of `p`
* `replaceChar c r t` — every `c` of `t` replaced by the text `r`
-/

namespace Wire

/-- A text: a list of Unicode scalar values. -/
abbrev Text := List Char

instance coeString : Coe String Text := ⟨String.toList⟩

instance lawfulBEqText : LawfulBEq Text := inferInstance

/-- The length of a text as JavaScript counts it, in UTF-16 code units. -/
def utf16Length (t : Text) : ℕ := (t.map fun c => if c.toNat < 0x10000 then 1 else 2).sum

theorem utf16Length_append (s t : Text) :
    utf16Length (s ++ t) = utf16Length s + utf16Length t := by
  simp [utf16Length]

/-! ## First occurrence -/

/-- The suffix of a text that starts at the first occurrence of `p`, or `none`
when `p` does not occur. -/
def find (p : Text) : Text → Option Text
  | [] => if p.isEmpty then some [] else none
  | c :: t => if p.isPrefixOf (c :: t) then some (c :: t) else find p t

/-- A text that starts with the pattern is its own first occurrence. -/
theorem find_of_start {p t : Text} (h : p <+: t) (hp : p ≠ []) :
    find p t = some t := by
  cases t with
  | nil => exact absurd (List.prefix_nil.mp h) hp
  | cons c t => simp [find, h]

/-- A position where the pattern does not start is passed over. -/
theorem find_cons_of_no_start {p t : Text} {c : Char} (h : ¬ p <+: c :: t) :
    find p (c :: t) = find p t := by
  simp [find, h]

/-- A character that is not the first one of the pattern is passed over. -/
theorem find_cons_of_ne {a c : Char} {p t : Text} (h : c ≠ a) :
    find (a :: p) (c :: t) = find (a :: p) t := by
  apply find_cons_of_no_start
  intro hp
  exact h (List.cons_prefix_cons.mp hp).1.symm

/-- A stretch without the first character of the pattern is passed over. -/
theorem find_append_of_notMem {a : Char} {p s t : Text} (h : a ∉ s) :
    find (a :: p) (s ++ t) = find (a :: p) t := by
  induction s with
  | nil => rfl
  | cons c s ih =>
      rw [List.mem_cons, not_or] at h
      rw [List.cons_append, find_cons_of_ne (Ne.symm h.1), ih h.2]

/-- A pattern whose first character is absent does not occur. -/
theorem find_eq_none_of_notMem {a : Char} {p t : Text} (h : a ∉ t) :
    find (a :: p) t = none := by
  have := find_append_of_notMem (p := p) (t := []) h
  simpa [find] using this

/-- Searching one character passes over a stretch without it. -/
theorem find_singleton_append {a : Char} {s t : Text} (h : a ∉ s) :
    find [a] (s ++ a :: t) = some (a :: t) := by
  rw [find_append_of_notMem h]
  exact find_of_start (by simp) (by simp)

/-- A match starts with the pattern. -/
theorem prefix_of_find {p t r : Text} (h : find p t = some r) : p <+: r := by
  induction t with
  | nil =>
      simp only [find, List.isEmpty_iff] at h
      split at h
      · next hp => simp [hp]
      · cases h
  | cons c t ih =>
      simp only [find] at h
      split at h
      · next hp =>
          cases h
          exact List.isPrefixOf_iff_prefix.mp hp
      · exact ih h

/-- A match is the end of the text. -/
theorem suffix_of_find {p t r : Text} (h : find p t = some r) : r <:+ t := by
  induction t with
  | nil =>
      unfold find at h
      split at h
      · exact (Option.some.inj h) ▸ List.suffix_rfl
      · cases h
  | cons c t ih =>
      unfold find at h
      split at h
      · exact (Option.some.inj h) ▸ List.suffix_rfl
      · exact (ih h).trans (List.suffix_cons c t)

/-- What is found is what occurs. -/
theorem find_isSome_iff (p t : Text) : (find p t).isSome = true ↔ p <:+: t := by
  induction t with
  | nil => cases p <;> simp [find]
  | cons c t ih =>
      by_cases h : p <+: c :: t
      · simp [find, h, h.isInfix]
      · rw [find_cons_of_no_start h, ih, List.infix_cons_iff, or_iff_right h]

/-- A first occurrence stays the first one when the text goes on. -/
theorem find_append {p s r : Text} (h : find p s = some r) (t : Text) :
    find p (s ++ t) = some (r ++ t) := by
  induction s with
  | nil =>
      simp only [find, List.isEmpty_iff] at h
      split at h
      · next hp =>
          cases h
          cases t <;> simp [find, hp]
      · cases h
  | cons c s ih =>
      simp only [find] at h
      split at h
      · next hp =>
          cases h
          have hstart : p.isPrefixOf (c :: (s ++ t)) = true := by
            rw [List.isPrefixOf_iff_prefix] at hp ⊢
            exact hp.trans ⟨t, by simp⟩
          simp [find, hstart]
      · next hp =>
          by_cases hext : p.isPrefixOf (c :: (s ++ t)) = true
          · -- the pattern fits into `s`, where it starts later, so it is short enough
            exfalso
            have hlen : p.length ≤ r.length := (prefix_of_find h).length_le
            have hr : r.length ≤ s.length := find_length_le h
            have hp' : p <+: c :: s := List.prefix_of_prefix_length_le
              (List.isPrefixOf_iff_prefix.mp hext) ⟨t, by simp⟩ (by simp; omega)
            exact hp (List.isPrefixOf_iff_prefix.mpr hp')
          · simpa [find, hext] using ih h
where
  /-- A match is a suffix, so it is no longer than the text. -/
  find_length_le {p t r : Text} (h : find p t = some r) : r.length ≤ t.length := by
    induction t with
    | nil =>
        simp only [find, List.isEmpty_iff] at h
        split at h <;> simp_all
    | cons c t ih =>
        simp only [find] at h
        split at h
        · cases h; simp
        · have := ih h
          simp only [List.length_cons]; omega

/-! ## Delimited words -/

/-- Splitting at a delimiter that neither part contains gives the two parts. -/
theorem splitOn_pair {d : Char} {k w : Text} (hk : d ∉ k) (hw : d ∉ w) :
    (k ++ d :: w).splitOn d = [k, w] := by
  have h : List.splitOn d ([d].intercalate [k, w]) = [k, w] :=
    List.splitOn_intercalate d (by simp [hk, hw]) (by simp)
  simpa [List.intercalate] using h

/-! ## Replacing a character -/

/-- Replace every occurrence of the character `c` by the text `r`. -/
def replaceChar (c : Char) (r : Text) (t : Text) : Text :=
  t.flatMap fun x => if x = c then r else [x]

@[simp] theorem replaceChar_nil (c : Char) (r : Text) : replaceChar c r [] = [] := rfl

theorem replaceChar_append (c : Char) (r s t : Text) :
    replaceChar c r (s ++ t) = replaceChar c r s ++ replaceChar c r t := by
  simp [replaceChar]

/-- A text without the character is left as it is. -/
theorem replaceChar_of_notMem {c : Char} {r t : Text} (h : c ∉ t) : replaceChar c r t = t := by
  induction t with
  | nil => rfl
  | cons x t ih =>
      simp only [List.mem_cons, not_or] at h
      simp only [replaceChar, List.flatMap_cons, if_neg (Ne.symm h.1)]
      rw [← replaceChar, ih h.2]
      rfl

end Wire
