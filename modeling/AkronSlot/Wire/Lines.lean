import AkronSlot.Wire.Text

/-!
# Newline framing

A stream of text carries one message a line.  `completeLines` and `openTail`
take a text apart into its complete lines and the unterminated rest;
`completeLines_append` and `openTail_append` are the laws that make
**incremental** framing work: a receiver that keeps only the tail of what it
has seen extracts, chunk by chunk, the lines of the whole stream.

## The open tail

What follows the last newline is no line yet, and it is the only state that a receiver has to
keep. Both functions are by recursion on the text, from its start; the laws are about a text
that grows at its end, so they are proved once here and used by every receiver.
-/

namespace Wire

/-- Put a character in front of the first line, if there is one. -/
def consFirst (c : Char) : List Text → List Text
  | [] => []
  | l :: ls => (c :: l) :: ls

/-- The complete lines of a text, without their newlines. -/
def completeLines : Text → List Text
  | [] => []
  | c :: t => if c = '\n' then [] :: completeLines t else consFirst c (completeLines t)

/-- The part of a text after its last newline. -/
def openTail : Text → Text
  | [] => []
  | c :: t => if c ≠ '\n' ∧ completeLines t = [] then c :: openTail t else openTail t

@[simp] theorem completeLines_nil : completeLines [] = [] := rfl

@[simp] theorem openTail_nil : openTail [] = [] := rfl

@[simp] theorem completeLines_newline (t : Text) :
    completeLines ('\n' :: t) = [] :: completeLines t := by
  simp [completeLines]

@[simp] theorem openTail_newline (t : Text) : openTail ('\n' :: t) = openTail t := by
  simp [openTail]

theorem completeLines_cons {c : Char} (h : c ≠ '\n') (t : Text) :
    completeLines (c :: t) = consFirst c (completeLines t) := by
  simp [completeLines, h]

theorem openTail_cons {c : Char} (h : c ≠ '\n') (t : Text) :
    openTail (c :: t) = if completeLines t = [] then c :: openTail t else openTail t := by
  simp [openTail, h]

theorem consFirst_append (c : Char) {ls : List Text} (h : ls ≠ []) (ms : List Text) :
    consFirst c (ls ++ ms) = consFirst c ls ++ ms := by
  cases ls with
  | nil => exact absurd rfl h
  | cons l ls => rfl

theorem consFirst_eq_nil {c : Char} {ls : List Text} : consFirst c ls = [] ↔ ls = [] := by
  cases ls <;> simp [consFirst]

/-- The first line of a text. -/
theorem completeLines_line {l : Text} (h : '\n' ∉ l) (t : Text) :
    completeLines (l ++ '\n' :: t) = l :: completeLines t := by
  induction l with
  | nil => simp
  | cons c l ih =>
      simp only [List.mem_cons, not_or] at h
      rw [List.cons_append, completeLines_cons (Ne.symm h.1), ih h.2]
      rfl

/-- What follows the first line has its tail. -/
theorem openTail_line {l : Text} (h : '\n' ∉ l) (t : Text) :
    openTail (l ++ '\n' :: t) = openTail t := by
  induction l with
  | nil => simp
  | cons c l ih =>
      simp only [List.mem_cons, not_or] at h
      rw [List.cons_append, openTail_cons (Ne.symm h.1), completeLines_line h.2, if_neg (by simp),
        ih h.2]

/-- A text without a newline has no complete line. -/
theorem completeLines_of_notMem {t : Text} (h : '\n' ∉ t) : completeLines t = [] := by
  induction t with
  | nil => rfl
  | cons c t ih =>
      simp only [List.mem_cons, not_or] at h
      rw [completeLines_cons (Ne.symm h.1), ih h.2]
      rfl

/-- **The incremental law for lines**: what follows a text continues its tail. -/
theorem completeLines_append (s t : Text) :
    completeLines (s ++ t) = completeLines s ++ completeLines (openTail s ++ t) := by
  induction s with
  | nil => simp
  | cons c s ih =>
      by_cases hc : c = '\n'
      · subst hc
        simp [ih]
      · rw [List.cons_append, completeLines_cons hc, completeLines_cons hc, openTail_cons hc, ih]
        by_cases hs : completeLines s = []
        · simp [hs, completeLines_cons hc, consFirst]
        · rw [if_neg hs, consFirst_append c hs]

/-- **The incremental law for the tail.** -/
theorem openTail_append (s t : Text) : openTail (s ++ t) = openTail (openTail s ++ t) := by
  induction s with
  | nil => simp
  | cons c s ih =>
      by_cases hc : c = '\n'
      · subst hc
        simpa using ih
      · rw [List.cons_append, openTail_cons hc, openTail_cons hc, ih, completeLines_append]
        by_cases hs : completeLines s = []
        · simp [hs, openTail_cons hc]
        · simp [hs]

/-- A text without a complete line is all tail. -/
theorem openTail_of_completeLines_nil {t : Text} (h : completeLines t = []) : openTail t = t := by
  induction t with
  | nil => rfl
  | cons c t ih =>
      by_cases hc : c = '\n'
      · subst hc
        simp at h
      · rw [completeLines_cons hc, consFirst_eq_nil] at h
        rw [openTail_cons hc, if_pos h, ih h]

/-- The tail is the end of the text. -/
theorem openTail_suffix (t : Text) : openTail t <:+ t := by
  induction t with
  | nil => simp
  | cons c t ih =>
      unfold openTail
      split
      · next h => rw [openTail_of_completeLines_nil h.2]
      · exact ih.trans (List.suffix_cons c t)

/-- The tail holds no newline. -/
theorem newline_notMem_openTail (t : Text) : '\n' ∉ openTail t := by
  induction t with
  | nil => simp
  | cons c t ih =>
      by_cases hc : c = '\n'
      · subst hc
        simpa using ih
      · rw [openTail_cons hc]
        split
        · simp [Ne.symm hc, ih]
        · exact ih

/-- What follows a text without a newline completes no line. -/
theorem completeLines_append_of_notMem {t : Text} (h : '\n' ∉ t) (s : Text) :
    completeLines (s ++ t) = completeLines s := by
  have hno : '\n' ∉ openTail s ++ t := by simp [newline_notMem_openTail, h]
  rw [completeLines_append, completeLines_of_notMem hno, List.append_nil]

/-- The lines of a text, each with its newline, and the tail make the text. -/
theorem flatMap_completeLines (t : Text) :
    (completeLines t).flatMap (· ++ ['\n']) ++ openTail t = t := by
  induction t with
  | nil => rfl
  | cons c t ih =>
      by_cases hc : c = '\n'
      · subst hc
        simpa using ih
      · rw [completeLines_cons hc, openTail_cons hc]
        cases ht : completeLines t with
        | nil => simp [consFirst, openTail_of_completeLines_nil ht]
        | cons l ls => simpa [ht, consFirst] using ih

/-- A complete line holds no newline. -/
theorem newline_notMem_of_mem_completeLines {l t : Text} (h : l ∈ completeLines t) :
    '\n' ∉ l := by
  induction t generalizing l with
  | nil => simp at h
  | cons c t ih =>
      by_cases hc : c = '\n'
      · subst hc
        rw [completeLines_newline] at h
        rcases List.mem_cons.mp h with rfl | h
        · simp
        · exact ih h
      · rw [completeLines_cons hc] at h
        cases ht : completeLines t with
        | nil => simp [ht, consFirst] at h
        | cons m ms =>
            rw [ht, consFirst] at h
            rcases List.mem_cons.mp h with rfl | h
            · simp [Ne.symm hc, ih (ht ▸ List.mem_cons_self)]
            · exact ih (ht ▸ List.mem_cons_of_mem m h)

/-- A text has one line exactly if it starts with that line and its newline, and has no
newline after it. -/
theorem completeLines_eq_singleton_iff {l t : Text} : completeLines t = [l] ↔
    '\n' ∉ l ∧ ∃ rest, '\n' ∉ rest ∧ t = l ++ '\n' :: rest := by
  constructor
  · intro h
    refine ⟨newline_notMem_of_mem_completeLines (h ▸ List.mem_singleton_self l), openTail t,
      newline_notMem_openTail t, ?_⟩
    have hwhole := flatMap_completeLines t
    rw [h, List.flatMap_singleton, List.append_assoc] at hwhole
    exact hwhole.symm
  · rintro ⟨hl, rest, hrest, rfl⟩
    rw [completeLines_line hl, completeLines_of_notMem hrest]

end Wire
