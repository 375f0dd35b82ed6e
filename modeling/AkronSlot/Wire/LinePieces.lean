import AkronSlot.Wire.Chunks

/-!
# The lines of a stream in the pieces they arrive in

A line of a stream may begin in one chunk and end in a later one.  `linePieces`
lists the complete lines of a stream, each in the pieces that the chunks cut it
into; `openPieces` has the pieces of the line that is still open.

## Two views of one stream

The pieces of the lines and the lines of the bytes are the same up to joining the pieces
(`map_flatten_linePieces`). A receiver that decodes chunk by chunk sees the pieces, a sender
knows the lines, and what is lost between the two is lost within one line.

## Main Definitions

* `byteLines` — the complete lines of bytes
* `linePieces`

## Main Results

* `map_flatten_linePieces`, `byteLines_encode`
-/

namespace Wire

/-- Put something in front of the first line, if there is one. -/
def extendFirst {α : Type} (as : List α) : List (List α) → List (List α)
  | [] => []
  | l :: ls => (as ++ l) :: ls

@[simp] theorem extendFirst_nil {α : Type} (ls : List (List α)) : extendFirst [] ls = ls := by
  cases ls <;> rfl

theorem completeLines_extend {s : Text} (h : '\n' ∉ s) (t : Text) :
    completeLines (s ++ t) = extendFirst s (completeLines t) := by
  induction s with
  | nil => rw [List.nil_append, extendFirst_nil]
  | cons c s ih =>
      simp only [List.mem_cons, not_or] at h
      rw [List.cons_append, completeLines_cons (Ne.symm h.1), ih h.2]
      cases completeLines t <;> rfl

namespace Utf8

/-- The complete lines of bytes, without their newlines. -/
def byteLines : Bytes → List Bytes
  | [] => []
  | b :: bs => if b = newline then [] :: byteLines bs else extendFirst [b] (byteLines bs)

theorem byteLines_newline (bs : Bytes) : byteLines (newline :: bs) = [] :: byteLines bs :=
  if_pos rfl

theorem byteLines_cons {b : UInt8} (h : b ≠ newline) (bs : Bytes) :
    byteLines (b :: bs) = extendFirst [b] (byteLines bs) := if_neg h

theorem byteLines_extend {as : Bytes} (h : newline ∉ as) (bs : Bytes) :
    byteLines (as ++ bs) = extendFirst as (byteLines bs) := by
  induction as with
  | nil => rw [List.nil_append, extendFirst_nil]
  | cons a as ih =>
      simp only [List.mem_cons, not_or] at h
      rw [List.cons_append, byteLines_cons (Ne.symm h.1), ih h.2]
      cases byteLines bs <;> rfl

theorem byteLines_of_notMem {bs : Bytes} (h : newline ∉ bs) : byteLines bs = [] := by
  have hextend := byteLines_extend h []
  rwa [List.append_nil] at hextend

theorem byteLines_line {as : Bytes} (h : newline ∉ as) (bs : Bytes) :
    byteLines (as ++ newline :: bs) = as :: byteLines bs := by
  rw [byteLines_extend h, byteLines_newline, extendFirst, List.append_nil]

/-- Induction over the newlines of bytes. -/
theorem bytes_induction {P : Bytes → Prop} (unfinished : ∀ bs, newline ∉ bs → P bs)
    (line : ∀ a b, newline ∉ a → P b → P (a ++ newline :: b)) (bs : Bytes) : P bs := by
  induction hn : bs.length using Nat.strong_induction_on generalizing bs with
  | _ n ih =>
      by_cases h : newline ∈ bs
      · obtain ⟨a, b, rfl, ha⟩ := List.eq_append_cons_of_mem h
        refine line a b ha (ih b.length ?_ b rfl)
        simp only [List.length_append, List.length_cons] at hn
        omega
      · exact unfinished bs h

/-- The lines of the text are those of the bytes. -/
theorem completeLines_decode (bs : Bytes) :
    completeLines (decode bs) = (byteLines bs).map decode := by
  induction bs using bytes_induction with
  | unfinished bs h =>
      rw [byteLines_of_notMem h, completeLines_of_notMem (newline_notMem_decode h)]
      rfl
  | line a b ha ih =>
      rw [decode_newline, completeLines_line (newline_notMem_decode ha), byteLines_line ha, ih]
      rfl

theorem newline_notMem_encode {t : Text} (h : '\n' ∉ t) : newline ∉ encode t := by
  intro hmem
  obtain ⟨as, bs, heq, -⟩ := List.eq_append_cons_of_mem hmem
  have ht := decode_encode t
  rw [heq, decode_newline] at ht
  exact h (ht ▸ by simp)

/-- Induction over the newlines of a text. -/
theorem text_induction {P : Text → Prop} (unfinished : ∀ t, '\n' ∉ t → P t)
    (line : ∀ s t, '\n' ∉ s → P t → P (s ++ '\n' :: t)) (t : Text) : P t := by
  induction hn : t.length using Nat.strong_induction_on generalizing t with
  | _ n ih =>
      by_cases h : '\n' ∈ t
      · obtain ⟨a, b, rfl, ha⟩ := List.eq_append_cons_of_mem h
        refine line a b ha (ih b.length ?_ b rfl)
        simp only [List.length_append, List.length_cons] at hn
        omega
      · exact unfinished t h

theorem encode_line (s t : Text) : encode (s ++ '\n' :: t) = encode s ++ newline :: encode t :=
  encode_append s ('\n' :: t)

/-- A text encodes line by line. -/
theorem byteLines_encode (t : Text) : byteLines (encode t) = (completeLines t).map encode := by
  induction t using text_induction with
  | unfinished t h =>
      rw [byteLines_of_notMem (newline_notMem_encode h), completeLines_of_notMem h]
      rfl
  | line s t hs ih =>
      rw [encode_line, byteLines_line (newline_notMem_encode hs), completeLines_line hs, ih]
      rfl

/-- And so does what it leaves open. -/
theorem openBytes_encode (t : Text) : openBytes (encode t) = encode (openTail t) := by
  induction t using text_induction with
  | unfinished t h =>
      rw [openBytes_of_notMem (newline_notMem_encode h),
        openTail_of_completeLines_nil (completeLines_of_notMem h)]
  | line s t hs ih => rw [encode_line, openBytes_newline, openTail_line hs, ih]

theorem byteLines_append (as bs : Bytes) :
    byteLines (as ++ bs) = byteLines as ++ byteLines (openBytes as ++ bs) := by
  induction as using bytes_induction with
  | unfinished as h => rw [byteLines_of_notMem h, openBytes_of_notMem h, List.nil_append]
  | line a b ha ih =>
      rw [List.append_assoc, List.cons_append, byteLines_line ha, byteLines_line ha,
        openBytes_newline, ih, List.cons_append]

/-! ## Lines in pieces -/

/-- Lines of one chunk in their pieces: the first one goes on from what was open. -/
def piecesOfLines (pieces : List Bytes) : List Bytes → List (List Bytes)
  | [] => []
  | l :: ls => (pieces ++ [l]) :: ls.map fun l => [l]

/-- The lines that further chunks complete, in their pieces. -/
def linePiecesFrom (pieces : List Bytes) : List Bytes → List (List Bytes)
  | [] => []
  | chunk :: chunks =>
      piecesOfLines pieces (byteLines chunk) ++ linePiecesFrom (piecesAfter pieces chunk) chunks

/-- The complete lines of a stream, each in the pieces it came in. -/
def linePieces (chunks : List Bytes) : List (List Bytes) := linePiecesFrom [] chunks

theorem map_flatten_piecesOfLines (pieces ls : List Bytes) :
    (piecesOfLines pieces ls).map List.flatten = extendFirst pieces.flatten ls := by
  cases ls with
  | nil => rfl
  | cons l ls =>
      simp only [piecesOfLines, extendFirst, List.map_cons, List.flatten_concat, List.map_map]
      congr 1
      exact (List.map_congr_left fun l _ => by simp).trans (List.map_id ls)

theorem flatten_piecesAfter {pieces : List Bytes} (h : newline ∉ pieces.flatten) (chunk : Bytes) :
    (piecesAfter pieces chunk).flatten = openBytes (pieces.flatten ++ chunk) := by
  rw [openBytes_append, openBytes_of_notMem h, piecesAfter]
  split
  · simp
  · exact List.flatten_concat

theorem newline_notMem_piecesAfter {pieces : List Bytes} (h : newline ∉ pieces.flatten)
    (chunk : Bytes) : newline ∉ (piecesAfter pieces chunk).flatten := by
  rw [flatten_piecesAfter h]
  exact newline_notMem_openBytes _

theorem map_flatten_linePiecesFrom {pieces : List Bytes} (h : newline ∉ pieces.flatten)
    (chunks : List Bytes) :
    (linePiecesFrom pieces chunks).map List.flatten =
      byteLines (pieces.flatten ++ chunks.flatten) := by
  induction chunks generalizing pieces with
  | nil => rw [List.flatten_nil, List.append_nil, byteLines_of_notMem h]; rfl
  | cons chunk chunks ih =>
      rw [linePiecesFrom, List.map_append, ih (newline_notMem_piecesAfter h chunk),
        map_flatten_piecesOfLines, flatten_piecesAfter h, ← byteLines_extend h,
        List.flatten_cons, ← List.append_assoc, ← byteLines_append]

/-- **The pieces of the lines are the lines of the stream.** -/
theorem map_flatten_linePieces (chunks : List Bytes) :
    (linePieces chunks).map List.flatten = byteLines chunks.flatten :=
  map_flatten_linePiecesFrom (by simp) chunks

theorem piecesOfLines_ne_nil {pieces ls : List Bytes} :
    ∀ line ∈ piecesOfLines pieces ls, line ≠ [] := by
  cases ls with
  | nil => simp [piecesOfLines]
  | cons l ls => simp [piecesOfLines]

theorem linePiecesFrom_ne_nil {pieces chunks : List Bytes} :
    ∀ line ∈ linePiecesFrom pieces chunks, line ≠ [] := by
  induction chunks generalizing pieces with
  | nil => simp [linePiecesFrom]
  | cons chunk chunks ih =>
      intro line hline
      rcases List.mem_append.mp hline with hline | hline
      · exact piecesOfLines_ne_nil line hline
      · exact ih line hline

/-- A line that starts with one chunk and ends in the next one. -/
theorem linePieces_pair {front : Bytes} (h : newline ∉ front) (chunk : Bytes) :
    linePieces [front, chunk] = piecesOfLines [front] (byteLines chunk) := by
  simp [linePieces, linePiecesFrom, byteLines_of_notMem h, piecesAfter, h, piecesOfLines]

end Utf8

end Wire
