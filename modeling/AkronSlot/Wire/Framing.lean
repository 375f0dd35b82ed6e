import AkronSlot.Wire.LinePieces

/-!
# Lines on a byte stream

A sender writes lines, and the receiver has got some beginning of the bytes, cut into
chunks that it decodes one by one.  The lines it has are the first of those that were
sent; a character that two chunks share is not what it was, but what a line begins with is
kept as long as it is ASCII.

## Why the beginning only

A stream that breaks off ends anywhere, so the receiver has a prefix of the bytes that were sent
and nothing can be said of the rest. Lines are compared by their place: the first line that is
read stands for the first one sent. `ReadFrom` leaves open what was made of the characters
outside ASCII, and `ascii_prefix` and `eq_of_ascii` are what can be known of a line
nevertheless.

## Main Definitions

* `bytesOf` — the bytes of the texts that were sent
* `ReadFrom` — a line as it is read

## Main Results

* `prefix_byteLines`, `byteLines_bytesOf`
* `completeLines_readFrom`
* `ReadFrom.ascii_prefix`, `ReadFrom.eq_of_ascii`
-/

namespace Wire

namespace Utf8

/-! ## What was sent -/

/-- The bytes of texts that are sent one after the other. -/
def bytesOf (texts : List Text) : Bytes := (texts.map encode).flatten

@[simp] theorem bytesOf_nil : bytesOf [] = [] := rfl

@[simp] theorem bytesOf_cons (t : Text) (ts : List Text) :
    bytesOf (t :: ts) = encode t ++ bytesOf ts := rfl

theorem bytesOf_append (ts us : List Text) : bytesOf (ts ++ us) = bytesOf ts ++ bytesOf us := by
  simp [bytesOf]

theorem bytesOf_prefix {ts us : List Text} (h : ts <+: us) : bytesOf ts <+: bytesOf us := by
  obtain ⟨rest, rfl⟩ := h
  exact ⟨bytesOf rest, (bytesOf_append ts rest).symm⟩

/-- The lines of a beginning are the first lines. -/
theorem prefix_byteLines {as bs : Bytes} (h : as <+: bs) : byteLines as <+: byteLines bs := by
  obtain ⟨rest, rfl⟩ := h
  exact ⟨_, (byteLines_append as rest).symm⟩

/-- **What is sent line by line is received line by line.** -/
theorem byteLines_bytesOf {lines : List Text} (h : ∀ l ∈ lines, '\n' ∉ l) :
    byteLines (bytesOf (lines.map (· ++ ['\n']))) = lines.map encode := by
  induction lines with
  | nil => rfl
  | cons l lines ih =>
      obtain ⟨hl, hrest⟩ := List.forall_mem_cons.mp h
      have hsplit : bytesOf ((l :: lines).map (· ++ ['\n'])) =
          encode l ++ newline :: bytesOf (lines.map (· ++ ['\n'])) := by
        rw [List.map_cons, bytesOf_cons, encode_line, List.append_assoc]
        rfl
      rw [hsplit, byteLines_line (newline_notMem_encode hl), ih hrest, List.map_cons]

/-- Nothing stays open behind whole lines. -/
theorem openBytes_bytesOf (lines : List Text) :
    openBytes (bytesOf (lines.map (· ++ ['\n']))) = [] := by
  induction lines using List.reverseRecOn with
  | nil => rfl
  | append_singleton lines l ih =>
      rw [List.map_append, bytesOf_append, List.map_singleton, bytesOf_cons, bytesOf_nil,
        List.append_nil, encode_line, ← List.append_assoc]
      exact openBytes_newline _ _

/-! ## What is read -/

/-- A text is what some bytes are read as, in the pieces they came in. The pieces are not known to
the one who reads a statement about the text, so they are existential. -/
def ReadFrom (text : Text) (bytes : Bytes) : Prop :=
  ∃ pieces : List Bytes, pieces.flatten = bytes ∧ text = decodeAll pieces

/-- **Every line that is read was received**, and in its place. -/
theorem completeLines_readFrom (chunks : List Bytes) :
    List.Forall₂ ReadFrom (completeLines (decodeAll chunks)) (byteLines chunks.flatten) := by
  induction chunks using chunks_induction with
  | unfinished chunks h =>
      rw [completeLines_of_notMem (newline_notMem_decodeAll h), byteLines_of_notMem h]
      exact .nil
  | line before a b after h ih =>
      have hbytes : (before ++ (a ++ newline :: b) :: after).flatten =
          (before ++ [a]).flatten ++ newline :: (b :: after).flatten := by simp
      rw [decodeAll_first_newline, completeLines_line (newline_notMem_decodeAll h), hbytes,
        byteLines_line h]
      exact .cons ⟨_, rfl, rfl⟩ ih

/-- An ASCII character is read as itself wherever the chunks are cut. -/
theorem decodeAll_ascii {pieces : List Bytes} {b : UInt8} {bs : Bytes} (hb : b.toNat < 0x80)
    (h : pieces.flatten = b :: bs) :
    ∃ rest : List Bytes, rest.flatten = bs ∧
      decodeAll pieces = Char.ofNat b.toNat :: decodeAll rest := by
  induction pieces with
  | nil => cases h
  | cons piece pieces ih =>
      cases piece with
      | nil =>
          obtain ⟨rest, hrest, htext⟩ := ih h
          exact ⟨rest, hrest, htext⟩
      | cons b' piece =>
          obtain ⟨rfl, htail⟩ := List.cons.inj h
          refine ⟨piece :: pieces, htail, ?_⟩
          have hfeed : feed none b' = ([Char.ofNat b'.toNat], none) := by
            show start b' = _
            rw [start, if_pos hb]
          have hdecode : decode (b' :: piece) = Char.ofNat b'.toNat :: decode piece := by
            simp only [decode, scan, hfeed]
            rfl
          simp only [decodeAll, List.flatMap_cons, hdecode, List.cons_append]

/-- The byte of an ASCII character. -/
theorem encode_cons_ascii {c : Char} (hc : c.toNat < 0x80) (t : Text) :
    ∃ b : UInt8, b.toNat = c.toNat ∧ encode (c :: t) = b :: encode t := by
  have hval : c.val.toNat = c.toNat := rfl
  refine ⟨UInt8.ofNat c.toNat, toNat_ofNat_byte (by omega), ?_⟩
  show String.utf8EncodeChar c ++ encode t = _
  rw [String.utf8EncodeChar, hval, if_pos (by omega)]
  rfl

namespace ReadFrom

/-- **What a line begins with is kept as long as it is ASCII.** -/
theorem ascii_prefix {text w rest : Text} (hw : ∀ c ∈ w, c.toNat < 0x80)
    (h : ReadFrom text (encode (w ++ rest))) : ∃ r, text = w ++ r ∧ ReadFrom r (encode rest) := by
  induction w generalizing text with
  | nil => exact ⟨text, rfl, h⟩
  | cons c w ih =>
      obtain ⟨hc, hrest⟩ := List.forall_mem_cons.mp hw
      obtain ⟨pieces, hpieces, rfl⟩ := h
      obtain ⟨b, hb, hencode⟩ := encode_cons_ascii hc (w ++ rest)
      rw [List.cons_append, hencode] at hpieces
      obtain ⟨later, hlater, htext⟩ := decodeAll_ascii (by omega) hpieces
      obtain ⟨r, hr, hread⟩ := ih hrest ⟨later, hlater, rfl⟩
      refine ⟨r, ?_, hread⟩
      rw [htext, hr, hb, Char.ofNat_toNat]
      rfl

/-- **An ASCII line is read as it was sent.** -/
theorem eq_of_ascii {text line : Text} (hline : ∀ c ∈ line, c.toNat < 0x80)
    (h : ReadFrom text (encode line)) : text = line := by
  rw [← List.append_nil line] at h
  obtain ⟨r, rfl, pieces, hpieces, rfl⟩ := ascii_prefix hline h
  have hempty : decodeAll pieces = [] := by
    refine List.flatMap_eq_nil_iff.mpr fun piece hpiece => ?_
    rw [List.flatten_eq_nil_iff.mp hpieces piece hpiece]
    rfl
  rw [hempty, List.append_nil]

end ReadFrom

end Utf8

end Wire
