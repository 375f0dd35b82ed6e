import AkronSlot.Wire.Utf8

/-!
# Text in chunks

A stream of bytes arrives in chunks, and a receiver that decodes each chunk on
its own sees the text only if no character is cut between two of them.  A cut
never shortens the text and, within a character of a text that was encoded, it
lengthens it; so the length tells.

The open line of a stream, the bytes after its last newline, is followed here in
bytes, in text and in the pieces it came in.

## The cost of a text

A sender that counts the UTF-16 units of a text and sends as many bytes sends too
few when the text has other characters than ASCII, whatever it encodes them in: no
decoder with replacement gets such a character out of fewer bytes than its UTF-8
encoding has.  `textCost` counts these bytes and is never more than what was read
(`textCost_decodeAll_le`).  Only U+FFFD is cheap, since any stray byte yields one.

## Main Definitions

* `openBytes`, `openPieces` — the open line of a stream and of its chunks
* `Uncut` — chunks that decode one by one to the text of them all
* `textCost` — the bytes that a text is read from at the least

## Main Results

* `length_decode_flatten_le`, `append_decodeAll_eq_iff`
* `exists_pieces_of_uncut`
* `textCost_decodeAll_le`, `ascii_of_textCost_le`
-/

namespace Wire

namespace Utf8

/-! ## The open line -/

/-- The bytes after the last newline. -/
def openBytes : Bytes → Bytes
  | [] => []
  | b :: bs => if newline ∈ bs then openBytes bs else if b = newline then bs else b :: bs

theorem openBytes_of_notMem {bs : Bytes} (h : newline ∉ bs) : openBytes bs = bs := by
  cases bs with
  | nil => rfl
  | cons b bs =>
      simp only [List.mem_cons, not_or] at h
      simp [openBytes, h.2, Ne.symm h.1]

theorem openBytes_newline (as bs : Bytes) : openBytes (as ++ newline :: bs) = openBytes bs := by
  induction as with
  | nil =>
      by_cases h : newline ∈ bs
      · simp [openBytes, h]
      · simp [openBytes, h, openBytes_of_notMem h]
  | cons a as ih => simp [openBytes, ih]

theorem openBytes_append_of_notMem (as : Bytes) {bs : Bytes} (h : newline ∉ bs) :
    openBytes (as ++ bs) = openBytes as ++ bs := by
  induction as with
  | nil => exact openBytes_of_notMem h
  | cons a as ih =>
      by_cases hrest : newline ∈ as
      · simp [openBytes, hrest, ih]
      · by_cases ha : a = newline
        · simp [openBytes, hrest, h, ha]
        · simp [openBytes, hrest, h, ha]

/-- What follows a stream starts over at a newline, or continues its open line. -/
theorem openBytes_append (as bs : Bytes) :
    openBytes (as ++ bs) = if newline ∈ bs then openBytes bs else openBytes as ++ bs := by
  split
  · next h =>
      obtain ⟨a, b, rfl, -⟩ := List.eq_append_cons_of_mem h
      rw [← List.append_assoc, openBytes_newline, openBytes_newline]
  · next h => exact openBytes_append_of_notMem as h

theorem newline_notMem_openBytes (bs : Bytes) : newline ∉ openBytes bs := by
  induction bs with
  | nil => simp [openBytes]
  | cons b bs ih =>
      unfold openBytes
      split
      · exact ih
      · next h =>
          split
          · exact h
          · next hb => simp [h, Ne.symm hb]

/-- The open line of the text is that of the bytes. -/
theorem openTail_decode (bs : Bytes) : openTail (decode bs) = decode (openBytes bs) := by
  induction hn : bs.length using Nat.strong_induction_on generalizing bs with
  | _ n ih =>
      by_cases h : newline ∈ bs
      · obtain ⟨a, b, rfl, ha⟩ := List.eq_append_cons_of_mem h
        rw [decode_newline, openBytes_newline, openTail_line (newline_notMem_decode ha)]
        refine ih b.length ?_ b rfl
        simp only [List.length_append, List.length_cons] at hn
        omega
      · have hnone := completeLines_of_notMem (newline_notMem_decode h)
        rw [openBytes_of_notMem h, openTail_of_completeLines_nil hnone]

/-- Bytes without a newline complete no line. -/
theorem completeLines_decode_append (as : Bytes) {bs : Bytes} (h : newline ∉ bs) :
    completeLines (decode (as ++ bs)) = completeLines (decode as) := by
  induction hn : as.length using Nat.strong_induction_on generalizing as with
  | _ n ih =>
      by_cases has : newline ∈ as
      · obtain ⟨a, b, rfl, ha⟩ := List.eq_append_cons_of_mem has
        have hno := newline_notMem_decode ha
        rw [List.append_assoc, List.cons_append, decode_newline, decode_newline,
          completeLines_line hno, completeLines_line hno, ih b.length ?_ b rfl]
        simp only [List.length_append, List.length_cons] at hn
        omega
      · rw [completeLines_of_notMem (newline_notMem_decode has),
          completeLines_of_notMem (newline_notMem_decode (by simp [has, h]))]

/-- A newline completes the open line. -/
theorem completeLines_decode_line (as : Bytes) {a : Bytes} (ha : newline ∉ a) (b : Bytes) :
    completeLines (decode (as ++ (a ++ newline :: b))) =
      completeLines (decode as) ++ decode (openBytes as ++ a) :: completeLines (decode b) := by
  rw [← List.append_assoc, decode_newline, completeLines_append, openTail_decode,
    openBytes_append_of_notMem as ha, completeLines_decode_append as ha, completeLines_line]
  rw [← openBytes_append_of_notMem as ha]
  exact newline_notMem_decode (newline_notMem_openBytes _)

/-- The pieces of the open line that a further chunk leaves. -/
def piecesAfter (pieces : List Bytes) (chunk : Bytes) : List Bytes :=
  if newline ∈ chunk then [openBytes chunk] else pieces ++ [chunk]

/-- The open line of a list of chunks, in the pieces it came in. A chunk with a newline in it
starts over with what follows its last newline. -/
def openPieces (chunks : List Bytes) : List Bytes := chunks.foldl piecesAfter []

theorem openPieces_concat (chunks : List Bytes) (chunk : Bytes) :
    openPieces (chunks ++ [chunk]) = piecesAfter (openPieces chunks) chunk := by
  simp [openPieces]

theorem flatten_openPieces (chunks : List Bytes) :
    (openPieces chunks).flatten = openBytes chunks.flatten := by
  induction chunks using List.reverseRecOn with
  | nil => rfl
  | append_singleton chunks chunk ih =>
      rw [openPieces_concat, piecesAfter, List.flatten_concat, openBytes_append]
      split
      · simp
      · rw [List.flatten_concat, ih]

/-! ## Cuts -/

/-- Chunks that decode one by one to the text of them all: no character is cut between two of
them. It is stated by the texts and not by the positions of the cuts, because the bytes need not
be UTF-8. -/
def Uncut (pieces : List Bytes) : Prop := decodeAll pieces = decode pieces.flatten

instance decidableUncut (pieces : List Bytes) : Decidable (Uncut pieces) :=
  inferInstanceAs (Decidable (decodeAll pieces = decode pieces.flatten))

/-- The text of bytes from a state on. -/
def finish (q : Option Partial) (bs : Bytes) : Text := (scan q bs).1 ++ flush (scan q bs).2

theorem finish_cons (q : Option Partial) (b : UInt8) (bs : Bytes) :
    finish q (b :: bs) = (feed q b).1 ++ finish (feed q b).2 bs := by
  simp [finish, scan]

theorem decode_append_finish (as bs : Bytes) :
    decode (as ++ bs) = (scan none as).1 ++ finish (scan none as).2 bs := by
  simp [decode, finish, scan_append]

/-- The bytes that can continue a character are the continuation bytes. -/
def Partial.Bounded (p : Partial) : Prop := p.high ≤ 0xBF

theorem lead_bounded {b : ℕ} {p : Partial} (h : lead b = some p) : p.Bounded := by
  unfold lead at h
  split_ifs at h
  all_goals
    obtain rfl := Option.some.inj h
    simp [Partial.Bounded]

theorem start_bounded {b : UInt8} {p : Partial} (h : (start b).2 = some p) : p.Bounded := by
  unfold start at h
  split at h
  · simp at h
  · split at h
    · simp at h
    · next q hq =>
        obtain rfl := Option.some.inj h
        exact lead_bounded hq

/-- A byte that continues a character completes it or leaves it unfinished. -/
theorem feed_within {p : Partial} {b : UInt8} (h : p.low ≤ b.toNat ∧ b.toNat ≤ p.high) :
    (∃ c, feed (some p) b = ([c], none)) ∨ ∃ q, feed (some p) b = ([], some q) ∧ q.Bounded := by
  rw [feed, dif_pos h]
  unfold Partial.next
  split
  · exact .inl ⟨_, rfl⟩
  · exact .inr ⟨_, rfl, le_rfl⟩

/-- Any other byte ends it. -/
theorem feed_beyond {p : Partial} {b : UInt8} (h : ¬ (p.low ≤ b.toNat ∧ b.toNat ≤ p.high)) :
    feed (some p) b = (replacement :: (start b).1, (start b).2) := dif_neg h

theorem feed_bounded {q : Option Partial} {b : UInt8} {p : Partial} (h : (feed q b).2 = some p) :
    p.Bounded := by
  cases q with
  | none => exact start_bounded h
  | some r =>
      by_cases hin : r.low ≤ b.toNat ∧ b.toNat ≤ r.high
      · rcases feed_within hin with ⟨c, hc⟩ | ⟨q, hq, hbounded⟩
        · simp [hc] at h
        · rw [hq] at h
          exact Option.some.inj h ▸ hbounded
      · rw [feed_beyond hin] at h
        exact start_bounded h

theorem scan_bounded {bs : Bytes} {p : Partial} (h : (scan none bs).2 = some p) : p.Bounded := by
  cases bs using List.reverseRecOn with
  | nil => simp at h
  | append_singleton bs b =>
      rw [scan_append] at h
      exact feed_bounded h

/-- A continuation byte starts nothing. -/
theorem start_continuation {b : UInt8} (hlow : 0x80 ≤ b.toNat) (hhigh : b.toNat ≤ 0xBF) :
    start b = ([replacement], none) := by
  have hlead : lead b.toNat = none := by
    unfold lead
    split_ifs <;> first | rfl | omega
  rw [start, if_neg (by omega), hlead]

theorem decode_cons (b : UInt8) (bs : Bytes) :
    decode (b :: bs) = (start b).1 ++ finish (start b).2 bs := finish_cons none b bs

/-- A byte that ends an unfinished character costs a replacement. -/
theorem length_finish_beyond {p : Partial} {b : UInt8}
    (h : ¬ (p.low ≤ b.toNat ∧ b.toNat ≤ p.high)) (bs : Bytes) :
    (finish (some p) (b :: bs)).length = (decode (b :: bs)).length + 1 := by
  rw [finish_cons, feed_beyond h, decode_cons]
  rfl

/-- **A character that has started saves at most one replacement**: what is read
after it is at most one character longer than it is on its own, and not longer at
all when its first byte continues the character. -/
theorem length_finish_le {p : Partial} (hp : p.Bounded) (bs : Bytes) :
    (finish (some p) bs).length ≤ 1 + (decode bs).length ∧
      ∀ b ∈ bs.head?, p.low ≤ b.toNat → b.toNat ≤ p.high →
        (finish (some p) bs).length ≤ (decode bs).length := by
  induction bs generalizing p with
  | nil => simp [finish, flush]
  | cons b bs ih =>
      have hdecode := decode_cons b bs
      by_cases hin : p.low ≤ b.toNat ∧ b.toNat ≤ p.high
      · -- on its own, the byte is a replacement
        have hstart := start_continuation (p.continuation.trans hin.1) (hin.2.trans hp)
        have hlength : (decode (b :: bs)).length = (decode bs).length + 1 := by
          rw [hdecode, hstart]
          rfl
        have hle : (finish (some p) (b :: bs)).length ≤ (decode (b :: bs)).length := by
          rw [finish_cons, hlength]
          rcases feed_within hin with ⟨c, hc⟩ | ⟨q, hq, hbounded⟩
          · rw [hc]
            exact le_rfl
          · rw [hq]
            have := (ih hbounded).1
            show (finish (some q) bs).length ≤ _
            omega
        exact ⟨by omega, fun _ _ _ _ => hle⟩
      · have hsame := length_finish_beyond hin bs
        refine ⟨by omega, fun b' hb' hlow hhigh => ?_⟩
        obtain rfl : b = b' := by simpa using hb'
        exact absurd ⟨hlow, hhigh⟩ hin

/-- **A cut never shortens the text.** -/
theorem length_decode_append_le (as bs : Bytes) :
    (decode (as ++ bs)).length ≤ (decode as).length + (decode bs).length := by
  rw [decode_append_finish]
  cases h : (scan none as).2 with
  | none => simp [decode, finish, h]
  | some p =>
      have hle := (length_finish_le (scan_bounded h) bs).1
      have has : (decode as).length = (scan none as).1.length + 1 := by
        simp [decode, h, flush]
      rw [List.length_append, has]
      omega

theorem length_decode_flatten_le (pieces : List Bytes) :
    (decode pieces.flatten).length ≤ (decodeAll pieces).length := by
  induction pieces with
  | nil => simp [decodeAll]
  | cons piece pieces ih =>
      have hle := length_decode_append_le piece pieces.flatten
      have hall : decodeAll (piece :: pieces) = decode piece ++ decodeAll pieces := rfl
      rw [hall, List.flatten_cons, List.length_append]
      omega

/-- **Nothing before it and no cut**: a text in front of what the pieces decode to
is what they decode to together only if it is empty. -/
theorem append_decodeAll_eq_iff (t : Text) (pieces : List Bytes) :
    t ++ decodeAll pieces = decode pieces.flatten ↔ t = [] ∧ Uncut pieces := by
  constructor
  · intro h
    have hlength := congrArg List.length h
    have hle := length_decode_flatten_le pieces
    rw [List.length_append] at hlength
    obtain rfl : t = [] := List.length_eq_zero_iff.mp (by omega)
    exact ⟨rfl, h⟩
  · rintro ⟨rfl, huncut⟩
    exact huncut

/-! ## Cuts of a text -/

/-- Bytes that start the bytes of a text end between two characters or within one. -/
theorem exists_cut {t : Text} {as bs : Bytes} (h : as ++ bs = encode t) :
    (∃ t₁ t₂, t = t₁ ++ t₂ ∧ as = encode t₁ ∧ bs = encode t₂) ∨
      ∃ t₁ c t₂ us vs, t = t₁ ++ c :: t₂ ∧ as = encode t₁ ++ us ∧ bs = vs ++ encode t₂ ∧
        us ++ vs = String.utf8EncodeChar c ∧ us ≠ [] ∧ vs ≠ [] := by
  induction t generalizing as with
  | nil =>
      obtain ⟨rfl, rfl⟩ := List.append_eq_nil_iff.mp h
      exact .inl ⟨[], [], rfl, rfl, rfl⟩
  | cons c t ih =>
      have hcons : encode (c :: t) = String.utf8EncodeChar c ++ encode t := rfl
      rw [hcons] at h
      rcases List.append_eq_append_iff.mp h with ⟨vs, hchar, rfl⟩ | ⟨rest, rfl, hrest⟩
      · by_cases has : as = []
        · subst has
          exact .inl ⟨[], c :: t, rfl, rfl, by rw [hcons, hchar]; rfl⟩
        · by_cases hvs : vs = []
          · subst hvs
            refine .inl ⟨[c], t, rfl, ?_, rfl⟩
            simpa [encode] using hchar.symm
          · exact .inr ⟨[], c, t, as, vs, rfl, rfl, rfl, hchar.symm, has, hvs⟩
      · rcases ih hrest.symm with ⟨t₁, t₂, rfl, rfl, rfl⟩ |
          ⟨t₁, d, t₂, us, vs, rfl, rfl, hbs, hrest⟩
        · exact .inl ⟨c :: t₁, t₂, rfl, rfl, rfl⟩
        · exact .inr ⟨c :: t₁, d, t₂, us, vs, rfl, by simp [encode], hbs, hrest⟩

theorem length_finish_pos (p : Partial) (bs : Bytes) : 0 < (finish (some p) bs).length := by
  induction bs generalizing p with
  | nil => simp [finish, flush]
  | cons b bs ih =>
      rw [finish_cons, List.length_append]
      by_cases hin : p.low ≤ b.toNat ∧ b.toNat ≤ p.high
      · rcases feed_within hin with ⟨c, hc⟩ | ⟨q, hq, -⟩
        · simp [hc]
        · rw [hq]
          exact Nat.add_pos_right _ (ih q)
      · simp [feed_beyond hin]

theorem decode_ne_nil {bs : Bytes} (h : bs ≠ []) : 0 < (decode bs).length := by
  cases bs with
  | nil => exact absurd rfl h
  | cons b bs =>
      rw [decode_cons, List.length_append]
      cases hs : (start b).2 with
      | some p =>
          have := length_finish_pos p bs
          omega
      | none =>
          have hone : 0 < (start b).1.length := by
            unfold start at hs ⊢
            split
            · simp
            · next hb =>
                rw [if_neg hb] at hs
                split at hs
                · simp
                · simp at hs
          omega

/-- **A cut within a character lengthens the text.** -/
theorem length_cut_lt {c : Char} {us vs : Bytes} (h : us ++ vs = String.utf8EncodeChar c)
    (hus : us ≠ []) (hvs : vs ≠ []) (rest : Bytes) :
    (decode (us ++ (vs ++ rest))).length < (decode us).length + (decode (vs ++ rest)).length := by
  have hscan := scan_encodeChar c
  rw [← h, scan_append] at hscan
  obtain ⟨htext, hend⟩ := Prod.mk.inj hscan
  have hone : (scan none us).1.length + (finish (scan none us).2 vs).length = 1 := by
    rw [finish, hend, flush_none, List.append_nil, ← List.length_append, htext]
    rfl
  rw [decode_append_finish, List.length_append]
  cases hq : (scan none us).2 with
  | none =>
      -- both halves would be whole, and each of them is a character
      rw [hq] at hone
      have hleft : (decode us).length = (scan none us).1.length := by simp [decode, hq]
      have := decode_ne_nil hus
      have : 0 < (finish none vs).length := decode_ne_nil hvs
      omega
  | some p =>
      rw [hq] at hone
      have hpos := length_finish_pos p vs
      have hleft : (decode us).length = (scan none us).1.length + 1 := by
        simp [decode, hq, flush]
      obtain ⟨b, vs, rfl⟩ := List.exists_cons_of_ne_nil hvs
      have hin : p.low ≤ b.toNat ∧ b.toNat ≤ p.high := by
        by_contra hout
        have hmore := length_finish_beyond hout vs
        have := decode_ne_nil (List.cons_ne_nil b vs)
        omega
      have hle := (length_finish_le (scan_bounded hq) (b :: vs ++ rest)).2 b (by simp) hin.1 hin.2
      omega

/-- **Chunks of the bytes of a text that decode one by one to no longer text are the
bytes of pieces of it.** -/
theorem exists_pieces_of_length {chunks : List Bytes} {t : Text}
    (hbytes : chunks.flatten = encode t) (hlength : (decodeAll chunks).length ≤ t.length) :
    ∃ pieces : List Text, chunks = pieces.map encode ∧ pieces.flatten = t := by
  induction chunks generalizing t with
  | nil =>
      have ht := decode_encode t
      rw [← hbytes] at ht
      exact ⟨[], rfl, ht⟩
  | cons chunk chunks ih =>
      have hall : decodeAll (chunk :: chunks) = decode chunk ++ decodeAll chunks := rfl
      rw [hall, List.length_append] at hlength
      rw [List.flatten_cons] at hbytes
      rcases exists_cut hbytes with ⟨t₁, t₂, rfl, rfl, hrest⟩ |
        ⟨t₁, c, t₂, us, vs, rfl, rfl, hrest, hchar, hus, hvs⟩
      · rw [decode_encode, List.length_append] at hlength
        obtain ⟨pieces, rfl, rfl⟩ := ih hrest (by omega)
        exact ⟨t₁ :: pieces, rfl, rfl⟩
      · have hlt := length_cut_lt hchar hus hvs (encode t₂)
        have hle := length_decode_flatten_le chunks
        have hwhole : decode (us ++ (vs ++ encode t₂)) = c :: t₂ := by
          rw [← List.append_assoc, hchar]
          exact decode_encode (c :: t₂)
        rw [hwhole, List.length_cons] at hlt
        rw [hrest] at hle
        rw [decode_append (whole_encode t₁), decode_encode, List.length_append, List.length_append,
          List.length_cons] at hlength
        omega

/-- **Chunks of the bytes of a text that decode one by one to it are the bytes of
pieces of it.** -/
theorem exists_pieces_of_uncut {chunks : List Bytes} {t : Text} (hbytes : chunks.flatten = encode t)
    (huncut : Uncut chunks) : ∃ pieces : List Text, chunks = pieces.map encode ∧
      pieces.flatten = t := by
  have hall : decodeAll chunks = decode chunks.flatten := huncut
  rw [hbytes, decode_encode] at hall
  exact exists_pieces_of_length hbytes (congrArg List.length hall).le

/-- Pieces of a text are not cut. -/
theorem decodeAll_map_encode (pieces : List Text) :
    decodeAll (pieces.map encode) = pieces.flatten := by
  induction pieces with
  | nil => rfl
  | cons piece pieces ih =>
      have hcons : decodeAll ((piece :: pieces).map encode) =
          decode (encode piece) ++ decodeAll (pieces.map encode) := rfl
      rw [hcons, ih, decode_encode]
      rfl

theorem flatten_map_encode (pieces : List Text) :
    (pieces.map encode).flatten = encode pieces.flatten := by
  induction pieces with
  | nil => rfl
  | cons piece pieces ih =>
      rw [List.map_cons, List.flatten_cons, ih, List.flatten_cons, encode_append]

/-- Chunks that lengthen the text nowhere are not cut. -/
theorem uncut_of_length {chunks : List Bytes} {t : Text} (hbytes : chunks.flatten = encode t)
    (hlength : (decodeAll chunks).length ≤ t.length) : Uncut chunks := by
  obtain ⟨pieces, rfl, rfl⟩ := exists_pieces_of_length hbytes hlength
  rw [Uncut, decodeAll_map_encode, flatten_map_encode, decode_encode]

/-! ## What a text costs -/

/-- The bytes that a character is read from at the least.  U+FFFD can stand for a
single byte, so it is the one character that is read from less than its encoding. -/
def cost (c : Char) : ℕ := if c = replacement then 1 else (String.utf8EncodeChar c).length

/-- The bytes that a text is read from at the least. -/
def textCost (t : Text) : ℕ := (t.map cost).sum

theorem textCost_cons (c : Char) (t : Text) : textCost (c :: t) = cost c + textCost t := by
  simp [textCost]

theorem textCost_append (s t : Text) : textCost (s ++ t) = textCost s + textCost t := by
  simp [textCost]

theorem cost_replacement : cost replacement = 1 := rfl

theorem cost_le (c : Char) : cost c ≤ (String.utf8EncodeChar c).length := by
  unfold cost
  split
  · next h =>
      subst h
      decide
  · exact le_rfl

/-- The encoding of a character with a code below a bound. -/
theorem length_encodeChar_le (c : Char) :
    (c.toNat < 0x80 → (String.utf8EncodeChar c).length ≤ 1) ∧
    (c.toNat < 0x800 → (String.utf8EncodeChar c).length ≤ 2) ∧
    (c.toNat < 0x10000 → (String.utf8EncodeChar c).length ≤ 3) ∧
    (String.utf8EncodeChar c).length ≤ 4 := by
  have hval : c.val.toNat = c.toNat := rfl
  simp only [String.utf8EncodeChar, hval]
  split_ifs <;> simp <;> omega

/-- Of an unfinished character `k` bytes have been read, and whatever it becomes is
encoded in no more than these and the ones to come. -/
structure Partial.Paid (p : Partial) (k : ℕ) : Prop where
  some_read : 0 < k
  bounded : p.Bounded
  enough : ∀ c : Char, c.toNat < (p.bits + 1) * 64 ^ (p.more + 1) →
    (String.utf8EncodeChar c).length ≤ k + p.more + 1

theorem lead_paid {b : ℕ} {p : Partial} (h : lead b = some p) : p.Paid 1 := by
  refine ⟨Nat.one_pos, lead_bounded h, fun c hc => ?_⟩
  obtain ⟨-, htwo, hthree, hfour⟩ := length_encodeChar_le c
  unfold lead at h
  split_ifs at h
  all_goals
    obtain rfl := Option.some.inj h
    simp only [zero_add, pow_one, one_mul] at hc
  · exact htwo (by omega)
  · exact hthree (by omega)
  · exact hthree (by omega)
  · exact hthree (by omega)
  all_goals exact hfour

theorem toNat_ofNat_le (n : ℕ) : (Char.ofNat n).toNat ≤ n := by
  unfold Char.ofNat
  split
  · exact le_rfl
  · exact Nat.zero_le _

/-- A byte that continues a character has been paid for too. -/
theorem Partial.Paid.feed {p : Partial} {k : ℕ} (h : p.Paid k) {b : UInt8}
    (hin : p.low ≤ b.toNat ∧ b.toNat ≤ p.high) :
    (∃ c, feed (some p) b = ([c], none) ∧ cost c ≤ k + 1) ∨
      ∃ q, feed (some p) b = ([], some q) ∧ q.Paid (k + 1) := by
  have hhigh : b.toNat ≤ 0xBF := hin.2.trans h.bounded
  have hextend : p.extend b.toNat + 1 ≤ (p.bits + 1) * 64 := by
    unfold Partial.extend
    omega
  rw [Utf8.feed, dif_pos hin]
  unfold Partial.next
  split
  · next hmore =>
      refine .inl ⟨_, rfl, (cost_le _).trans ?_⟩
      have hpaid := h.enough (Char.ofNat (p.extend b.toNat)) ?_
      · rwa [hmore] at hpaid
      · rw [hmore, zero_add, pow_one]
        exact (Nat.lt_succ_of_le (toNat_ofNat_le _)).trans_le hextend
  · next m hmore =>
      refine .inr ⟨_, rfl, Nat.succ_pos k, le_rfl, fun c hc => ?_⟩
      have hpaid := h.enough c (hc.trans_le ?_)
      · rw [hmore] at hpaid
        show _ ≤ k + 1 + m + 1
        omega
      · calc (p.extend b.toNat + 1) * 64 ^ (m + 1)
            ≤ (p.bits + 1) * 64 * 64 ^ (m + 1) := Nat.mul_le_mul_right _ hextend
          _ = (p.bits + 1) * 64 ^ (p.more + 1) := by
            rw [hmore, Nat.pow_succ _ (m + 1)]
            ring

/-- **A text costs no more than the bytes it is read from**, and those of a character
that had started. -/
theorem textCost_finish_le (bs : Bytes) :
    textCost (finish none bs) ≤ bs.length ∧
      ∀ (p : Partial) (k : ℕ), p.Paid k → textCost (finish (some p) bs) ≤ k + bs.length := by
  induction bs with
  | nil => exact ⟨le_rfl, fun p k hp => hp.some_read⟩
  | cons b bs ih =>
      obtain ⟨hnone, hsome⟩ := ih
      have hfirst : textCost (finish none (b :: bs)) ≤ (b :: bs).length := by
        rw [finish_cons, List.length_cons, feed, start]
        split
        · next hb =>
            have hcost : cost (Char.ofNat b.toNat) ≤ 1 := (cost_le _).trans
              ((length_encodeChar_le _).1 ((toNat_ofNat_le _).trans_lt hb))
            show textCost (_ :: finish none bs) ≤ _
            rw [textCost_cons]
            omega
        · split
          · show textCost (replacement :: finish none bs) ≤ _
            rw [textCost_cons, cost_replacement]
            omega
          · next p hp =>
              have hpaid := hsome p 1 (lead_paid hp)
              show textCost (finish (some p) bs) ≤ _
              omega
      refine ⟨hfirst, fun p k hp => ?_⟩
      by_cases hin : p.low ≤ b.toNat ∧ b.toNat ≤ p.high
      · rw [finish_cons, List.length_cons]
        rcases hp.feed hin with ⟨c, hc, hcost⟩ | ⟨q, hq, hpaid⟩
        · rw [hc]
          show textCost (c :: finish none bs) ≤ _
          rw [textCost_cons]
          omega
        · rw [hq]
          have hrest := hsome q (k + 1) hpaid
          show textCost (finish (some q) bs) ≤ _
          omega
      · have hpos := hp.some_read
        have hsplit : finish (some p) (b :: bs) = replacement :: finish none (b :: bs) := by
          rw [finish_cons, feed_beyond hin, finish_cons]
          rfl
        rw [hsplit, textCost_cons, cost_replacement]
        omega

theorem textCost_decodeAll_le (pieces : List Bytes) :
    textCost (decodeAll pieces) ≤ pieces.flatten.length := by
  induction pieces with
  | nil => exact le_rfl
  | cons piece pieces ih =>
      have hpiece : textCost (decode piece) ≤ piece.length := (textCost_finish_le piece).1
      have hall : decodeAll (piece :: pieces) = decode piece ++ decodeAll pieces := rfl
      rw [hall, textCost_append, List.flatten_cons, List.length_append]
      omega

/-- A character has no more UTF-16 units than it costs bytes, and fewer unless it is
ASCII or U+FFFD. -/
theorem units_le_cost (c : Char) : (if c.toNat < 0x10000 then 1 else 2) ≤ cost c ∧
    ((if c.toNat < 0x10000 then 1 else 2) = cost c → c.toNat < 0x80 ∨ c = replacement) := by
  have hval : c.val.toNat = c.toNat := rfl
  by_cases hc : c = replacement
  · subst hc
    exact ⟨by decide, fun _ => .inr rfl⟩
  · simp only [cost, if_neg hc, String.utf8EncodeChar, hval]
    split_ifs <;> simp [hc] <;> omega

theorem utf16Length_le_textCost (t : Text) : utf16Length t ≤ textCost t := by
  induction t with
  | nil => exact le_rfl
  | cons c t ih =>
      have hunits : utf16Length (c :: t) =
          (if c.toNat < 0x10000 then 1 else 2) + utf16Length t := by simp [utf16Length]
      rw [hunits, textCost_cons]
      exact Nat.add_le_add (units_le_cost c).1 ih

/-- **A text that costs a byte for each UTF-16 unit** has only ASCII characters and U+FFFD. -/
theorem ascii_of_textCost_le {t : Text} (h : textCost t ≤ utf16Length t) :
    ∀ c ∈ t, c.toNat < 0x80 ∨ c = replacement := by
  induction t with
  | nil => exact fun c hc => absurd hc List.not_mem_nil
  | cons c t ih =>
      have hunits : utf16Length (c :: t) =
          (if c.toNat < 0x10000 then 1 else 2) + utf16Length t := by simp [utf16Length]
      obtain ⟨hle, heq⟩ := units_le_cost c
      have hrest := utf16Length_le_textCost t
      rw [hunits, textCost_cons] at h
      refine List.forall_mem_cons.mpr ⟨heq (by omega), ih (by omega)⟩

end Utf8

end Wire
