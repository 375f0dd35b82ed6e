import AkronSlot.Wire.Lines

/-!
# UTF-8 with replacement

A receiver that decodes every chunk on its own never fails: where the bytes are
no UTF-8 it puts U+FFFD, one for each maximal part of a character, also for the
character that the end of the chunk cuts.  `scan` is the decoder as a machine
over bytes; an unfinished character is a `Partial`, which can only hold what
some first byte started and so never becomes an ASCII character.

## Lines survive

What the protocols of this development need of a decoder is that it keeps lines apart: the
newline byte is a newline wherever it comes, since no state of the machine takes it for a
continuation. `decode_newline` says so, and `exists_pieces_of_line` carries it over to a
receiver that decodes chunk by chunk, whatever the bytes are. That a text is read back as it was
is certain only for a chunk that has all of it (`decode_encode`).

## Main Definitions

* `Partial`, `feed`, `scan`
* `decode` — the text of a chunk
* `Whole` — a chunk that ends between characters
* `encode` — the bytes of a text

## Main Results

* `decode_newline`, `newline_notMem_decode` — lines of bytes are lines of text
* `decode_append` — decoding chunk by chunk, when a chunk is whole
* `decode_encode`
-/

namespace Wire

abbrev Bytes := List UInt8

namespace Utf8

/-- U+FFFD. -/
def replacement : Char := '\uFFFD'

/-! ## The machine -/

/-- A character that has started: the bits so far, how many bytes are to come
after the next one, and the bounds of the next one. -/
structure Partial where
  bits : ℕ
  more : ℕ
  low : ℕ
  high : ℕ
  continuation : 0x80 ≤ low
  beyond_ascii : 0x80 ≤ (bits * 64 + (low - 0x80)) * 64 ^ more

/-- The character that a byte starts. -/
def lead (b : ℕ) : Option Partial :=
  if h : 0xC2 ≤ b ∧ b ≤ 0xDF then some ⟨b - 0xC0, 0, 0x80, 0xBF, by omega, by omega⟩
  else if b = 0xE0 then some ⟨0, 1, 0xA0, 0xBF, by omega, by omega⟩
  else if b = 0xED then some ⟨0xD, 1, 0x80, 0x9F, by omega, by omega⟩
  else if h : 0xE1 ≤ b ∧ b ≤ 0xEF then some ⟨b - 0xE0, 1, 0x80, 0xBF, by omega, by omega⟩
  else if b = 0xF0 then some ⟨0, 2, 0x90, 0xBF, by omega, by omega⟩
  else if h : 0xF1 ≤ b ∧ b ≤ 0xF3 then some ⟨b - 0xF0, 2, 0x80, 0xBF, by omega, by omega⟩
  else if b = 0xF4 then some ⟨4, 2, 0x80, 0x8F, by omega, by omega⟩
  else none

/-- A byte between characters. -/
def start (b : UInt8) : Text × Option Partial :=
  if b.toNat < 0x80 then ([Char.ofNat b.toNat], none)
  else
    match lead b.toNat with
    | none => ([replacement], none)
    | some p => ([], some p)

/-- The bits of a character with one more byte. -/
def Partial.extend (p : Partial) (b : ℕ) : ℕ := p.bits * 64 + (b - 0x80)

theorem Partial.le_extend (p : Partial) {b : ℕ} (h : p.low ≤ b) :
    p.bits * 64 + (p.low - 0x80) ≤ p.extend b := by
  unfold Partial.extend
  omega

/-- A byte within the bounds of an unfinished character. -/
def Partial.next (p : Partial) (b : ℕ) (h : p.low ≤ b) : Text × Option Partial :=
  match hm : p.more with
  | 0 => ([Char.ofNat (p.extend b)], none)
  | k + 1 =>
      ([], some
        { bits := p.extend b
          more := k
          low := 0x80
          high := 0xBF
          continuation := le_rfl
          beyond_ascii := by
            calc 0x80 ≤ (p.bits * 64 + (p.low - 0x80)) * 64 ^ p.more := p.beyond_ascii
              _ ≤ p.extend b * 64 ^ p.more := Nat.mul_le_mul_right _ (p.le_extend h)
              _ = (p.extend b * 64 + (0x80 - 0x80)) * 64 ^ k := by
                rw [hm, Nat.pow_succ]
                ring })

/-- One byte: the text it yields and the state after it. -/
def feed : Option Partial → UInt8 → Text × Option Partial
  | none, b => start b
  | some p, b =>
      if h : p.low ≤ b.toNat ∧ b.toNat ≤ p.high then p.next b.toNat h.1
      else (replacement :: (start b).1, (start b).2)

/-- The machine over a list of bytes. -/
def scan : Option Partial → Bytes → Text × Option Partial
  | q, [] => ([], q)
  | q, b :: bs => ((feed q b).1 ++ (scan (feed q b).2 bs).1, (scan (feed q b).2 bs).2)

/-- What the end of the bytes adds. -/
def flush : Option Partial → Text
  | none => []
  | some _ => [replacement]

@[simp] theorem flush_none : flush none = [] := rfl

/-- The text of a chunk: `chunk.toString('utf8')`. -/
def decode (bs : Bytes) : Text := (scan none bs).1 ++ flush (scan none bs).2

/-- The chunk ends between characters. -/
def Whole (bs : Bytes) : Prop := (scan none bs).2 = none

instance decidableWhole (bs : Bytes) : Decidable (Whole bs) :=
  inferInstanceAs (Decidable ((scan none bs).2 = none))

/-! ## Taking bytes apart -/

@[simp] theorem scan_nil (q : Option Partial) : scan q [] = ([], q) := rfl

@[simp] theorem decode_nil : decode [] = [] := rfl

@[simp] theorem whole_nil : Whole [] := rfl

theorem scan_append (q : Option Partial) (as bs : Bytes) :
    scan q (as ++ bs) =
      ((scan q as).1 ++ (scan (scan q as).2 bs).1, (scan (scan q as).2 bs).2) := by
  induction as generalizing q with
  | nil => simp
  | cons a as ih => simp [scan, ih]

/-- **Decoding chunk by chunk**, when the first chunk ends between characters. -/
theorem decode_append {as : Bytes} (h : Whole as) (bs : Bytes) :
    decode (as ++ bs) = decode as ++ decode bs := by
  have hend : (scan none as).2 = none := h
  simp [decode, scan_append, hend]

theorem Whole.append {as bs : Bytes} (ha : Whole as) (hb : Whole bs) : Whole (as ++ bs) := by
  unfold Whole at *
  rw [scan_append, ha]
  exact hb

/-! ## Lines -/

/-- The byte of a newline. -/
def newline : UInt8 := 10

theorem start_newline : start newline = (['\n'], none) := rfl

/-- A newline ends whatever has started. -/
theorem feed_newline (q : Option Partial) : feed q newline = (flush q ++ ['\n'], none) := by
  cases q with
  | none => exact start_newline
  | some p =>
      have hlow : ¬ (p.low ≤ newline.toNat ∧ newline.toNat ≤ p.high) := by
        have hten : newline.toNat = 10 := rfl
        have := p.continuation
        omega
      simp [feed, hlow, start_newline, flush]

/-- **A line of bytes is a line of text.** -/
theorem decode_newline (as bs : Bytes) :
    decode (as ++ newline :: bs) = decode as ++ '\n' :: decode bs := by
  simp [decode, scan_append, scan, feed_newline]

/-- An ASCII character other than NUL. -/
def Ascii (c : Char) : Prop := 0 < c.toNat ∧ c.toNat < 0x80

instance decidableAscii (c : Char) : Decidable (Ascii c) :=
  inferInstanceAs (Decidable (_ ∧ _))

theorem Ascii.ne_replacement {c : Char} (hc : Ascii c) : c ≠ replacement := by
  rintro rfl
  exact absurd hc (by decide)

theorem Ascii.ne_ofNat {c : Char} (hc : Ascii c) {n : ℕ} (h : n ≠ c.toNat) : c ≠ Char.ofNat n := by
  rintro rfl
  rw [Char.ofNat] at h hc
  split at h
  · exact h (by simp [Char.toNat, Char.ofNatAux])
  · next hinvalid =>
      rw [dif_neg hinvalid] at hc
      exact absurd hc (by decide)

theorem Ascii.notMem_start {c : Char} (hc : Ascii c) {b : UInt8} (h : b.toNat ≠ c.toNat) :
    c ∉ (start b).1 := by
  unfold start
  split
  · simpa using hc.ne_ofNat h
  · split
    · simpa using hc.ne_replacement
    · simp

theorem Ascii.notMem_next {c : Char} (hc : Ascii c) (p : Partial) {b : ℕ} (h : p.low ≤ b) :
    c ∉ (p.next b h).1 := by
  unfold Partial.next
  split
  · next hm =>
      have hle := p.le_extend h
      have hbeyond := p.beyond_ascii
      rw [hm, pow_zero, mul_one] at hbeyond
      have hlt := hc.2
      simpa using hc.ne_ofNat (n := p.extend b) (by omega)
  · simp

theorem Ascii.notMem_feed {c : Char} (hc : Ascii c) (q : Option Partial) {b : UInt8}
    (h : b.toNat ≠ c.toNat) : c ∉ (feed q b).1 := by
  cases q with
  | none => exact hc.notMem_start h
  | some p =>
      simp only [feed]
      split
      · exact hc.notMem_next p _
      · simp [hc.ne_replacement, hc.notMem_start h]

theorem Ascii.notMem_scan {c : Char} (hc : Ascii c) (q : Option Partial) {bs : Bytes}
    (h : ∀ b ∈ bs, b.toNat ≠ c.toNat) : c ∉ (scan q bs).1 := by
  induction bs generalizing q with
  | nil => simp
  | cons b bs ih =>
      rw [List.forall_mem_cons] at h
      rw [scan, List.mem_append, not_or]
      exact ⟨hc.notMem_feed q h.1, ih _ h.2⟩

/-- **An ASCII character of the text is a byte of the chunk**: no other byte
yields it, whatever the bytes around it are. -/
theorem Ascii.notMem_decode {c : Char} (hc : Ascii c) {bs : Bytes}
    (h : ∀ b ∈ bs, b.toNat ≠ c.toNat) : c ∉ decode bs := by
  have hflush : ∀ q, c ∉ flush q := by
    rintro (_ | p)
    · simp
    · simpa [flush] using hc.ne_replacement
  rw [decode, List.mem_append, not_or]
  exact ⟨hc.notMem_scan none h, hflush _⟩

/-- Bytes without a newline are text without one. -/
theorem newline_notMem_decode {bs : Bytes} (h : newline ∉ bs) : '\n' ∉ decode bs :=
  Ascii.notMem_decode (by decide) fun b hb heq =>
    h ((UInt8.toNat.inj heq : b = newline) ▸ hb)

/-! ## Lines over several chunks -/

/-- The text that a receiver collects when it decodes each chunk on its own. It is the text of all
the bytes when no chunk ends within a character. -/
def decodeAll (chunks : List Bytes) : Text := chunks.flatMap decode

theorem decodeAll_concat (chunks : List Bytes) (chunk : Bytes) :
    decodeAll (chunks ++ [chunk]) = decodeAll chunks ++ decode chunk := by
  simp [decodeAll]

theorem Ascii.notMem_decodeAll {c : Char} (hc : Ascii c) {chunks : List Bytes}
    (h : ∀ b ∈ chunks.flatten, b.toNat ≠ c.toNat) : c ∉ decodeAll chunks := by
  intro hmem
  obtain ⟨chunk, hchunk, hin⟩ := List.mem_flatMap.mp hmem
  exact hc.notMem_decode (fun b hb => h b (List.mem_flatten_of_mem hchunk hb)) hin

theorem newline_notMem_decodeAll {chunks : List Bytes} (h : newline ∉ chunks.flatten) :
    '\n' ∉ decodeAll chunks :=
  Ascii.notMem_decodeAll (by decide) fun b hb heq =>
    h ((UInt8.toNat.inj heq : b = newline) ▸ hb)

/-- Chunks that hold a newline, taken apart at the first one. -/
theorem exists_first_newline {chunks : List Bytes} (h : newline ∈ chunks.flatten) :
    ∃ before a b after, chunks = before ++ (a ++ newline :: b) :: after ∧
      newline ∉ (before ++ [a]).flatten := by
  induction chunks with
  | nil => simp at h
  | cons chunk chunks ih =>
      by_cases hc : newline ∈ chunk
      · obtain ⟨a, b, rfl, ha⟩ := List.eq_append_cons_of_mem hc
        exact ⟨[], a, b, chunks, rfl, by simpa using ha⟩
      · have hrest : newline ∈ chunks.flatten := by simpa [hc] using h
        obtain ⟨before, a, b, after, rfl, hno⟩ := ih hrest
        exact ⟨chunk :: before, a, b, after, rfl, by simpa [hc] using hno⟩

/-- Induction over the newlines of a list of chunks. -/
theorem chunks_induction {P : List Bytes → Prop}
    (unfinished : ∀ chunks, newline ∉ chunks.flatten → P chunks)
    (line : ∀ before a b after, newline ∉ (before ++ [a]).flatten → P (b :: after) →
      P (before ++ (a ++ newline :: b) :: after))
    (chunks : List Bytes) : P chunks := by
  induction hn : chunks.flatten.length using Nat.strong_induction_on generalizing chunks with
  | _ n ih =>
      by_cases h : newline ∈ chunks.flatten
      · obtain ⟨before, a, b, after, rfl, hno⟩ := exists_first_newline h
        refine line before a b after hno (ih _ ?_ _ rfl)
        simp only [List.flatten_append, List.flatten_cons, List.length_append,
          List.length_cons] at hn ⊢
        omega
      · exact unfinished chunks h

/-- The text of chunks, taken apart at their first newline. -/
theorem decodeAll_first_newline (before : List Bytes) (a b : Bytes) (after : List Bytes) :
    decodeAll (before ++ (a ++ newline :: b) :: after) =
      decodeAll (before ++ [a]) ++ '\n' :: decodeAll (b :: after) := by
  simp [decodeAll, decode_newline]

/-- **A line of the text is a piece of the bytes**: the chunks hold, one after
the other, the bytes that the line was decoded from and a newline. -/
theorem exists_pieces_of_line {chunks : List Bytes} {l : Text}
    (h : l ∈ completeLines (decodeAll chunks)) :
    ∃ pieces : List Bytes, l = decodeAll pieces ∧
      pieces.flatten ++ [newline] <:+: chunks.flatten := by
  induction chunks using chunks_induction with
  | unfinished chunks hno =>
      rw [completeLines_of_notMem (newline_notMem_decodeAll hno)] at h
      simp at h
  | line before a b after hno ih =>
      have hbytes : (before ++ (a ++ newline :: b) :: after).flatten =
          (before ++ [a]).flatten ++ ([newline] ++ (b :: after).flatten) := by simp
      rw [decodeAll_first_newline, completeLines_line (newline_notMem_decodeAll hno)] at h
      rw [hbytes]
      rcases List.mem_cons.mp h with rfl | h
      · exact ⟨_, rfl, [], (b :: after).flatten, by simp⟩
      · obtain ⟨pieces, rfl, hpieces⟩ := ih h
        refine ⟨pieces, rfl, hpieces.trans ?_⟩
        exact (List.suffix_append _ _).isInfix.trans (List.suffix_append _ _).isInfix

/-- **The open tail of the text is the end of the bytes.** -/
theorem exists_pieces_of_tail (chunks : List Bytes) :
    ∃ pieces : List Bytes, openTail (decodeAll chunks) = decodeAll pieces ∧
      pieces.flatten <:+ chunks.flatten := by
  induction chunks using chunks_induction with
  | unfinished chunks hno =>
      have hnone := completeLines_of_notMem (newline_notMem_decodeAll hno)
      exact ⟨chunks, openTail_of_completeLines_nil hnone, List.suffix_rfl⟩
  | line before a b after hno ih =>
      obtain ⟨pieces, htail, hsuffix⟩ := ih
      refine ⟨pieces, ?_, hsuffix.trans ⟨(before ++ [a]).flatten ++ [newline], by simp⟩⟩
      rw [decodeAll_first_newline, openTail_line (newline_notMem_decodeAll hno), htail]

/-! ## Encoding -/

/-- The bytes of a text. -/
def encode (t : Text) : Bytes := t.flatMap String.utf8EncodeChar

theorem feed_of_lead {b : UInt8} {p : Partial} (hb : 0x80 ≤ b.toNat) (h : lead b.toNat = some p) :
    feed none b = ([], some p) := by
  simp [feed, start, h, Nat.not_lt.mpr hb]

/-- The last byte of a character. -/
theorem feed_last {p : Partial} {b : UInt8} (hmore : p.more = 0) (hlow : p.low ≤ b.toNat)
    (hhigh : b.toNat ≤ p.high) : feed (some p) b = ([Char.ofNat (p.extend b.toNat)], none) := by
  simp only [feed, hlow, hhigh, and_self, dif_pos, Partial.next]
  split
  · rfl
  · next hm => exact absurd (hm.symm.trans hmore) (by simp)

/-- A byte that is not the last one of its character. -/
theorem feed_more {p : Partial} {b : UInt8} {k : ℕ} (hmore : p.more = k + 1)
    (hlow : p.low ≤ b.toNat) (hhigh : b.toNat ≤ p.high) :
    ∃ q : Partial, feed (some p) b = ([], some q) ∧ q.bits = p.extend b.toNat ∧ q.more = k ∧
      q.low = 0x80 ∧ q.high = 0xBF := by
  simp only [feed, hlow, hhigh, and_self, dif_pos, Partial.next]
  split
  · next hm => exact absurd (hm.symm.trans hmore) (by simp)
  · next j hm =>
      obtain rfl : j = k := Nat.succ.inj (hm.symm.trans hmore)
      exact ⟨_, rfl, rfl, rfl, rfl, rfl⟩

theorem lead_two {b : ℕ} (h : 0xC2 ≤ b ∧ b ≤ 0xDF) :
    ∃ p : Partial, lead b = some p ∧ p.bits = b - 0xC0 ∧ p.more = 0 ∧ p.low = 0x80 ∧
      p.high = 0xBF := by
  rw [lead, dif_pos h]
  exact ⟨_, rfl, rfl, rfl, rfl, rfl⟩

/-- Three-byte characters: the second byte excludes the overlong ones after
`E0` and the surrogates after `ED`. -/
theorem lead_three {b : ℕ} (h : 0xE0 ≤ b ∧ b ≤ 0xEF) :
    ∃ p : Partial, lead b = some p ∧ p.bits = b - 0xE0 ∧ p.more = 1 ∧
      p.low = (if b = 0xE0 then 0xA0 else 0x80) ∧ p.high = (if b = 0xED then 0x9F else 0xBF) := by
  rw [lead, dif_neg (by omega)]
  by_cases h0 : b = 0xE0
  · subst h0
    exact ⟨_, rfl, rfl, rfl, rfl, rfl⟩
  · by_cases hD : b = 0xED
    · subst hD
      exact ⟨_, rfl, rfl, rfl, rfl, rfl⟩
    · rw [if_neg h0, if_neg hD, dif_pos (by omega), if_neg h0, if_neg hD]
      exact ⟨_, rfl, rfl, rfl, rfl, rfl⟩

/-- Four-byte characters: the second byte excludes the overlong ones after `F0`
and what is beyond Unicode after `F4`. -/
theorem lead_four {b : ℕ} (h : 0xF0 ≤ b ∧ b ≤ 0xF4) :
    ∃ p : Partial, lead b = some p ∧ p.bits = b - 0xF0 ∧ p.more = 2 ∧
      p.low = (if b = 0xF0 then 0x90 else 0x80) ∧ p.high = (if b = 0xF4 then 0x8F else 0xBF) := by
  rw [lead, dif_neg (by omega), if_neg (by omega), if_neg (by omega), dif_neg (by omega)]
  by_cases h0 : b = 0xF0
  · subst h0
    exact ⟨_, rfl, rfl, rfl, rfl, rfl⟩
  · by_cases h4 : b = 0xF4
    · subst h4
      exact ⟨_, rfl, rfl, rfl, rfl, rfl⟩
    · rw [if_neg h0, dif_pos (by omega), if_neg h0, if_neg h4]
      exact ⟨_, rfl, rfl, rfl, rfl, rfl⟩

theorem toNat_ofNat_byte {n : ℕ} (h : n < 256) : (UInt8.ofNat n).toNat = n := by
  simpa using h

/-- A character is valid: no surrogate and not beyond Unicode. -/
theorem char_bounds (c : Char) : c.toNat < 0xD800 ∨ (0xDFFF < c.toNat ∧ c.toNat < 0x110000) :=
  c.valid

/-- A continuation byte. -/
theorem toNat_tail (n : ℕ) : (UInt8.ofNat (n % 0x40 + 0x80)).toNat = n % 0x40 + 0x80 :=
  toNat_ofNat_byte (by omega)

theorem Partial.extend_tail (p : Partial) (n : ℕ) :
    p.extend (n % 0x40 + 0x80) = p.bits * 64 + n % 0x40 := by
  unfold Partial.extend
  omega

/-- A continuation byte in the middle of a character. -/
theorem feed_more_tail {p : Partial} {n k : ℕ} (hmore : p.more = k + 1)
    (hlow : p.low ≤ n % 0x40 + 0x80) (hhigh : n % 0x40 + 0x80 ≤ p.high) :
    ∃ q : Partial, feed (some p) (UInt8.ofNat (n % 0x40 + 0x80)) = ([], some q) ∧
      q.bits = p.bits * 64 + n % 0x40 ∧ q.more = k ∧ q.low = 0x80 ∧ q.high = 0xBF := by
  rw [← toNat_tail] at hlow hhigh
  obtain ⟨q, hfeed, hbits, hrest⟩ := feed_more hmore hlow hhigh
  rw [toNat_tail, Partial.extend_tail] at hbits
  exact ⟨q, hfeed, hbits, hrest⟩

/-- A continuation byte that completes a character. -/
theorem feed_last_tail {p : Partial} {n : ℕ} {c : Char} (hmore : p.more = 0)
    (hlow : p.low ≤ n % 0x40 + 0x80) (hhigh : n % 0x40 + 0x80 ≤ p.high)
    (hc : p.bits * 64 + n % 0x40 = c.toNat) :
    feed (some p) (UInt8.ofNat (n % 0x40 + 0x80)) = ([c], none) := by
  rw [← toNat_tail] at hlow hhigh
  rw [feed_last hmore hlow hhigh, toNat_tail, Partial.extend_tail, hc, Char.ofNat_toNat]

theorem feed_ascii {b : ℕ} (h : b < 0x80) :
    feed none (UInt8.ofNat b) = ([Char.ofNat b], none) := by
  have hnat : (UInt8.ofNat b).toNat = b := toNat_ofNat_byte (by omega)
  rw [feed, start, hnat, if_pos h]

/-- The first byte of a character of several bytes. -/
theorem feed_lead {b : ℕ} {p : Partial} (hb : 0x80 ≤ b ∧ b < 256) (h : lead b = some p) :
    feed none (UInt8.ofNat b) = ([], some p) := by
  have hnat := toNat_ofNat_byte hb.2
  exact feed_of_lead (hnat.symm ▸ hb.1) (hnat.symm ▸ h)

/-- **The machine reads back the bytes of a character.** -/
theorem scan_encodeChar (c : Char) : scan none (String.utf8EncodeChar c) = ([c], none) := by
  have hbounds := char_bounds c
  have hval : c.val.toNat = c.toNat := rfl
  simp only [String.utf8EncodeChar, hval]
  generalize hv : c.toNat = v at *
  -- one byte, or a lead byte and one to three bytes after it
  by_cases h1 : v ≤ 0x7F
  · rw [if_pos h1]
    have hfirst : feed none (UInt8.ofNat v) = ([c], none) := by
      rw [feed_ascii (by omega), ← hv, Char.ofNat_toNat]
    simp only [scan, hfirst, List.append_nil]
  rw [if_neg h1]
  by_cases h2 : v ≤ 0x7FF
  · rw [if_pos h2]
    obtain ⟨p, hlead, hbits, hmore, hlow, hhigh⟩ := lead_two (b := v / 64 % 0x20 + 0xC0) (by omega)
    have hfirst := feed_lead (by omega) hlead
    have hlast := feed_last_tail (n := v) (c := c) hmore (by omega) (by omega) (by omega)
    simp only [scan, hfirst, hlast, List.nil_append, List.append_nil]
  rw [if_neg h2]
  by_cases h3 : v ≤ 0xFFFF
  · rw [if_pos h3]
    obtain ⟨p, hlead, hbits, hmore, hlow, hhigh⟩ :=
      lead_three (b := v / 4096 % 0x10 + 0xE0) (by omega)
    have hfirst := feed_lead (by omega) hlead
    obtain ⟨q, hmid, hbits', hmore', hlow', hhigh'⟩ := feed_more_tail (n := v / 64) hmore
      (by split at hlow <;> omega) (by split at hhigh <;> omega)
    have hlast := feed_last_tail (n := v) (c := c) hmore' (by omega) (by omega) (by omega)
    simp only [scan, hfirst, hmid, hlast, List.nil_append, List.append_nil]
  · rw [if_neg h3]
    obtain ⟨p, hlead, hbits, hmore, hlow, hhigh⟩ :=
      lead_four (b := v / 262144 % 0x08 + 0xF0) (by omega)
    have hfirst := feed_lead (by omega) hlead
    obtain ⟨q, hmid, hbits', hmore', hlow', hhigh'⟩ := feed_more_tail (n := v / 4096) hmore
      (by split at hlow <;> omega) (by split at hhigh <;> omega)
    obtain ⟨r, hmid', hbits'', hmore'', hlow'', hhigh''⟩ := feed_more_tail (n := v / 64) hmore'
      (by omega) (by omega)
    have hlast := feed_last_tail (n := v) (c := c) hmore'' (by omega) (by omega) (by omega)
    simp only [scan, hfirst, hmid, hmid', hlast, List.nil_append, List.append_nil]

theorem scan_encode (t : Text) : scan none (encode t) = (t, none) := by
  induction t with
  | nil => rfl
  | cons c t ih =>
      have hcons : encode (c :: t) = String.utf8EncodeChar c ++ encode t := rfl
      rw [hcons, scan_append, scan_encodeChar, ih]
      rfl

/-- **A text survives the wire.** -/
theorem decode_encode (t : Text) : decode (encode t) = t := by
  simp [decode, scan_encode]

/-- The bytes of a text end between characters. -/
theorem whole_encode (t : Text) : Whole (encode t) := by
  rw [Whole, scan_encode]

theorem encode_append (s t : Text) : encode (s ++ t) = encode s ++ encode t := by
  simp [encode]

theorem encode_newline : encode ['\n'] = [newline] := rfl

end Utf8

end Wire
