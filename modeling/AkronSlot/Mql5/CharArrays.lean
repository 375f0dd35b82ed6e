import AkronSlot.Wire.LinePieces

/-!
# Character arrays

`StringToCharArray(text, array, start, count, codepage)` turns a text into bytes.  The
event socket gives it all five arguments; the command server gives it
`(response, resp, 0, CP_UTF8)`, so that the number of the code page, 65001, becomes the
count, and the code page is what it is by default, the ANSI code page of the system.

## What is sent

`send` is then called with the array and with `StringLen(response)`, a number of UTF-16
units.  Three things are bounded by different numbers here: the bytes of the text in the
ANSI code page, the elements that are copied, and the bytes that are sent.  Where the array
is the shorter one, `send` reads on in the memory behind it, of which nothing is known.

An ASCII response of no more than 65001 characters is sent as it is (`sentBytes_ascii`); of
a longer one the newline is cut off (`newline_notMem_sentBytes`).
For any other character no code page helps, because the count is too small for it in UTF-8
and the receiver decodes UTF-8 (`ascii_of_sentBytes`).

## Main Definitions

* `CodePage` — an ANSI code page
* `stringToCharArray`, `sentBytes`

## Main Results

* `sentBytes_ascii`, `newline_notMem_sentBytes`, `ascii_of_sentBytes`
-/

namespace AkronSlot.Mql5

open Wire Wire.Utf8

/-! ## ASCII texts -/

/-- A text of ASCII characters. -/
def AllAscii (t : Text) : Prop := ∀ c ∈ t, c.toNat < 0x80

theorem allAscii_of_all {t : Text} (h : t.all (·.toNat < 0x80) = true) : AllAscii t := by
  simp only [List.all_eq_true, decide_eq_true_eq] at h
  exact h

theorem allAscii_line (json : Text) : AllAscii (json ++ ['\n']) ↔ AllAscii json := by
  rw [AllAscii, List.forall_mem_append]
  exact and_iff_left (by simp)

/-- A character has as many bytes as UTF-16 units exactly if it is ASCII. -/
theorem length_encodeChar (c : Char) :
    (if c.toNat < 0x10000 then 1 else 2) ≤ (String.utf8EncodeChar c).length ∧
      ((String.utf8EncodeChar c).length = (if c.toNat < 0x10000 then 1 else 2) ↔
        c.toNat < 0x80) := by
  have hval : c.val.toNat = c.toNat := rfl
  simp only [String.utf8EncodeChar, hval]
  split_ifs <;> simp <;> omega

/-- A text has as many bytes as UTF-16 units exactly if it is ASCII. -/
theorem length_encode (t : Text) :
    utf16Length t ≤ (encode t).length ∧ ((encode t).length = utf16Length t ↔ AllAscii t) := by
  induction t with
  | nil => simp [utf16Length, encode, AllAscii]
  | cons c t ih =>
      obtain ⟨hle, hiff⟩ := length_encodeChar c
      have hbytes : (encode (c :: t)).length =
          (String.utf8EncodeChar c).length + (encode t).length := by simp [encode]
      have hunits : utf16Length (c :: t) =
          (if c.toNat < 0x10000 then 1 else 2) + utf16Length t := by simp [utf16Length]
      have hall : AllAscii (c :: t) ↔ c.toNat < 0x80 ∧ AllAscii t := List.forall_mem_cons
      obtain ⟨hle', hiff'⟩ := ih
      rw [hbytes, hunits, hall, ← hiff, ← hiff']
      generalize (if c.toNat < 0x10000 then 1 else 2) = units at hle ⊢
      exact ⟨by omega, by omega⟩

/-! ## `StringToCharArray` -/

/-- An ANSI code page, `CP_ACP` of a system: the bytes of a text in it.  They differ in all
but the ASCII characters, which are one byte each and the same one everywhere. -/
structure CodePage where
  bytes : Text → Bytes
  ascii : ∀ t, AllAscii t → bytes t = encode t

/-- A code page of ASCII characters only; any other one becomes a question mark. -/
def asciiPage : CodePage where
  bytes t := t.flatMap fun c => if c.toNat < 0x80 then String.utf8EncodeChar c else [63]
  ascii t h := by
    refine List.flatMap_congr fun c hc => ?_
    rw [if_pos (h c hc)]

/-- `StringToCharArray(text, array, 0, count)`: at most `count` elements are copied, the
terminal zero among them if there is room. -/
def stringToCharArray (acp : CodePage) (text : Text) (count : ℕ) : Bytes :=
  (acp.bytes text ++ [0]).take count

/-- `CP_UTF8`. It is a number, so that it can stand where a count is expected. -/
def cpUtf8 : ℕ := 65001

/-- The bytes that `send` is called with for a response: as many as `StringLen` counts, from the
array on and into what lies `behind` it in memory. The number is one of UTF-16 units, although the
array holds bytes; for ASCII the two are the same, and the terminal zero is then not sent. -/
def sentBytes (acp : CodePage) (behind : ℕ → UInt8) (response : Text) : Bytes :=
  (stringToCharArray acp response cpUtf8 ++ (List.range (utf16Length response)).map behind).take
    (utf16Length response)

section Sent

variable (acp : CodePage) (behind : ℕ → UInt8) {response : Text}

theorem utf16Length_line (t : Text) : utf16Length (t ++ ['\n']) = utf16Length t + 1 :=
  utf16Length_append _ _

theorem length_sentBytes (response : Text) :
    (sentBytes acp behind response).length = utf16Length response := by
  rw [sentBytes, List.length_take, List.length_append, List.length_map, List.length_range]
  omega

/-- **A short ASCII response is sent as it is.** -/
theorem sentBytes_ascii (hascii : AllAscii response) (hshort : utf16Length response ≤ cpUtf8) :
    sentBytes acp behind response = encode response := by
  have hlength : (encode response).length = utf16Length response :=
    (length_encode response).2.mpr hascii
  have hroom : utf16Length response ≤ (stringToCharArray acp response cpUtf8).length := by
    rw [stringToCharArray, acp.ascii response hascii, List.length_take, List.length_append,
      hlength]
    omega
  rw [sentBytes, List.take_append_of_le_length hroom, stringToCharArray,
    acp.ascii response hascii, List.take_take, min_eq_left hshort, ← hlength, List.take_left]

/-- The same of a line, which is one character longer than its text. -/
theorem sentBytes_line {frame : Text} (hascii : AllAscii frame)
    (hshort : utf16Length frame < cpUtf8) :
    sentBytes acp behind (frame ++ ['\n']) = encode (frame ++ ['\n']) := by
  refine sentBytes_ascii acp behind ((allAscii_line frame).mpr hascii) ?_
  rw [utf16Length_line]
  exact hshort

/-- **What is too long loses its newline** in the array, unless the memory behind it happens
to have one. -/
theorem newline_notMem_sentBytes {bytes : Bytes} (hline : acp.bytes response = bytes ++ [newline])
    (hopen : newline ∉ bytes) (hlong : cpUtf8 ≤ bytes.length)
    (hbehind : ∀ n, behind n ≠ newline) : newline ∉ sentBytes acp behind response := by
  have harray : stringToCharArray acp response cpUtf8 = bytes.take cpUtf8 := by
    rw [stringToCharArray, hline, List.append_assoc, List.take_append_of_le_length hlong]
  intro hmem
  rw [sentBytes, harray] at hmem
  rcases List.mem_append.mp (List.mem_of_mem_take hmem) with harr | hmemory
  · exact hopen (List.mem_of_mem_take harr)
  · obtain ⟨n, -, hn⟩ := List.mem_map.mp hmemory
    exact hbehind n hn

/-- A long ASCII line loses it under every code page. -/
theorem newline_notMem_sentBytes_ascii {frame : Text} (hascii : AllAscii frame)
    (hopen : '\n' ∉ frame) (hlong : cpUtf8 ≤ utf16Length frame)
    (hbehind : ∀ n, behind n ≠ newline) :
    newline ∉ sentBytes acp behind (frame ++ ['\n']) := by
  have hline : acp.bytes (frame ++ ['\n']) = encode frame ++ [newline] := by
    rw [acp.ascii _ ((allAscii_line frame).mpr hascii), encode_append, encode_newline]
  have hlength : (encode frame).length = utf16Length frame := (length_encode frame).2.mpr hascii
  exact newline_notMem_sentBytes acp behind hline (newline_notMem_encode hopen)
    (hlength.symm ▸ hlong) hbehind

/-- **Only ASCII characters and U+FFFD can be read from what is sent** when that is read as
the response and nothing else, in whatever chunks it comes. -/
theorem ascii_of_sentBytes {chunks : List Bytes}
    (hbytes : chunks.flatten = sentBytes acp behind response) {rest : Text}
    (htext : decodeAll chunks = response ++ rest) :
    ∀ c ∈ response, c.toNat < 0x80 ∨ c = replacement := by
  have hcost := textCost_decodeAll_le chunks
  rw [htext, textCost_append, hbytes, length_sentBytes] at hcost
  exact ascii_of_textCost_le (by omega)

end Sent

/-! ## The ASCII code page -/

theorem length_le_asciiPage (t : Text) : t.length ≤ (asciiPage.bytes t).length := by
  induction t with
  | nil => exact le_rfl
  | cons c t ih =>
      have hchar : 1 ≤ (if c.toNat < 0x80 then String.utf8EncodeChar c else [63]).length := by
        split
        · exact (length_encodeChar c).1.trans' (by split <;> omega)
        · exact le_rfl
      have hcons : asciiPage.bytes (c :: t) =
          (if c.toNat < 0x80 then String.utf8EncodeChar c else [63]) ++ asciiPage.bytes t := rfl
      rw [hcons, List.length_append, List.length_cons]
      omega

theorem newline_notMem_asciiPage {t : Text} (h : '\n' ∉ t) : newline ∉ asciiPage.bytes t := by
  intro hmem
  obtain ⟨c, hc, hbyte⟩ := List.mem_flatMap.mp hmem
  split at hbyte
  · have hother : '\n' ∉ [c] := fun heq => h (List.mem_singleton.mp heq ▸ hc)
    exact newline_notMem_encode hother (by simpa [encode] using hbyte)
  · exact absurd hbyte (by decide)

theorem asciiPage_line (frame : Text) :
    asciiPage.bytes (frame ++ ['\n']) = asciiPage.bytes frame ++ [newline] := by
  show List.flatMap _ (frame ++ ['\n']) = _
  rw [List.flatMap_append]
  rfl

end AkronSlot.Mql5
