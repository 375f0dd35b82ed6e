import AkronSlot.Slot.TcpServer
import AkronSlot.Wire.LinePieces
import AkronSlot.Wire.Skeleton

/-!
# What the chunks make of the lines (`mt5-tcp-server.ts`)

`onData` decodes each chunk on its own and checks the length of the buffer after
each chunk.  So a line reaches `JSON.parse` as its pieces, decoded one by one and
joined, unless they get too long on the way: then what came before is dropped and
the rest of the line is a frame of its own.

## Lines and pieces

There are two ways to cut the stream of a connection. The sender means the lines; the network
delivers chunks. `linePieces` refines both: it lists for each line the pieces in which it came.
What `onData` makes of a line is a function of its pieces alone (`frameOf`), which is the reason
why a statement about every chunking can be an induction over the lines.

## Two defects, two conditions

`chunk.toString('utf8')` puts a replacement character where a character is cut, and the buffer
is dropped whole when it is too long, in the middle of a line. The first is the subject of
`Framed` and `Intact`, for texts whose lines are short enough; the second that of `Resynced`,
for every stream of bytes.

## Main Definitions

* `Mt5TcpServer.receive`, `Mt5TcpServer.frames` — a run of `onData` and the texts it
  passes to `JSON.parse`
* `frameOf` — what becomes of a line in pieces

## Main Results

* `framed_iff_intact`, `resynced_iff`
-/

namespace AkronSlot.Slot

open Wire

/-! ## A line in pieces -/

/-- The receive buffer after a further piece of the open line: the piece is decoded on its own,
and what is too long then is dropped whole. -/
def carry (buf : Text) (piece : Bytes) : Text :=
  if recvBufMax < utf16Length (buf ++ Utf8.decode piece) then []
  else buf ++ Utf8.decode piece

/-- The text of a line that arrives in pieces. -/
def frameOf (pieces : List Bytes) : Text :=
  pieces.dropLast.foldl carry [] ++ Utf8.decode (pieces.getLastD [])

theorem frameOf_concat (pieces : List Bytes) (l : Bytes) :
    frameOf (pieces ++ [l]) = pieces.foldl carry [] ++ Utf8.decode l := by
  simp [frameOf]

theorem newline_notMem_carry {buf : Text} {piece : Bytes} (hbuf : '\n' ∉ buf)
    (hpiece : Utf8.newline ∉ piece) : '\n' ∉ carry buf piece := by
  unfold carry
  split
  · simp
  · simp [hbuf, Utf8.newline_notMem_decode hpiece]

theorem newline_notMem_foldl_carry {pieces : List Bytes} {buf : Text} (hbuf : '\n' ∉ buf)
    (h : Utf8.newline ∉ pieces.flatten) : '\n' ∉ pieces.foldl carry buf := by
  induction pieces generalizing buf with
  | nil => exact hbuf
  | cons piece pieces ih =>
      rw [List.flatten_cons, List.mem_append, not_or] at h
      exact ih (newline_notMem_carry hbuf h.1) h.2

/-! ## Runs -/

namespace Mt5TcpServer

/-- A connection delivers chunks. -/
def receive (s : Mt5TcpServer) (c : ℕ) (chunks : List Bytes) : Mt5TcpServer :=
  chunks.foldl (fun s chunk => s.onData c chunk) s

/-- The texts that `onData` passes to `JSON.parse`. -/
def frames (s : Mt5TcpServer) (c : ℕ) : List Bytes → List Text
  | [] => []
  | chunk :: chunks => completeLines (s.buffered chunk) ++ (s.onData c chunk).frames c chunks

theorem receive_cons (s : Mt5TcpServer) (c : ℕ) (chunk : Bytes) (chunks : List Bytes) :
    s.receive c (chunk :: chunks) = (s.onData c chunk).receive c chunks := rfl

theorem receive_dispatched (s : Mt5TcpServer) (c : ℕ) (chunks : List Bytes) :
    (s.receive c chunks).dispatched = s.dispatched ++ parsed c (s.frames c chunks) := by
  induction chunks generalizing s with
  | nil => simp [receive, frames, parsed]
  | cons chunk chunks ih =>
      rw [receive_cons, ih, onData_dispatched, frames, List.append_assoc]
      simp only [parsed, List.filterMap_append]

/-- **The lines of a chunk, and what it leaves in the buffer**, when the buffer holds
what came of the open line. -/
theorem onData_pieces {s : Mt5TcpServer} {pieces : List Bytes}
    (hbuf : s.recvBuf = pieces.foldl carry []) (hno : Utf8.newline ∉ pieces.flatten) (c : ℕ)
    (chunk : Bytes) :
    completeLines (s.buffered chunk) =
        (Utf8.piecesOfLines pieces (Utf8.byteLines chunk)).map frameOf ∧
      (s.onData c chunk).recvBuf = (Utf8.piecesAfter pieces chunk).foldl carry [] := by
  have hopen : '\n' ∉ s.recvBuf := hbuf ▸ newline_notMem_foldl_carry (by simp) hno
  constructor
  · rw [buffered, completeLines_extend hopen, Utf8.completeLines_decode, hbuf]
    cases Utf8.byteLines chunk with
    | nil => rfl
    | cons l ls =>
        simp only [Utf8.piecesOfLines, List.map_cons, extendFirst, frameOf_concat, List.map_map]
        rfl
  · have htail : openTail (s.buffered chunk) = if Utf8.newline ∈ chunk
        then Utf8.decode (Utf8.openBytes chunk)
        else s.recvBuf ++ Utf8.decode chunk := by
      split
      · next h =>
          obtain ⟨a, b, rfl, ha⟩ := List.eq_append_cons_of_mem h
          have hfirst : '\n' ∉ s.recvBuf ++ Utf8.decode a := by
            simp [hopen, Utf8.newline_notMem_decode ha]
          rw [buffered, Utf8.decode_newline, ← List.append_assoc, openTail_line hfirst,
            Utf8.openTail_decode, Utf8.openBytes_newline]
      · next h =>
          refine openTail_of_completeLines_nil (completeLines_of_notMem ?_)
          simp [buffered, hopen, Utf8.newline_notMem_decode h]
    rw [onData_recvBuf, htail, Utf8.piecesAfter]
    split
    · simp only [List.foldl_cons, List.foldl_nil, carry, List.nil_append]
    · rw [List.foldl_concat, ← hbuf, carry]

/-- A run, from the pieces of the open line on. -/
theorem receive_pieces {s : Mt5TcpServer} {pieces : List Bytes}
    (hbuf : s.recvBuf = pieces.foldl carry []) (hno : Utf8.newline ∉ pieces.flatten) (c : ℕ)
    (chunks : List Bytes) :
    s.frames c chunks = (Utf8.linePiecesFrom pieces chunks).map frameOf ∧
      (s.receive c chunks).recvBuf =
        (chunks.foldl Utf8.piecesAfter pieces).foldl carry [] := by
  induction chunks generalizing s pieces with
  | nil => exact ⟨rfl, hbuf⟩
  | cons chunk chunks ih =>
      obtain ⟨hlines, hafter⟩ := onData_pieces hbuf hno c chunk
      obtain ⟨hframes, hrest⟩ := ih hafter (Utf8.newline_notMem_piecesAfter hno chunk)
      refine ⟨?_, hrest⟩
      rw [frames, hlines, hframes, Utf8.linePiecesFrom, List.map_append]

/-- **The frames of a run** are the lines of the stream, as their pieces made them. -/
theorem frames_eq {s : Mt5TcpServer} (hbuf : s.recvBuf = []) (c : ℕ) (chunks : List Bytes) :
    s.frames c chunks = (Utf8.linePieces chunks).map frameOf :=
  (@receive_pieces s [] hbuf (by simp) c chunks).1

theorem receive_recvBuf {s : Mt5TcpServer} (hbuf : s.recvBuf = []) (c : ℕ) (chunks : List Bytes) :
    (s.receive c chunks).recvBuf = (Utf8.openPieces chunks).foldl carry [] :=
  (@receive_pieces s [] hbuf (by simp) c chunks).2

theorem parsed_values (c : ℕ) (lines : List Text) :
    (parsed c lines).map (·.value) = lines.filterMap Json.parse := by
  simp only [parsed, List.map_filterMap, Option.map_map]
  refine List.filterMap_congr fun l _ => ?_
  cases Json.parse l <;> rfl

end Mt5TcpServer

/-! ## Pieces that the buffer can hold -/

/-- No start of the pieces is longer than the buffer may be. -/
def Held (pieces : List Bytes) : Prop :=
  ∀ begun, begun <+: pieces → utf16Length (Utf8.decodeAll begun) ≤ recvBufMax

theorem held_concat {pieces : List Bytes} {piece : Bytes} :
    Held (pieces ++ [piece]) ↔
      Held pieces ∧ utf16Length (Utf8.decodeAll (pieces ++ [piece])) ≤ recvBufMax := by
  constructor
  · exact fun h => ⟨fun begun hbegun => h begun (hbegun.trans (List.prefix_append _ _)),
      h _ List.prefix_rfl⟩
  · rintro ⟨h, hwhole⟩ begun hbegun
    rcases List.prefix_concat_iff.mp hbegun with rfl | hbegun
    · exact hwhole
    · exact h begun hbegun

theorem held_of_length {pieces : List Bytes}
    (h : utf16Length (Utf8.decodeAll pieces) ≤ recvBufMax) : Held pieces := by
  rintro begun ⟨after, rfl⟩
  rw [Utf8.decodeAll, List.flatMap_append, utf16Length_append] at h
  exact (Nat.le_add_right _ _).trans h

theorem held_nil : Held [] := held_of_length (Nat.zero_le _)

/-- Pieces that the buffer can hold are joined in it. -/
theorem foldl_carry_of_held {pieces : List Bytes} (h : Held pieces) :
    pieces.foldl carry [] = Utf8.decodeAll pieces := by
  induction pieces using List.reverseRecOn with
  | nil => rfl
  | append_singleton pieces piece ih =>
      obtain ⟨hpieces, hlength⟩ := held_concat.mp h
      rw [Utf8.decodeAll_concat] at hlength
      rw [List.foldl_concat, ih hpieces, carry, if_neg (by omega), Utf8.decodeAll_concat]

theorem frameOf_of_held {pieces : List Bytes} (h : Held pieces.dropLast) :
    frameOf pieces = Utf8.decodeAll pieces := by
  cases pieces using List.reverseRecOn with
  | nil => rfl
  | append_singleton pieces piece =>
      rw [List.dropLast_concat] at h
      rw [frameOf_concat, foldl_carry_of_held h, Utf8.decodeAll_concat]

/-- The buffer can hold a text of legal length that is not cut. -/
theorem held_of_uncut {pieces : List Bytes} {t : Text} (hbytes : pieces.flatten = Utf8.encode t)
    (huncut : Utf8.Uncut pieces) (hlength : utf16Length t ≤ recvBufMax) : Held pieces := by
  obtain ⟨texts, rfl, rfl⟩ := Utf8.exists_pieces_of_uncut hbytes huncut
  rintro begun ⟨after, hsplit⟩
  obtain ⟨first, last, rfl, rfl, rfl⟩ := List.map_eq_append_iff.mp hsplit.symm
  rw [List.flatten_append, utf16Length_append] at hlength
  rw [Utf8.decodeAll_map_encode]
  omega

theorem Held.dropLast {pieces : List Bytes} (h : Held pieces) : Held pieces.dropLast :=
  fun begun hbegun => h begun (hbegun.trans (List.dropLast_prefix pieces))

/-! ## The same values for every way of cutting -/

namespace Mt5TcpServer

/-- The bytes of a text, in whatever chunks, give the values of its lines and leave its tail in
the buffer. This is what a stream promises: its cuts carry no meaning. -/
structure Framed (s : Mt5TcpServer) (c : ℕ) (t : Text) (chunks : List Bytes) : Prop where
  values : (s.receive c chunks).dispatched.map (·.value) =
    s.dispatched.map (·.value) ++ (completeLines t).filterMap Json.parse
  whole : (s.receive c chunks).dispatched.map (·.value) =
    (s.receive c [Utf8.encode t]).dispatched.map (·.value)
  tail : (s.receive c chunks).recvBuf = openTail t

/-- No line that is JSON is cut within a character, no other line is dropped on the
way, and the tail is not cut and fits the buffer. -/
structure Intact (chunks : List Bytes) : Prop where
  json : ∀ pieces ∈ Utf8.linePieces chunks,
    (Json.parse (Utf8.decode pieces.flatten)).isSome → Utf8.Uncut pieces
  other : ∀ pieces ∈ Utf8.linePieces chunks,
    Json.parse (Utf8.decode pieces.flatten) = none → Held pieces.dropLast
  tail : Utf8.Uncut (Utf8.openPieces chunks)
  short : utf16Length (Utf8.decode (Utf8.openPieces chunks).flatten) ≤ recvBufMax

/-- Nothing is dropped: no received part of a line gets too long. The last piece of a line does
not count, because the line is taken out before the length is looked at. -/
def NoOverflow (chunks : List Bytes) : Prop :=
  (∀ pieces ∈ Utf8.linePieces chunks, Held pieces.dropLast) ∧ Held (Utf8.openPieces chunks)

section Cuts

variable {s : Mt5TcpServer} {c : ℕ} {t : Text} {chunks : List Bytes}

theorem receive_values (hbuf : s.recvBuf = []) :
    (s.receive c chunks).dispatched.map (·.value) = s.dispatched.map (·.value) ++
      ((Utf8.linePieces chunks).map frameOf).filterMap Json.parse := by
  rw [receive_dispatched, List.map_append, parsed_values, frames_eq hbuf]

theorem receive_whole (hbuf : s.recvBuf = []) :
    (s.receive c [Utf8.encode t]).dispatched.map (·.value) =
      s.dispatched.map (·.value) ++ (completeLines t).filterMap Json.parse := by
  rw [receive_dispatched, List.map_append, parsed_values, frames, frames, List.append_nil,
    buffered, hbuf, List.nil_append, Utf8.decode_encode]

/-- The lines of the text, in the pieces that come in. -/
theorem completeLines_pieces (hbytes : chunks.flatten = Utf8.encode t) :
    completeLines t = (Utf8.linePieces chunks).map fun pieces => Utf8.decode pieces.flatten := by
  have hlines := Utf8.completeLines_decode chunks.flatten
  rw [← Utf8.map_flatten_linePieces, hbytes, Utf8.decode_encode, List.map_map] at hlines
  exact hlines

theorem exists_line_of_pieces (hbytes : chunks.flatten = Utf8.encode t) {pieces : List Bytes}
    (hpieces : pieces ∈ Utf8.linePieces chunks) :
    ∃ l ∈ completeLines t, pieces.flatten = Utf8.encode l := by
  have hmem := List.mem_map_of_mem (f := List.flatten) hpieces
  rw [Utf8.map_flatten_linePieces, hbytes, Utf8.byteLines_encode] at hmem
  obtain ⟨l, hl, heq⟩ := List.mem_map.mp hmem
  exact ⟨l, hl, heq.symm⟩

theorem flatten_openPieces_encode (hbytes : chunks.flatten = Utf8.encode t) :
    (Utf8.openPieces chunks).flatten = Utf8.encode (openTail t) := by
  rw [Utf8.flatten_openPieces, hbytes, Utf8.openBytes_encode]

/-- **Lines that arrive intact are framed.** -/
theorem framed_of_intact (hbuf : s.recvBuf = []) (hbytes : chunks.flatten = Utf8.encode t)
    (hlines : ∀ l ∈ completeLines t, utf16Length l ≤ recvBufMax) (h : Intact chunks) :
    Framed s c t chunks := by
  have hframe : ∀ pieces ∈ Utf8.linePieces chunks,
      Json.parse (frameOf pieces) = Json.parse (Utf8.decode pieces.flatten) := by
    intro pieces hpieces
    cases hparse : Json.parse (Utf8.decode pieces.flatten) with
    | some v =>
        have huncut := h.json pieces hpieces (by simp [hparse])
        obtain ⟨l, hl, hencode⟩ := exists_line_of_pieces hbytes hpieces
        have hheld := held_of_uncut hencode huncut (hlines l hl)
        have hall : Utf8.decodeAll pieces = Utf8.decode pieces.flatten := huncut
        rw [frameOf_of_held hheld.dropLast, hall, hparse]
    | none =>
        rw [frameOf_of_held (h.other pieces hpieces hparse)]
        exact Json.parse_eq_none_of_alike hparse (Utf8.alike_decodeAll pieces).symm
  have hvalues : (s.receive c chunks).dispatched.map (·.value) =
      s.dispatched.map (·.value) ++ (completeLines t).filterMap Json.parse := by
    rw [receive_values hbuf, completeLines_pieces hbytes, List.filterMap_map, List.filterMap_map]
    exact congrArg _ (List.filterMap_congr hframe)
  have htail := flatten_openPieces_encode hbytes
  have hshort := h.short
  rw [htail, Utf8.decode_encode] at hshort
  have hheld := held_of_uncut htail h.tail hshort
  have hall : Utf8.decodeAll (Utf8.openPieces chunks) =
      Utf8.decode (Utf8.openPieces chunks).flatten := h.tail
  refine ⟨hvalues, hvalues.trans (receive_whole hbuf).symm, ?_⟩
  rw [receive_recvBuf hbuf, foldl_carry_of_held hheld, hall, htail, Utf8.decode_encode]

/-- Two readings that fail together and list the same values read the same. -/
theorem eq_of_filterMap_eq {α β : Type} {f g : α → Option β} {as : List α}
    (hnone : ∀ a ∈ as, f a = none ↔ g a = none) (h : as.filterMap f = as.filterMap g) :
    ∀ a ∈ as, f a = g a := by
  induction as with
  | nil => simp
  | cons a as ih =>
      rw [List.forall_mem_cons] at hnone
      cases hf : f a with
      | none =>
          have hg := hnone.1.mp hf
          rw [List.filterMap_cons_none hf, List.filterMap_cons_none hg] at h
          exact List.forall_mem_cons.mpr ⟨hf.trans hg.symm, ih hnone.2 h⟩
      | some b =>
          cases hg : g a with
          | none => simp [hnone.1.mpr hg] at hf
          | some b' =>
              rw [List.filterMap_cons_some hf, List.filterMap_cons_some hg] at h
              obtain ⟨rfl, hrest⟩ := List.cons.inj h
              exact List.forall_mem_cons.mpr ⟨hf.trans hg.symm, ih hnone.2 hrest⟩

/-- **Lines that are framed arrived intact**, if nothing was dropped. -/
theorem intact_of_framed (hbuf : s.recvBuf = []) (hbytes : chunks.flatten = Utf8.encode t)
    (hkept : NoOverflow chunks) (h : Framed s c t chunks) : Intact chunks := by
  obtain ⟨hlines, htail⟩ := hkept
  have hopen := flatten_openPieces_encode hbytes
  have hbuffer := h.tail
  rw [receive_recvBuf hbuf, foldl_carry_of_held htail] at hbuffer
  refine ⟨fun pieces hpieces hsome => ?_, fun pieces hpieces _ => hlines pieces hpieces, ?_, ?_⟩
  · have hvalues := h.values
    rw [receive_values hbuf, completeLines_pieces hbytes, List.filterMap_map,
      List.filterMap_map] at hvalues
    have hfails : ∀ pieces ∈ Utf8.linePieces chunks, Json.parse (frameOf pieces) = none ↔
        Json.parse (Utf8.decode pieces.flatten) = none := by
      intro pieces hpieces
      rw [frameOf_of_held (hlines pieces hpieces)]
      have halike := Utf8.alike_decodeAll pieces
      exact ⟨fun h => Json.parse_eq_none_of_alike h halike,
        fun h => Json.parse_eq_none_of_alike h halike.symm⟩
    have hsame := eq_of_filterMap_eq hfails (List.append_cancel_left hvalues) pieces hpieces
    obtain ⟨v, hv⟩ := Option.isSome_iff_exists.mp hsome
    rw [frameOf_of_held (hlines pieces hpieces), hv] at hsame
    obtain ⟨v', hv', hlength⟩ := Json.parse_alike hv (Utf8.alike_decodeAll pieces).symm
    obtain rfl := Option.some.inj (hsame.symm.trans hv')
    obtain ⟨l, -, hencode⟩ := exists_line_of_pieces hbytes hpieces
    refine Utf8.uncut_of_length hencode ?_
    rw [← hlength rfl, hencode, Utf8.decode_encode]
  · rw [Utf8.Uncut, hbuffer, hopen, Utf8.decode_encode]
  · rw [hopen, Utf8.decode_encode, ← hbuffer]
    exact htail _ List.prefix_rfl

/-- **The values of the lines and the tail come out**, in whatever chunks the text
arrives, if its lines arrive intact; where nothing is dropped, only then. -/
theorem framed_iff_intact (c : ℕ) (hbuf : s.recvBuf = []) (hbytes : chunks.flatten = Utf8.encode t)
    (hlines : ∀ l ∈ completeLines t, utf16Length l ≤ recvBufMax) :
    (Intact chunks → Framed s c t chunks) ∧
      (NoOverflow chunks → (Framed s c t chunks ↔ Intact chunks)) :=
  ⟨framed_of_intact hbuf hbytes hlines, fun hkept =>
    ⟨intact_of_framed hbuf hbytes hkept, framed_of_intact hbuf hbytes hlines⟩⟩

end Cuts

/-- A frame with a server name that is not ASCII. -/
def cafeLine : Text :=
  ['{', '"', 's', 'e', 'r', 'v', 'e', 'r', '"', ':', '"', 'C', 'a', 'f', 'é', '"', '}', '\n']

/-- The frame in two chunks. -/
def cafeChunks (n : ℕ) : List Bytes :=
  [(Utf8.encode cafeLine).take n, (Utf8.encode cafeLine).drop n]

theorem flatten_cafeChunks (n : ℕ) : (cafeChunks n).flatten = Utf8.encode cafeLine := by
  simp [cafeChunks]

/-- A cut in front of the é. -/
theorem cafe_framed : Framed {} 0 cafeLine (cafeChunks 14) := by
  have hpieces : Utf8.linePieces (cafeChunks 14) =
      [[(Utf8.encode cafeLine).take 14, ((Utf8.encode cafeLine).drop 14).dropLast]] := by
    decide +kernel
  have hintact : Intact (cafeChunks 14) := by
    refine ⟨?_, ?_, by decide +kernel, by decide +kernel⟩
    · rw [hpieces, List.forall_mem_singleton]
      exact fun _ => by decide +kernel
    · rw [hpieces, List.forall_mem_singleton]
      exact fun _ => held_of_length (by decide +kernel)
  exact (framed_iff_intact 0 rfl (flatten_cafeChunks 14) (by decide +kernel)).1 hintact

/-- A cut within it: the server gets another name. -/
theorem cafe_cut_not_framed : (cafeChunks 15).flatten = Utf8.encode cafeLine ∧
    (∀ l ∈ completeLines cafeLine, utf16Length l ≤ recvBufMax) ∧
    ¬ Framed {} 0 cafeLine (cafeChunks 15) := by
  refine ⟨flatten_cafeChunks 15, by decide +kernel, fun h => ?_⟩
  have hpieces : Utf8.linePieces (cafeChunks 15) =
      [[(Utf8.encode cafeLine).take 15, ((Utf8.encode cafeLine).drop 15).dropLast]] := by
    decide +kernel
  have hkept : NoOverflow (cafeChunks 15) := by
    refine ⟨?_, held_of_length (by decide +kernel)⟩
    rw [hpieces, List.forall_mem_singleton]
    exact held_of_length (by decide +kernel)
  have hintact := intact_of_framed rfl (flatten_cafeChunks 15) hkept h
  refine absurd (hintact.json _ (hpieces ▸ List.mem_singleton_self _) ?_) ?_
  · decide +kernel
  · decide +kernel

end Mt5TcpServer

/-! ## Where a line goes on after an overflow -/

/-- Pieces at whose end the buffer is dropped, and not before. The buffer is checked once a chunk,
after its lines have been taken out. -/
def Overflows (pieces : List Bytes) : Prop :=
  pieces ≠ [] ∧ Held pieces.dropLast ∧ recvBufMax < utf16Length (Utf8.decodeAll pieces)

/-- What arrives of a line after the last overflow of its pieces. It is parsed as a frame of its
own, since nothing marks the buffer as being inside a line. -/
def AfterOverflow (pieces rest : List Bytes) : Prop :=
  ∃ dropped, dropped ≠ [] ∧ (∀ block ∈ dropped, Overflows block) ∧
    pieces = dropped.flatten ++ rest ∧ rest ≠ [] ∧ Held rest.dropLast

theorem foldl_carry_of_overflows {block : List Bytes} (h : Overflows block) :
    block.foldl carry [] = [] := by
  obtain ⟨hne, hheld, hlong⟩ := h
  cases block using List.reverseRecOn with
  | nil => exact absurd rfl hne
  | append_singleton block piece =>
      rw [List.dropLast_concat] at hheld
      rw [Utf8.decodeAll_concat] at hlong
      rw [List.foldl_concat, foldl_carry_of_held hheld, carry, if_pos hlong]

theorem foldl_carry_of_dropped {dropped : List (List Bytes)}
    (h : ∀ block ∈ dropped, Overflows block) : dropped.flatten.foldl carry [] = [] := by
  induction dropped with
  | nil => rfl
  | cons block dropped ih =>
      rw [List.forall_mem_cons] at h
      rw [List.flatten_cons, List.foldl_append, foldl_carry_of_overflows h.1, ih h.2]

/-- **What the buffer holds**: the pieces since the last overflow. -/
theorem exists_since_overflow (pieces : List Bytes) :
    ∃ (dropped : List (List Bytes)) (kept : List Bytes), (∀ block ∈ dropped, Overflows block) ∧
      pieces = dropped.flatten ++ kept ∧ Held kept := by
  induction pieces using List.reverseRecOn with
  | nil => exact ⟨[], [], by simp, rfl, held_nil⟩
  | append_singleton pieces piece ih =>
      obtain ⟨dropped, kept, hdropped, rfl, hkept⟩ := ih
      by_cases hlong : recvBufMax < utf16Length (Utf8.decodeAll (kept ++ [piece]))
      · refine ⟨dropped ++ [kept ++ [piece]], [], ?_, by simp, held_nil⟩
        intro block hblock
        rcases List.mem_append.mp hblock with hblock | hblock
        · exact hdropped block hblock
        · obtain rfl := List.mem_singleton.mp hblock
          exact ⟨by simp, by rwa [List.dropLast_concat], hlong⟩
      · exact ⟨dropped, kept ++ [piece], hdropped, by rw [List.append_assoc],
          held_concat.mpr ⟨hkept, not_lt.mp hlong⟩⟩

/-- What comes after the last overflow is the frame. -/
theorem AfterOverflow.frameOf {pieces rest : List Bytes} (h : AfterOverflow pieces rest) :
    frameOf pieces = Utf8.decodeAll rest := by
  obtain ⟨dropped, -, hdropped, rfl, hne, hheld⟩ := h
  cases rest using List.reverseRecOn with
  | nil => exact absurd rfl hne
  | append_singleton rest piece =>
      rw [List.dropLast_concat] at hheld
      rw [← List.append_assoc, frameOf_concat, List.foldl_append,
        foldl_carry_of_dropped hdropped, foldl_carry_of_held hheld, Utf8.decodeAll_concat]

/-- And it is not the whole line. -/
theorem AfterOverflow.ne {pieces rest : List Bytes} (h : AfterOverflow pieces rest) :
    Utf8.decodeAll rest ≠ Utf8.decodeAll pieces := by
  obtain ⟨dropped, hsome, hdropped, rfl, -, -⟩ := h
  intro heq
  obtain ⟨block, dropped, rfl⟩ := List.exists_cons_of_ne_nil hsome
  have hlong := (hdropped block List.mem_cons_self).2.2
  have hlength := congrArg utf16Length heq
  simp only [List.flatten_cons, List.append_assoc, Utf8.decodeAll, List.flatMap_append,
    utf16Length_append] at hlength hlong
  omega

/-- A line overflows, or the buffer holds it up to its last piece. -/
theorem held_or_afterOverflow {pieces : List Bytes} (hne : pieces ≠ []) :
    Held pieces.dropLast ∨ ∃ rest, AfterOverflow pieces rest := by
  cases pieces using List.reverseRecOn with
  | nil => exact absurd rfl hne
  | append_singleton pieces piece =>
      obtain ⟨dropped, kept, hdropped, rfl, hkept⟩ := exists_since_overflow pieces
      rw [List.dropLast_concat]
      by_cases hnone : dropped = []
      · subst hnone
        exact .inl hkept
      · exact .inr ⟨kept ++ [piece], dropped, hnone, hdropped, by rw [List.append_assoc], by simp,
          by rwa [List.dropLast_concat]⟩

theorem utf16Length_foldl_carry (pieces : List Bytes) :
    utf16Length (pieces.foldl carry []) ≤ recvBufMax := by
  cases pieces using List.reverseRecOn with
  | nil => exact Nat.zero_le _
  | append_singleton pieces piece =>
      rw [List.foldl_concat, carry]
      split
      · exact Nat.zero_le _
      · next h => exact not_lt.mp h

/-- A line that is too long. It is measured as the whole of its bytes is decoded, whatever the
chunks were. -/
def OverLong (pieces : List Bytes) : Prop :=
  recvBufMax < utf16Length (Utf8.decode pieces.flatten)

/-- What a line may come to: all of it, or nothing if it is too long. -/
def Resumes (pieces : List Bytes) (frame : Text) : Prop :=
  frame = Utf8.decodeAll pieces ∨ (OverLong pieces ∧ Json.parse frame = none)

namespace Mt5TcpServer

/-- Each line is passed on whole, except that nothing is passed on of a line that is
too long; and between two chunks the buffer is not too long. -/
structure Resynced (s : Mt5TcpServer) (c : ℕ) (chunks : List Bytes) : Prop where
  lines : List.Forall₂ Resumes (Utf8.linePieces chunks) (s.frames c chunks)
  passed : (s.receive c chunks).dispatched = s.dispatched ++ parsed c (s.frames c chunks)
  short : ∀ begun, begun <+: chunks → utf16Length (s.receive c begun).recvBuf ≤ recvBufMax

end Mt5TcpServer

theorem resumes_frameOf_iff {pieces : List Bytes} (hne : pieces ≠ []) :
    Resumes pieces (frameOf pieces) ↔ ∀ rest, AfterOverflow pieces rest →
      OverLong pieces ∧ Json.parse (Utf8.decodeAll rest) = none := by
  constructor
  · rintro h rest hrest
    rw [hrest.frameOf] at h
    exact h.resolve_left hrest.ne
  · intro h
    rcases held_or_afterOverflow hne with hheld | ⟨rest, hrest⟩
    · exact .inl (frameOf_of_held hheld)
    · exact .inr (hrest.frameOf ▸ h rest hrest)

namespace Mt5TcpServer

/-- **An over-long line is dropped, and nothing else**, exactly when each line that
overflows is too long and what arrives of it after its last overflow is no JSON. -/
theorem resynced_iff {s : Mt5TcpServer} (hbuf : s.recvBuf = []) (c : ℕ) (chunks : List Bytes) :
    Resynced s c chunks ↔ ∀ pieces ∈ Utf8.linePieces chunks, ∀ rest,
      AfterOverflow pieces rest → OverLong pieces ∧ Json.parse (Utf8.decodeAll rest) = none := by
  have hlines : List.Forall₂ Resumes (Utf8.linePieces chunks) (s.frames c chunks) ↔
      ∀ pieces ∈ Utf8.linePieces chunks, Resumes pieces (frameOf pieces) := by
    rw [frames_eq hbuf, List.forall₂_map_right_iff, List.forall₂_same]
  have heach : (∀ pieces ∈ Utf8.linePieces chunks, Resumes pieces (frameOf pieces)) ↔
      ∀ pieces ∈ Utf8.linePieces chunks, ∀ rest, AfterOverflow pieces rest →
        OverLong pieces ∧ Json.parse (Utf8.decodeAll rest) = none :=
    forall₂_congr fun pieces hpieces =>
      resumes_frameOf_iff (Utf8.linePiecesFrom_ne_nil pieces hpieces)
  rw [← heach, ← hlines]
  refine ⟨fun h => h.lines, fun h => ⟨h, receive_dispatched s c chunks, fun begun _ => ?_⟩⟩
  rw [receive_recvBuf hbuf]
  exact utf16Length_foldl_carry _

/-- More text than the buffer holds, in one chunk. -/
def longChunk : Bytes := Utf8.encode (List.replicate 65537 'x')

theorem decode_longChunk : Utf8.decode longChunk = List.replicate 65537 'x' :=
  Utf8.decode_encode _

theorem utf16Length_long : utf16Length (List.replicate 65537 'x') = 65537 := by
  have hone : ('x'.toNat < 0x10000) := by decide
  simp only [utf16Length, List.map_replicate, if_pos hone, List.sum_replicate]
  rfl

theorem overflows_longChunk : Overflows [longChunk] := by
  refine ⟨by simp, held_nil, ?_⟩
  have hall : Utf8.decodeAll [longChunk] = List.replicate 65537 'x' := by
    rw [Utf8.decodeAll, List.flatMap_singleton, decode_longChunk]
  rw [hall, utf16Length_long]
  decide

theorem newline_notMem_longChunk : Utf8.newline ∉ longChunk := by
  refine Utf8.newline_notMem_encode fun h => ?_
  exact absurd (List.eq_of_mem_replicate h) (by decide)

theorem afterOverflow_longChunk (l : Bytes) : AfterOverflow [longChunk, l] [l] :=
  ⟨[[longChunk]], by simp, by simpa using overflows_longChunk, rfl, by simp, held_nil⟩

theorem overLong_longChunk (l : Bytes) : OverLong [longChunk, l] := by
  have hbytes : [longChunk, l].flatten = longChunk ++ l := by simp
  have hdecode := Utf8.decode_append (Utf8.whole_encode (List.replicate 65537 'x')) l
  have hlong : Utf8.decode (longChunk ++ l) = Utf8.decode longChunk ++ Utf8.decode l := hdecode
  rw [OverLong, hbytes, hlong, utf16Length_append, decode_longChunk, utf16Length_long]
  exact Nat.lt_of_lt_of_le (by decide) (Nat.le_add_right _ _)

/-- The end of a line, and a startup event on a line of its own. -/
def startupNext : Text := "x\n\x7b\"type\":\"event\",\"kind\":\"startup\"\x7d\n".toList

/-- The end of a line that reads as a startup event. -/
def startupEnd : Text := "\x7b\"type\":\"event\",\"kind\":\"startup\"\x7d\n".toList

/-- The over-long line is dropped, and the event on the next line is passed on. -/
theorem longLine_resynced : Resynced {} 0 [longChunk, Utf8.encode startupNext] := by
  refine (resynced_iff rfl 0 _).mpr ?_
  have hlines : Utf8.byteLines (Utf8.encode startupNext) =
      [Utf8.encode ['x'], Utf8.encode startupEnd.dropLast] := by decide +kernel
  rw [Utf8.linePieces_pair newline_notMem_longChunk, hlines, Utf8.piecesOfLines]
  intro pieces hpieces rest hrest
  rcases List.mem_cons.mp hpieces with rfl | hpieces
  · refine ⟨overLong_longChunk _, ?_⟩
    have hparse : Json.parse (Utf8.decodeAll [Utf8.encode ['x']]) = none := by decide +kernel
    have hframe : frameOf ([longChunk] ++ [Utf8.encode ['x']]) =
        Utf8.decodeAll [Utf8.encode ['x']] := (afterOverflow_longChunk _).frameOf
    rw [← hrest.frameOf, hframe, hparse]
  · obtain rfl : pieces = [Utf8.encode startupEnd.dropLast] := by simpa using hpieces
    have hwhole := @frameOf_of_held [Utf8.encode startupEnd.dropLast] held_nil
    exact absurd (hrest.frameOf.symm.trans hwhole) hrest.ne

/-- The end of an over-long line is passed on as a startup event. -/
theorem longLine_not_resynced : ¬ Resynced {} 0 [longChunk, Utf8.encode startupEnd] := by
  intro h
  have hlines : Utf8.byteLines (Utf8.encode startupEnd) =
      [Utf8.encode startupEnd.dropLast] := by decide +kernel
  have hresumes := h.lines
  rw [frames_eq rfl, Utf8.linePieces_pair newline_notMem_longChunk, hlines, Utf8.piecesOfLines,
    List.map_nil, List.map_singleton, List.forall₂_cons] at hresumes
  have hrest := afterOverflow_longChunk (Utf8.encode startupEnd.dropLast)
  have hparse : (Json.parse (Utf8.decodeAll [Utf8.encode startupEnd.dropLast])).isSome := by
    decide +kernel
  have hnone := ((resumes_frameOf_iff (by simp)).mp hresumes.1 _ hrest).2
  rw [hnone] at hparse
  cases hparse

end Mt5TcpServer

end AkronSlot.Slot
