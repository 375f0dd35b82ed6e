import AkronSlot.Slot.Reconnects
import AkronSlot.Wire.Chunks

/-!
# The lines of the command connections

The receive buffer belongs to the client and not to a socket, and no handler
empties it when a socket ends.  What an earlier connection left in it is put in
front of the first line of the next one; a character that two chunks of a line
share is decoded in two halves.  A connection hands on its own lines exactly when
neither happens to a line that ends.

## What a connection may expect

The bytes of a connection, decoded as a whole and cut at its newlines, are its lines; that is
what `OwnLines` compares with. The client has one buffer for all connections and decodes chunk
by chunk, so each of the two shortcuts has its own way to go wrong. Both show only when a line
ends: until then the buffer holds text that nobody has read. This is why the condition
`EndsOwnLine` is on the chunks that end a line, and why it is exact.

## Main Definitions

* `OwnLines` — every connection has handed on the lines of its own bytes
* `EndsOwnLine` — the condition on a chunk that ends a line
* `Buffering` — what the receive buffer holds for the socket that is up

## Main Results

* `ownLines_iff`
-/

namespace AkronSlot.Slot

open Wire Wire.Utf8 Systems

namespace Mt5CommandClient

/-- The frames handed on for a connection are the complete lines of its bytes. It is asked of
every connection of the run, those that have ended included. -/
def OwnLines (s : Mt5CommandClient) : Prop :=
  ∀ k ∈ s.sockets, k.frames = completeLines (decode k.stream)

/-- The bytes of a chunk up to its first newline. -/
def lineEnd (chunk : Bytes) : Bytes := chunk.takeWhile (· ≠ newline)

/-- What the receive buffer holds in front of the open line of a connection: what was there when
the socket was made, until its first newline. After that the line it spoiled is gone. -/
def leftover (k : Socket) : Text := if newline ∈ k.stream then [] else k.found

/-- A chunk that ends a line ends one with nothing in front of it, and without a
cut in it. -/
def EndsOwnLine (s : Mt5CommandClient) : Event → Prop
  | .data c chunk => newline ∈ chunk → ∀ k, s.sockets[c]? = some k →
      leftover k = [] ∧ Uncut (openPieces k.received ++ [lineEnd chunk])
  | _ => True

/-! ## One chunk -/

/-- A chunk that ends a line. -/
theorem exists_line_of_mem {chunk : Bytes} (h : newline ∈ chunk) :
    ∃ rest, chunk = lineEnd chunk ++ newline :: rest ∧ newline ∉ lineEnd chunk := by
  obtain ⟨a, b, rfl, ha⟩ := List.eq_append_cons_of_mem h
  have hline : lineEnd (a ++ newline :: b) = a := by
    rw [lineEnd, List.takeWhile_append_of_pos]
    · simp
    · intro x hx
      have hne : x ≠ newline := fun heq => ha (heq ▸ hx)
      simpa using hne
  rw [hline]
  exact ⟨b, rfl, ha⟩

/-- The frames of a connection are its lines after a chunk exactly if they were
before and, when the chunk ends a line, the buffer and the end of the line decode
to the line itself. -/
theorem frames_append_iff {s : Mt5CommandClient} (hopen : '\n' ∉ s.recvBuf) (frames : List Text)
    (stream chunk : Bytes) :
    frames ++ completeLines (s.buffered chunk) = completeLines (decode (stream ++ chunk)) ↔
      frames = completeLines (decode stream) ∧ (newline ∈ chunk →
        s.recvBuf ++ decode (lineEnd chunk) = decode (openBytes stream ++ lineEnd chunk)) := by
  by_cases h : newline ∈ chunk
  · obtain ⟨rest, hchunk, hline⟩ := exists_line_of_mem h
    have hno : '\n' ∉ s.recvBuf ++ decode (lineEnd chunk) := by
      simp [hopen, newline_notMem_decode hline]
    have hbuffered : completeLines (s.buffered chunk) =
        (s.recvBuf ++ decode (lineEnd chunk)) :: completeLines (decode rest) := by
      conv_lhs => rw [buffered, hchunk, decode_newline, ← List.append_assoc]
      rw [completeLines_line hno]
    have hstream : completeLines (decode (stream ++ chunk)) = completeLines (decode stream) ++
        decode (openBytes stream ++ lineEnd chunk) :: completeLines (decode rest) := by
      conv_lhs => rw [hchunk]
      exact completeLines_decode_line stream hline rest
    rw [hbuffered, hstream]
    constructor
    · intro heq
      -- both sides end with as many lines as the chunk has newlines
      obtain ⟨hframes, hlines⟩ := List.append_inj' heq rfl
      exact ⟨hframes, fun _ => (List.cons.inj hlines).1⟩
    · rintro ⟨rfl, hfirst⟩
      rw [hfirst h]
  · have hbuffered : completeLines (s.buffered chunk) = [] := by
      apply completeLines_of_notMem
      simp [buffered, hopen, newline_notMem_decode h]
    rw [hbuffered, completeLines_decode_append stream h, List.append_nil]
    exact ⟨fun hframes => ⟨hframes, fun hmem => absurd hmem h⟩, And.left⟩

/-! ## The buffer -/

/-- The buffer holds no newline; for the socket that is up, it holds the leftover
and the pieces of its open line, decoded one by one. -/
structure Buffering (s : Mt5CommandClient) : Prop where
  connecting : s.OneConnecting
  noNewline : '\n' ∉ s.recvBuf
  holds : ∀ k ∈ s.sockets, k.Up = true → s.recvBuf = leftover k ++ decodeAll (openPieces k.received)

/-- Two sockets that are alive are one. -/
theorem OneConnecting.unique {s : Mt5CommandClient} (h : s.OneConnecting) {i j : ℕ} {k l : Socket}
    (hk : s.sockets[i]? = some k) (hl : s.sockets[j]? = some l) (hkalive : k.Alive = true)
    (hlalive : l.Alive = true) : i = j := by
  by_contra hne
  have hset := countP_set_of_getElem? hk Socket.Alive k.fail
  have hstill : (s.sockets.set i k.fail)[j]? = some l := by
    rw [List.getElem?_set_ne hne, hl]
  have hpos : 0 < (s.sockets.set i k.fail).countP Socket.Alive :=
    List.countP_pos_iff.mpr ⟨l, List.mem_of_getElem? hstill, hlalive⟩
  have hle := h.atMost
  have hdead : k.fail.Alive = false := rfl
  rw [if_pos hkalive, hdead, if_neg Bool.false_ne_true] at hset
  unfold alive at hle
  omega

/-- A socket that is there after a step was there before, or it is the one that a
reconnect has made. -/
theorem socket_before {s s' : Mt5CommandClient} {e : Event} (h : s.step e = some s') {i : ℕ}
    {k' : Socket} (hk' : s'.sockets[i]? = some k') :
    (∃ k, s.sockets[i]? = some k ∧ Grown (e.chunksOn i) (s.framesOn i e) k k') ∨
      (e = .reconnect ∧ k' = { found := s.recvBuf }) := by
  have hi : i < s'.sockets.length := (List.getElem?_eq_some_iff.mp hk').1
  by_cases hold : i < s.sockets.length
  · obtain ⟨k₁, hk₁, hgrown⟩ := step_socket h (List.getElem?_eq_getElem hold)
    obtain rfl := Option.some.inj (hk₁.symm.trans hk')
    exact .inl ⟨_, List.getElem?_eq_getElem hold, hgrown⟩
  · right
    cases e with
    | reconnect =>
        obtain ⟨-, rfl⟩ := step_reconnect.mp h
        refine ⟨rfl, ?_⟩
        unfold connect at hk' hi
        split at hk'
        · next hdead =>
            rw [if_pos hdead] at hi
            exact absurd hi hold
        · next hlive =>
            rw [if_neg hlive] at hi
            simp only [List.length_append, List.length_singleton] at hi
            obtain rfl : i = s.sockets.length := by omega
            simpa using hk'.symm
    | _ =>
        cases step_change h with
        | quiet _ hlength => omega
        | ended _ hlength => omega
        | reconnected hfired => simp [Event.fired] at hfired

theorem Grown.up {chunks : List Bytes} {frames : List Text} {k k' : Socket}
    (h : Grown chunks frames k k') (hup : k'.Up = true) : k.Up = true := by
  simp only [Socket.Up, Bool.and_eq_true, Bool.not_eq_true'] at hup ⊢
  refine ⟨h.alive hup.1, ?_⟩
  by_contra hdown
  simp [h.destroyed (by simpa using hdown)] at hup

/-- A socket that has got nothing more has the same open line. -/
theorem Grown.same {frames : List Text} {k k' : Socket} (h : Grown [] frames k k') :
    leftover k' = leftover k ∧ k'.received = k.received := by
  have hreceived : k'.received = k.received := by rw [h.received, List.append_nil]
  exact ⟨by rw [leftover, leftover, Socket.stream, Socket.stream, hreceived, h.found], hreceived⟩

/-- A chunk moves the buffer and the open line of its socket alike. -/
theorem holds_chunk {recvBuf : Text} {k k' : Socket} {chunk : Bytes} (hno : '\n' ∉ recvBuf)
    (hbuf : recvBuf = leftover k ++ decodeAll (openPieces k.received))
    (hfound : k'.found = k.found) (hreceived : k'.received = k.received ++ [chunk]) :
    openTail (recvBuf ++ decode chunk) = leftover k' ++ decodeAll (openPieces k'.received) := by
  have hstream : k'.stream = k.stream ++ chunk := by simp [Socket.stream, hreceived]
  rw [hreceived, openPieces_concat, leftover, hstream, hfound]
  by_cases h : newline ∈ chunk
  · have htail : openTail (recvBuf ++ decode chunk) = openTail (decode chunk) := by
      obtain ⟨rest, hchunk, hline⟩ := exists_line_of_mem h
      have hno' : '\n' ∉ recvBuf ++ decode (lineEnd chunk) := by
        simp [hno, newline_notMem_decode hline]
      rw [hchunk, decode_newline, ← List.append_assoc, openTail_line hno',
        openTail_line (newline_notMem_decode hline)]
    rw [htail, openTail_decode, piecesAfter, if_pos h, if_pos (by simp [h])]
    simp [decodeAll]
  · have hopen : '\n' ∉ recvBuf ++ decode chunk := by simp [hno, newline_notMem_decode h]
    rw [openTail_of_completeLines_nil (completeLines_of_notMem hopen), piecesAfter, if_neg h, hbuf]
    simp [leftover, h, decodeAll]

theorem Buffering.step {s s' : Mt5CommandClient} {e : Event} (hs : s.Buffering)
    (h : s.step e = some s') : s'.Buffering := by
  have hbuf := step_recvBuf h
  refine ⟨hs.connecting.step h, ?_, fun k' hk' hup => ?_⟩
  · rw [hbuf]
    cases e with
    | data c chunk => exact newline_notMem_openTail _
    | _ => exact hs.noNewline
  · obtain ⟨i, hi⟩ := List.mem_iff_getElem?.mp hk'
    rcases socket_before h hi with ⟨k, hk, hgrown⟩ | ⟨rfl, rfl⟩
    · have hheld := hs.holds k (List.mem_of_getElem? hk) (hgrown.up hup)
      rw [hbuf]
      cases e with
      | data c chunk =>
          -- the chunk came on this socket, the only one that is alive
          obtain ⟨k₀, hk₀, hlive, -⟩ := step_data.mp h
          obtain rfl := hs.connecting.unique hk₀ hk (Socket.alive_of_up (Socket.up_of_live hlive))
            (Socket.alive_of_up (hgrown.up hup))
          refine holds_chunk hs.noNewline hheld hgrown.found ?_
          simpa [Event.chunksOn] using hgrown.received
      | _ =>
          obtain ⟨hleft, hreceived⟩ := Grown.same hgrown
          rw [hleft, hreceived]
          exact hheld
    · rw [hbuf]
      simp [recvBufAfter, leftover, Socket.stream, openPieces, decodeAll]

theorem buffering_initial : Buffering initial where
  connecting := oneConnecting_initial
  noNewline := by simp [initial, connect]
  holds k hk _ := by
    obtain rfl : k = {} := by simpa [initial, connect] using hk
    rfl

/-! ## Runs -/

/-- A socket has handed on the lines of its own bytes. `OwnLines` is this of every socket; a step
changes it for one of them at most. -/
def Own (k : Socket) : Prop := k.frames = completeLines (decode k.stream)

/-- For a socket that got nothing, a step changes nothing. -/
theorem Grown.own_iff {k k' : Socket} (h : Grown [] [] k k') : Own k' ↔ Own k := by
  have hframes : k'.frames = k.frames := by rw [h.frames, List.append_nil]
  rw [Own, Own, Socket.stream, Socket.stream, hframes, (Grown.same h).2]

/-- For a socket that got a chunk. -/
theorem own_data_iff {s : Mt5CommandClient} (hs : s.Buffering) {c : ℕ} {chunk : Bytes}
    {k k' : Socket} (hk : s.sockets[c]? = some k) (hup : k.Up = true)
    (h : Grown [chunk] (completeLines (s.buffered chunk)) k k') :
    Own k' ↔ Own k ∧ s.EndsOwnLine (.data c chunk) := by
  have hstream : k'.stream = k.stream ++ chunk := by simp [Socket.stream, h.received]
  have hheld := hs.holds k (List.mem_of_getElem? hk) hup
  have hline : s.EndsOwnLine (.data c chunk) ↔ (newline ∈ chunk →
      s.recvBuf ++ decode (lineEnd chunk) = decode (openBytes k.stream ++ lineEnd chunk)) := by
    have hpieces : openBytes k.stream ++ lineEnd chunk =
        (openPieces k.received ++ [lineEnd chunk]).flatten := by
      rw [List.flatten_concat, flatten_openPieces]
      rfl
    have hbuf : s.recvBuf ++ decode (lineEnd chunk) =
        leftover k ++ decodeAll (openPieces k.received ++ [lineEnd chunk]) := by
      rw [hheld]
      simp [decodeAll]
    rw [hpieces, hbuf, append_decodeAll_eq_iff]
    refine forall_congr' fun _ => ⟨fun hall => hall k hk, fun hown l hl => ?_⟩
    obtain rfl := Option.some.inj (hk.symm.trans hl)
    exact hown
  rw [Own, h.frames, hstream, frames_append_iff hs.noNewline, hline, Own]

/-- For any socket and any step: what counts is the chunk it got, if it got one. -/
theorem own_step_iff {s s' : Mt5CommandClient} {e : Event} (hs : s.Buffering)
    (h : s.step e = some s') {i : ℕ} {k k' : Socket} (hk : s.sockets[i]? = some k)
    (hgrown : Grown (e.chunksOn i) (s.framesOn i e) k k') :
    Own k' ↔ Own k ∧ ∀ chunk, e = .data i chunk → s.EndsOwnLine e := by
  by_cases hdata : ∃ chunk, e = .data i chunk
  · obtain ⟨chunk, rfl⟩ := hdata
    obtain ⟨k₀, hk₀, hlive, -⟩ := step_data.mp h
    obtain rfl := Option.some.inj (hk₀.symm.trans hk)
    have hchunk : Grown [chunk] (completeLines (s.buffered chunk)) k₀ k' := by
      simpa [Event.chunksOn, framesOn] using hgrown
    rw [own_data_iff hs hk (Socket.up_of_live hlive) hchunk]
    exact and_congr_right fun _ => ⟨fun hline _ _ => hline, fun hline => hline chunk rfl⟩
  · have hquiet : e.chunksOn i = [] ∧ s.framesOn i e = [] := by
      cases e with
      | data c chunk =>
          have hne : c ≠ i := fun hc => hdata ⟨chunk, by rw [hc]⟩
          simp [Event.chunksOn, framesOn, hne]
      | _ => exact ⟨rfl, rfl⟩
    rw [hquiet.1, hquiet.2] at hgrown
    rw [Grown.own_iff hgrown]
    exact ⟨fun hown => ⟨hown, fun chunk he => absurd ⟨chunk, he⟩ hdata⟩, And.left⟩

/-- **The step lemma**: a step keeps every connection to its own lines exactly if
a line that it ends is one. -/
theorem ownLines_step {s s' : Mt5CommandClient} {e : Event} (hs : s.Buffering)
    (h : s.step e = some s') : s'.OwnLines ↔ s.OwnLines ∧ s.EndsOwnLine e := by
  have hafter : ∀ {i : ℕ} {k : Socket}, s'.OwnLines → s.sockets[i]? = some k →
      Own k ∧ ∀ chunk, e = .data i chunk → s.EndsOwnLine e := by
    intro i k hown hk
    obtain ⟨k', hk', hgrown⟩ := step_socket h hk
    exact (own_step_iff hs h hk hgrown).mp (hown k' (List.mem_of_getElem? hk'))
  constructor
  · intro hown
    constructor
    · intro k hk
      obtain ⟨i, hi⟩ := List.mem_iff_getElem?.mp hk
      exact (hafter hown hi).1
    · cases e with
      | data c chunk =>
          obtain ⟨k, hk, -⟩ := step_data.mp h
          exact (hafter hown hk).2 chunk rfl
      | _ => trivial
  · rintro ⟨hown, hline⟩ k' hk'
    obtain ⟨i, hi⟩ := List.mem_iff_getElem?.mp hk'
    rcases socket_before h hi with ⟨k, hk, hgrown⟩ | ⟨-, rfl⟩
    · exact (own_step_iff hs h hk hgrown).mpr
        ⟨hown k (List.mem_of_getElem? hk), fun _ _ => hline⟩
    · rfl

/-- **Every connection hands on its own lines** in a run of the client if and only if, along the
run, every chunk that ends a line ends one with nothing in front of it and without a cut in it.
What stands in front is what a connection before has left in the buffer. -/
theorem ownLines_iff {es : List Event} {s : Mt5CommandClient}
    (hrun : run step initial es = some s) :
    s.OwnLines ↔ Along step EndsOwnLine initial es := by
  have hinitial : initial.OwnLines := by
    intro k hk
    obtain rfl : k = {} := by simpa [initial, connect] using hk
    rfl
  rw [run_along_iff_of_invariant (fun _ _ _ hs h => Buffering.step hs h)
    (fun _ _ _ hs h => ownLines_step hs h) buffering_initial hrun]
  exact and_iff_right hinitial

/-- A whole frame. -/
def emptyFrameBytes : Bytes := encode "\x7b\x7d\n".toList

/-- Two connections, each with a whole line. -/
def wholeLines : List Event :=
  [.connected 0, .data 0 emptyFrameBytes, .close 0, .reconnect, .connected 1,
    .data 1 emptyFrameBytes]

theorem wholeLines_ownLines : ∃ s, run step initial wholeLines = some s ∧
    s.OwnLines ∧ Along step EndsOwnLine initial wholeLines := by
  have hframes : (run step initial wholeLines).map (fun s => s.sockets.map fun k =>
      (k.frames, completeLines (decode k.stream))) =
        some [(["\x7b\x7d".toList], ["\x7b\x7d".toList]),
          (["\x7b\x7d".toList], ["\x7b\x7d".toList])] := by decide +kernel
  obtain ⟨s, hrun, hs⟩ := Option.map_eq_some_iff.mp hframes
  have hown : s.OwnLines := by
    intro k hk
    have hmem := List.mem_map_of_mem (f := fun k : Socket =>
      (k.frames, completeLines (decode k.stream))) hk
    rw [hs] at hmem
    simp only [List.mem_cons, List.not_mem_nil, or_false, or_self, Prod.mk.injEq] at hmem
    rw [hmem.1, hmem.2]
  exact ⟨s, hrun, hown, (ownLines_iff hrun).mp hown⟩

/-- The first bytes of a response. -/
def cutBytes : Bytes := encode "\x7b\"type\"".toList

/-- The first connection ends in the middle of a line; the second one brings a
whole line. -/
def cutConnection : List Event :=
  [.connected 0, .data 0 cutBytes, .close 0, .reconnect, .connected 1, .data 1 emptyFrameBytes]

/-- **A frame of two connections**: the first frame handed on for the second
connection starts with what the first one left in the buffer. -/
theorem cutConnection_prepends : ∃ s, run step initial cutConnection = some s ∧
    s.sockets.map Socket.frames = [[], ["\x7b\"type\"\x7b\x7d".toList]] ∧
    s.sockets.map (fun k => completeLines (decode k.stream)) = [[], ["\x7b\x7d".toList]] ∧
    ¬ s.OwnLines := by
  have hframes : (run step initial cutConnection).map (fun s => (s.sockets.map Socket.frames,
      s.sockets.map fun k => completeLines (decode k.stream))) =
        some ([[], ["\x7b\"type\"\x7b\x7d".toList]], [[], ["\x7b\x7d".toList]]) := by
    decide +kernel
  obtain ⟨s, hrun, hs⟩ := Option.map_eq_some_iff.mp hframes
  obtain ⟨hhanded, hlines⟩ := Prod.mk.inj hs
  refine ⟨s, hrun, hhanded, hlines, fun hown => ?_⟩
  have hsame : s.sockets.map Socket.frames =
      s.sockets.map fun k => completeLines (decode k.stream) := List.map_congr_left hown
  rw [hhanded, hlines] at hsame
  exact absurd hsame (by decide)

end Mt5CommandClient

end AkronSlot.Slot
