import AkronSlot.Slot.Connections

/-!
# What the TCP server's frames are made of

There is one receive buffer for all connections.  It holds the bytes of one
connection only because `handleConnection` destroys the connection before; when
`this.sock` has been cleared by a late close, it does not, and two connections
write to the buffer.

## Whose bytes are in the buffer

No field says whose bytes the buffer holds. They are those of the connection accepted last, as
long as every other one is destroyed before (`OneStream`): a destroyed socket delivers nothing,
so only one can append. It fails at one place: `handleConnection` destroys the socket in
`this.sock`, and that field may be empty although a connection is open.

## Main Definitions

* `OneConnection` — a frame is a piece of the bytes of one connection
* `AcceptsAlone` — no connection is accepted while another one is open outside
  `this.sock`

## Main Results

* `oneConnection_of_acceptsAlone`
-/

namespace AkronSlot.Slot

open Wire Wire.Utf8 Systems

namespace Mt5TcpServer

/-- The line of a frame was decoded, in one or several pieces, from consecutive bytes of one
connection that a newline ends. It allows for characters that a chunk has cut, and for nothing
else. -/
def OneConnection (s : Mt5TcpServer) (d : Dispatched) : Prop :=
  ∃ k ∈ s.conns, ∃ pieces : List Bytes,
    d.line = decodeAll pieces ∧ pieces.flatten ++ [newline] <:+: k.stream

/-- When a connection is accepted, every connection that is open is the one in
`this.sock`. -/
def AcceptsAlone (s : Mt5TcpServer) (e : Event) : Prop :=
  e = .connect → ∀ i, s.Open i → s.sock = some i

/-! ## One open connection -/

/-- Only the connection accepted last is open. -/
def NewestOpen (s : Mt5TcpServer) : Prop := ∀ i, s.Open i → i + 1 = s.conns.length

theorem Open.lt {s : Mt5TcpServer} {i : ℕ} (h : s.Open i) : i < s.conns.length := by
  obtain ⟨k, hk, -⟩ := h
  exact (List.getElem?_eq_some_iff.mp hk).1

/-- A connection that is open after a step, and was there before, was open. -/
theorem Effect.open_before {s s' : Mt5TcpServer} {e : Event} (h : Effect s e s') {i : ℕ}
    (hi : i < s.conns.length) (hopen : s'.Open i) : s.Open i := by
  obtain ⟨k', hk', hlive⟩ := hopen
  rw [h.conns i hi] at hk'
  obtain ⟨k, hk, rfl⟩ := Option.map_eq_some_iff.mp hk'
  refine ⟨k, hk, ?_⟩
  by_contra hdestroyed
  simp [connAfter_destroyed s e i (by simpa using hdestroyed)] at hlive

/-- The connection in `this.sock` does not survive a `connect`. -/
theorem not_open_of_connect {s s' : Mt5TcpServer} (h : Effect s .connect s') {i : ℕ}
    (hi : i < s.conns.length) (hsock : s.sock = some i) : ¬ s'.Open i := by
  rintro ⟨k', hk', hlive⟩
  rw [h.conns i hi] at hk'
  obtain ⟨k, -, rfl⟩ := Option.map_eq_some_iff.mp hk'
  simp [connAfter, hsock, Conn.destroy] at hlive

theorem NewestOpen.step {s s' : Mt5TcpServer} {e : Event} (hs : s.NewestOpen)
    (halone : s.AcceptsAlone e) (h : s.step e = some s') : s'.NewestOpen := by
  have heffect := step_effect h
  intro i hopen
  by_cases hconnect : e = .connect
  · subst hconnect
    have hlen : s'.conns.length = s.conns.length + 1 := heffect.length
    by_contra hne
    have hi : i < s.conns.length := by
      have := hopen.lt
      omega
    have hheld := halone rfl i (heffect.open_before hi hopen)
    exact not_open_of_connect heffect hi hheld hopen
  · have hlen : s'.conns.length = s.conns.length := by rw [heffect.length, if_neg hconnect]
    rw [hlen]
    exact hs i (heffect.open_before (hlen ▸ hopen.lt) hopen)

/-! ## The buffer -/

/-- The buffer was decoded from the last bytes of the connection accepted last, in pieces that may
have cut a character. -/
def BufferOfNewest (s : Mt5TcpServer) : Prop :=
  ∀ i k, i + 1 = s.conns.length → s.conns[i]? = some k →
    ∃ pieces : List Bytes, s.recvBuf = decodeAll pieces ∧ pieces.flatten <:+ k.stream

theorem connAfter_stream (s : Mt5TcpServer) (e : Event) (i : ℕ) (k : Conn) :
    (s.connAfter e i k).stream = k.stream ++ (e.chunksOn i).flatten := by
  simp [Conn.stream, connAfter_received]

/-- What is a frame of one connection stays one: streams only grow. -/
theorem Effect.oneConnection {s s' : Mt5TcpServer} {e : Event} (h : Effect s e s')
    {d : Dispatched} (hd : s.OneConnection d) : s'.OneConnection d := by
  obtain ⟨k, hk, pieces, hline, hpieces⟩ := hd
  obtain ⟨i, hi, rfl⟩ := List.mem_iff_getElem.mp hk
  have hget : s'.conns[i]? = some (s.connAfter e i s.conns[i]) := by
    rw [h.conns i hi, List.getElem?_eq_getElem hi]
    rfl
  refine ⟨_, List.mem_of_getElem? hget, pieces, hline, ?_⟩
  rw [connAfter_stream]
  exact hpieces.trans (List.prefix_append _ _).isInfix

/-- The chunk that a `data` event appends to the pieces in the buffer. -/
theorem buffered_eq {s : Mt5TcpServer} {pieces : List Bytes} (h : s.recvBuf = decodeAll pieces)
    (chunk : Bytes) : s.buffered chunk = decodeAll (pieces ++ [chunk]) := by
  simp [buffered, h, decodeAll]

theorem line_of_mem_parsed {c : ℕ} {lines : List Text} {d : Dispatched}
    (h : d ∈ parsed c lines) : d.line ∈ lines := by
  obtain ⟨l, hl, hd⟩ := List.mem_filterMap.mp h
  obtain ⟨v, -, rfl⟩ := Option.map_eq_some_iff.mp hd
  exact hl

/-- What holds as long as one connection at a time is open. The buffer is then what the newest
connection has left of a line, and this is why its frames are its own. -/
structure OneStream (s : Mt5TcpServer) : Prop where
  newest : s.NewestOpen
  buffer : s.BufferOfNewest
  frames : ∀ d ∈ s.dispatched, s.OneConnection d

/-- A chunk: the frames it completes and what it leaves in the buffer are made
of the stream of its connection. -/
theorem OneStream.data {s s' : Mt5TcpServer} {c : ℕ} {chunk : Bytes} (hs : s.OneStream)
    (h : s.step (.data c chunk) = some s') :
    s'.BufferOfNewest ∧ ∀ d ∈ s'.dispatched, s'.OneConnection d := by
  have heffect := step_effect h
  have hlen : s'.conns.length = s.conns.length := heffect.length
  obtain ⟨k, hk, hlive, -, -, rfl⟩ := step_data.mp h
  have hnewest : c + 1 = s.conns.length := hs.newest c ⟨k, hk, hlive⟩
  obtain ⟨pieces, hbuf, hsuffix⟩ := hs.buffer c k hnewest hk
  -- the bytes behind the buffered text end the stream with the chunk
  have hstream : (k.deliver chunk).stream = k.stream ++ chunk := by
    simp [Conn.stream, Conn.deliver]
  have hbytes : (pieces ++ [chunk]).flatten <:+ (k.deliver chunk).stream := by
    rw [hstream, List.flatten_append, List.flatten_singleton]
    exact List.suffix_append_self_iff.mpr hsuffix
  have hafter : (s.conns.set c (k.deliver chunk))[c]? = some (k.deliver chunk) := by
    simp [(List.getElem?_eq_some_iff.mp hk).1]
  set t : Mt5TcpServer := { s with conns := s.conns.set c (k.deliver chunk) } with ht
  have hbuffered : t.buffered chunk = decodeAll (pieces ++ [chunk]) := buffered_eq hbuf chunk
  constructor
  · intro i k' hi hk'
    obtain rfl : i = c := by omega
    rw [onData_conns] at hk'
    obtain rfl : k.deliver chunk = k' := Option.some.inj (hafter.symm.trans hk')
    rw [onData_recvBuf]
    split
    · exact ⟨[], rfl, List.nil_suffix⟩
    · rw [hbuffered]
      obtain ⟨left, hleft, hend⟩ := exists_pieces_of_tail (pieces ++ [chunk])
      exact ⟨left, hleft, hend.trans hbytes⟩
  · intro d hd
    rw [onData_dispatched, List.mem_append] at hd
    rcases hd with hd | hd
    · exact heffect.oneConnection (hs.frames d hd)
    · have hline := line_of_mem_parsed hd
      rw [hbuffered] at hline
      obtain ⟨left, hleft, hpiece⟩ := exists_pieces_of_line hline
      have hmem : k.deliver chunk ∈ (t.onData c chunk).conns := by
        rw [onData_conns]
        exact List.mem_of_getElem? hafter
      exact ⟨_, hmem, left, hleft, hpiece.trans hbytes.isInfix⟩

/-- Steps that deliver nothing leave the buffer to the stream it comes from. -/
theorem OneStream.buffer_of_not_data {s s' : Mt5TcpServer} {e : Event} (hs : s.OneStream)
    (h : s.step e = some s') (hdata : ∀ c chunk, e ≠ .data c chunk) : s'.BufferOfNewest := by
  have heffect := step_effect h
  intro i k' hi hk'
  by_cases hconnect : e = .connect
  · exact ⟨[], by rw [heffect.recvBuf hdata, if_pos hconnect]; rfl, List.nil_suffix⟩
  · have hlen : s'.conns.length = s.conns.length := by rw [heffect.length, if_neg hconnect]
    rw [heffect.conns i (by omega)] at hk'
    obtain ⟨k, hk, rfl⟩ := Option.map_eq_some_iff.mp hk'
    obtain ⟨pieces, hbuf, hsuffix⟩ := hs.buffer i k (hlen ▸ hi) hk
    have hno : e.chunksOn i = [] := by
      cases e with
      | data c chunk => exact absurd rfl (hdata c chunk)
      | _ => rfl
    refine ⟨pieces, by rw [heffect.recvBuf hdata, if_neg hconnect, hbuf], ?_⟩
    simpa [connAfter_stream, hno] using hsuffix

/-- **The step lemma**: as long as one connection at a time is open, every frame
is made of one stream. -/
theorem oneStream_step {s s' : Mt5TcpServer} {e : Event} (hs : s.OneStream)
    (halone : s.AcceptsAlone e) (h : s.step e = some s') : s'.OneStream := by
  have hnewest : s'.NewestOpen := hs.newest.step halone h
  by_cases hdata : ∃ c chunk, e = .data c chunk
  · obtain ⟨c, chunk, rfl⟩ := hdata
    obtain ⟨hbuffer, hframes⟩ := hs.data h
    exact ⟨hnewest, hbuffer, hframes⟩
  · have hno : ∀ c chunk, e ≠ .data c chunk := fun c chunk he => hdata ⟨c, chunk, he⟩
    refine ⟨hnewest, hs.buffer_of_not_data h hno, fun d hd => ?_⟩
    rw [(step_effect h).dispatched hno] at hd
    exact (step_effect h).oneConnection (hs.frames d hd)

theorem oneStream_initial : OneStream {} where
  newest i hi := by simp [Open] at hi
  buffer i k _ hk := by simp at hk
  frames d hd := by simp at hd

/-- **Every frame is a newline-terminated piece of the bytes of one connection**,
in every run in which no connection is accepted while another one is open outside
`this.sock`. -/
theorem oneConnection_of_acceptsAlone {es : List Event} {s : Mt5TcpServer}
    (halone : Along step AcceptsAlone {} es) (hrun : run step {} es = some s) :
    ∀ d ∈ s.dispatched, s.OneConnection d := by
  have hstep : ∀ s e s', OneStream s → AcceptsAlone s e → step s e = some s' → OneStream s' :=
    fun _ _ _ hs ha h => oneStream_step hs ha h
  exact (run_along_invariant hstep oneStream_initial halone hrun).frames

/-- A startup event. -/
def startupJson : Json := .obj [("type", .str "event"), ("kind", .str "startup")]

/-- The second publisher connects, the close of the first one arrives, and the
second one sends a frame. -/
def lateClose : List Event :=
  [.connect, .connect, .close 0, .send 1 (frameBytes startupJson)]

/-- The state after these steps. -/
def afterLateClose : Mt5TcpServer :=
  { conns := [⟨[], [], [], false, true, true⟩,
      ⟨frameBytes startupJson, [], frameBytes startupJson, false, false, false⟩] }

theorem run_lateClose : run step {} lateClose = some afterLateClose := rfl

theorem lateClose_oneConnection : ∃ s,
    run step {} (lateClose ++ [.data 1 (frameBytes startupJson)]) = some s ∧
      s.dispatched = [⟨1, startupJson.print, startupJson⟩] ∧
      ∀ d ∈ s.dispatched, s.OneConnection d := by
  obtain ⟨s, hstep, -, hdispatched, -⟩ := exists_step_data (s := afterLateClose) (c := 1) rfl rfl
    (frameBytes_ne_nil startupJson) List.prefix_rfl
  rw [(lines_frameBytes rfl 1 startupJson).1] at hdispatched
  have hrun : run step {} (lateClose ++ [.data 1 (frameBytes startupJson)]) = some s := by
    rw [run_append]
    exact ⟨_, run_lateClose, by rw [run_cons]; exact ⟨s, hstep, rfl⟩⟩
  have hquiet : ∀ (s : Mt5TcpServer) (e : Event), e ≠ .connect → s.AcceptsAlone e :=
    fun s e hne he => absurd he hne
  refine ⟨s, hrun, hdispatched, oneConnection_of_acceptsAlone ?_ hrun⟩
  rw [lateClose, List.cons_append, List.cons_append, List.cons_append, List.cons_append,
    along_cons _ rfl, along_cons _ rfl, along_cons _ rfl, along_cons _ rfl]
  refine ⟨fun _ i hi => ?_, fun _ i hi => ?_, hquiet _ _ (by simp), hquiet _ _ (by simp),
    hquiet _ _ (by simp), fun _ _ => trivial⟩
  · exact absurd hi.lt (by simp)
  · obtain rfl := Nat.lt_one_iff.mp hi.lt
    rfl

/-- What the second of three publishers sends: the start of a frame. -/
def frameStart : Text := "\x7b\"type\":\"event\",".toList

/-- What the third one sends: the end of another frame. -/
def frameEnd : Text := "\"kind\":\"startup\"\x7d".toList

theorem frameStart_append_frameEnd : frameStart ++ frameEnd = startupJson.print := by decide

/-- The bytes of the second publisher. -/
def startBytes : Bytes := encode frameStart

/-- The bytes of the third publisher. -/
def endBytes : Bytes := encode (frameEnd ++ ['\n'])

/-- Three publishers.  The close of the first one clears `this.sock` while the
second one is open, so the third one does not replace it. -/
def threePublishers : List Event :=
  [.connect, .connect, .close 0, .connect, .send 1 startBytes, .send 2 endBytes]

/-- The state after these steps. -/
def afterThree : Mt5TcpServer :=
  { conns := [⟨[], [], [], false, true, true⟩, ⟨startBytes, [], startBytes, false, false, false⟩,
      ⟨endBytes, [], endBytes, false, false, false⟩]
    sock := some 2 }

theorem run_threePublishers : run step {} threePublishers = some afterThree := rfl

/-- The second publisher leaves the start of a frame in the buffer. -/
theorem step_startBytes : ∃ t, step afterThree (.data 1 startBytes) = some t ∧
    t.conns = afterThree.conns.set 1 ⟨startBytes, [startBytes], [], false, false, false⟩ ∧
    t.dispatched = [] ∧ t.recvBuf = frameStart := by
  obtain ⟨t, hstep, hconns, hdispatched, hbuf⟩ :=
    exists_step_data (s := afterThree) (c := 1) rfl rfl (by decide) List.prefix_rfl
  have hstart : afterThree.buffered startBytes = frameStart := decode_encode frameStart
  have hlines : completeLines frameStart = [] := by decide
  rw [hstart, hlines] at hdispatched
  rw [hstart, openTail_of_completeLines_nil hlines, if_neg (by decide)] at hbuf
  exact ⟨t, hstep, hconns, hdispatched, hbuf⟩

/-- The third publisher completes it. -/
theorem step_endBytes {t : Mt5TcpServer} (hbuf : t.recvBuf = frameStart)
    (hconn : t.conns[2]? = some ⟨endBytes, [], endBytes, false, false, false⟩) :
    ∃ s, step t (.data 2 endBytes) = some s ∧
      s.conns = t.conns.set 2 ⟨endBytes, [endBytes], [], false, false, false⟩ ∧
      s.dispatched = t.dispatched ++ [⟨2, startupJson.print, startupJson⟩] := by
  obtain ⟨s, hstep, hconns, hdispatched, -⟩ :=
    exists_step_data hconn rfl (by decide) List.prefix_rfl
  have hbuffered : t.buffered endBytes = startupJson.print ++ '\n' :: [] := by
    rw [buffered, hbuf, endBytes, decode_encode, ← frameStart_append_frameEnd, List.append_assoc]
  rw [hbuffered, completeLines_line (Json.newline_notMem_print _)] at hdispatched
  refine ⟨s, hstep, hconns, ?_⟩
  simpa [parsed, Json.parse_print] using hdispatched

/-- Neither what the second publisher sends nor what the third one sends contains
the whole frame. -/
theorem not_piece {k : Conn} (h : k.stream = [] ∨ k.stream = startBytes ∨ k.stream = endBytes)
    {pieces : List Bytes} (hline : startupJson.print = decodeAll pieces)
    (hpiece : pieces.flatten ++ [newline] <:+: k.stream) : False := by
  have hnewline : newline ∈ k.stream := hpiece.subset (by simp)
  rcases h with h | h | h
  · simp [h] at hnewline
  · rw [h] at hnewline
    exact absurd hnewline (by decide)
  · -- the frame starts with a brace, and the third publisher never sends that byte
    have hbrace : ∀ b ∈ endBytes, b.toNat ≠ '{'.toNat := by decide +kernel
    have hno : '{' ∉ decodeAll pieces := Ascii.notMem_decodeAll (by decide) fun b hb =>
      hbrace b (h ▸ hpiece.subset (List.mem_append_left _ hb))
    exact hno (hline ▸ by decide)

/-- **A frame made of two connections**: the start of it came from the second
publisher, the end from the third one. -/
theorem threePublishers_mixed : ∃ s,
    run step {} (threePublishers ++ [.data 1 startBytes, .data 2 endBytes]) = some s ∧
      s.dispatched = [⟨2, startupJson.print, startupJson⟩] ∧
      ∀ d ∈ s.dispatched, ¬ s.OneConnection d := by
  obtain ⟨t, hfirst, htconns, htdispatched, htbuf⟩ := step_startBytes
  obtain ⟨s, hsecond, hsconns, hsdispatched⟩ := step_endBytes htbuf (by rw [htconns]; rfl)
  rw [htdispatched, List.nil_append] at hsdispatched
  refine ⟨s, ?_, hsdispatched, ?_⟩
  · rw [run_append]
    refine ⟨_, run_threePublishers, ?_⟩
    rw [run_cons]
    refine ⟨t, hfirst, ?_⟩
    rw [run_cons]
    exact ⟨s, hsecond, rfl⟩
  · rw [hsdispatched]
    rintro d hd ⟨k, hk, pieces, hline, hpiece⟩
    obtain rfl := List.mem_singleton.mp hd
    refine not_piece ?_ hline hpiece
    rw [hsconns, htconns] at hk
    simp only [afterThree, List.set_cons_succ, List.set_cons_zero, List.mem_cons,
      List.not_mem_nil, or_false] at hk
    rcases hk with rfl | rfl | rfl
    · exact .inl rfl
    · exact .inr (.inl rfl)
    · exact .inr (.inr rfl)

end Mt5TcpServer

end AkronSlot.Slot
