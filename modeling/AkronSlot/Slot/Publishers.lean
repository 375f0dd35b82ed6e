import AkronSlot.Slot.Streams

/-!
# What several publishers can rely on

Several publishers share the port of the TCP server.  A frame that a publisher
has sent is dispatched if it arrives, in chunks that cut no character, before
the next publisher connects; what is in flight at that moment is discarded with
the connection, although the publisher's write succeeded.

## Two views of a connection

A publisher knows that a `send` has returned, the slot what it has parsed. Between them are the
bytes in flight, and a rule of the server that the publishers do not know of: a new connection
destroys the one before, with all that is on its way. `Accounted` divides what was sent on a
connection into what is parsed, what is in flight and what is not a frame yet. Nothing can be
missing from this sum as long as no step throws bytes away, and `Undisturbed` lists the steps
that would.

## Main Definitions

* `framesOf` — the frames in the bytes that a publisher sent
* `HandedOver` — everything sent has been dispatched once nothing is in flight
* `Undisturbed` — a step that discards no frame

## Main Results

* `handedOver_of_undisturbed`
-/

namespace AkronSlot.Slot

open Wire Wire.Utf8 Systems

namespace Mt5TcpServer

/-- The values of the complete lines of some bytes, decoded as a whole. This is what a publisher
means by what it sends, whatever the chunks. -/
def framesOf (bytes : Bytes) : List Json := (completeLines (decode bytes)).filterMap Json.parse

/-- The values that came from a connection. -/
def handed (s : Mt5TcpServer) (i : ℕ) : List Json :=
  (s.dispatched.filter (·.conn = i)).map (·.value)

/-- Nothing is in flight. -/
def Quiet (s : Mt5TcpServer) : Prop := ∀ k ∈ s.conns, k.inFlight = []

/-- When nothing is in flight, the frames sent on a connection that its publisher has not closed
have been dispatched, each of them once. A publisher that hangs up does not learn what became of
the rest. -/
def HandedOver (s : Mt5TcpServer) : Prop :=
  s.Quiet → ∀ i k, s.conns[i]? = some k → k.ended = false → s.handed i = framesOf k.sent

/-- A step that costs no publisher a frame.  A connection is accepted when no
other one is open but the one in `this.sock`; nobody has the end of a frame in
flight, or sends one, on a connection that is destroyed; a chunk ends between
characters; and what it leaves in the buffer fits. -/
def Undisturbed (s : Mt5TcpServer) : Event → Prop
  | .connect => ∀ i k, s.conns[i]? = some k → k.destroyed = false →
      s.sock = some i ∧ (k.ended = false → newline ∉ k.inFlight)
  | .stop => ∀ i k, s.conns[i]? = some k → s.sock = some i → k.ended = false →
      newline ∉ k.inFlight
  | .send c bytes => ∀ k, s.conns[c]? = some k → k.destroyed = true → newline ∉ bytes
  | .data _ chunk => Whole chunk ∧ utf16Length (openTail (s.buffered chunk)) ≤ recvBufMax
  | _ => True

/-! ## Frames of bytes -/

theorem framesOf_append {as : Bytes} (h : Whole as) (bs : Bytes) :
    framesOf (as ++ bs) = framesOf as ++
      (completeLines (openTail (decode as) ++ decode bs)).filterMap Json.parse := by
  rw [framesOf, decode_append h, completeLines_append, List.filterMap_append, framesOf]

/-- Bytes without a newline complete no frame. -/
theorem framesOf_append_of_notMem {as bs : Bytes} (h : Whole as) (hno : newline ∉ bs) :
    framesOf (as ++ bs) = framesOf as := by
  rw [framesOf, decode_append h, completeLines_append_of_notMem (newline_notMem_decode hno),
    framesOf]

theorem framesOf_frameBytes (v : Json) : framesOf (frameBytes v) = [v] := by
  rw [framesOf, decode_frameBytes, completeLines_line (Json.newline_notMem_print v)]
  simp [Json.parse_print]

theorem map_value_parsed (c : ℕ) (lines : List Text) :
    (parsed c lines).map (·.value) = lines.filterMap Json.parse := by
  simp [parsed, List.map_filterMap, Option.map_map, Function.comp_def]

/-! ## What becomes of the bytes of one connection -/

/-- The bytes sent on a connection are delivered, in flight, or complete no frame;
those of a publisher that has closed its end do not matter. -/
structure Accounted (k : Conn) : Prop where
  live : k.destroyed = false → k.sent = k.stream ++ k.inFlight
  lost : k.destroyed = true → k.ended = false →
    ∃ rest, newline ∉ rest ∧ k.sent = k.stream ++ rest

theorem Accounted.destroy {k : Conn} (h : Accounted k)
    (hflight : k.destroyed = false → k.ended = false → newline ∉ k.inFlight) :
    Accounted k.destroy where
  live hlive := by simp [Conn.destroy] at hlive
  lost _ hended := by
    cases hk : k.destroyed with
    | false => exact ⟨k.inFlight, hflight hk hended, h.live hk⟩
    | true => exact h.lost hk hended

theorem Accounted.send {k : Conn} (h : Accounted k) {bytes : Bytes} (hended : k.ended = false)
    (hno : k.destroyed = true → newline ∉ bytes) : Accounted (k.send bytes) where
  live hlive := by
    have hlive : k.destroyed = false := hlive
    simp [Conn.send, hlive, h.live hlive, Conn.stream]
  lost hdestroyed _ := by
    obtain ⟨rest, hrest, hsent⟩ := h.lost hdestroyed hended
    refine ⟨rest ++ bytes, by simp [hrest, hno hdestroyed], ?_⟩
    simp [Conn.send, hsent, Conn.stream]

theorem Accounted.finish {k : Conn} (h : Accounted k) : Accounted k.finish where
  live := h.live
  lost _ hended := by simp [Conn.finish] at hended

theorem Accounted.close {k : Conn} (h : Accounted k) : Accounted k.close := ⟨h.live, h.lost⟩

theorem Accounted.deliver {k : Conn} (h : Accounted k) {chunk : Bytes}
    (hlive : k.destroyed = false) (hstart : chunk <+: k.inFlight) :
    Accounted (k.deliver chunk) where
  live _ := by
    obtain ⟨rest, hrest⟩ := hstart
    simp [Conn.deliver, Conn.stream, h.live hlive, ← hrest]
  lost hdestroyed := by
    have hdestroyed : k.destroyed = true := hdestroyed
    simp [hlive] at hdestroyed

/-- A step accounts for the bytes of every connection that was there. -/
theorem accounted_step {s s' : Mt5TcpServer} {e : Event} (h : s.step e = some s')
    (hcalm : s.Undisturbed e) {i : ℕ} {k : Conn} (hi : s.conns[i]? = some k) (hk : Accounted k) :
    Accounted (s.connAfter e i k) := by
  cases e with
  | connect =>
      simp only [connAfter]
      split
      -- the publisher that is displaced has no frame in flight
      · exact hk.destroy fun hlive => (hcalm i k hi hlive).2
      · exact hk
  | stop =>
      simp only [connAfter]
      split
      · next hsock => exact hk.destroy fun _ => hcalm i k hi hsock
      · exact hk
  | send c bytes =>
      obtain ⟨k', hk', hended, -⟩ := step_send.mp h
      simp only [connAfter]
      split
      · next hc =>
          subst hc
          obtain rfl := Option.some.inj (hk'.symm.trans hi)
          exact hk.send hended (hcalm k' hi)
      · exact hk
  | finish c =>
      simp only [connAfter]
      split
      · exact hk.finish
      · exact hk
  | data c chunk =>
      obtain ⟨k', hk', hlive, -, hstart, -⟩ := step_data.mp h
      simp only [connAfter]
      split
      · next hc =>
          subst hc
          obtain rfl := Option.some.inj (hk'.symm.trans hi)
          exact hk.deliver hlive hstart
      · exact hk
  | hangUp c =>
      obtain ⟨k', hk', hended, -⟩ := step_hangUp.mp h
      simp only [connAfter]
      split
      · next hc =>
          subst hc
          obtain rfl := Option.some.inj (hk'.symm.trans hi)
          -- only a publisher that has closed its end hangs up
          exact hk.destroy fun _ hopen => absurd (hopen.symm.trans hended) (by simp)
      · exact hk
  | close c =>
      simp only [connAfter]
      split
      · exact hk.close
      · exact hk
  | _ => exact hk

/-! ## Runs -/

/-- What holds as long as nobody is disturbed: every connection is accounted for, only the one in
`this.sock` is open, and the buffer holds the open line of that one. -/
structure InOrder (s : Mt5TcpServer) : Prop where
  newest : s.NewestOpen
  whole : ∀ (i : ℕ) (k : Conn), s.conns[i]? = some k → Whole k.stream
  accounted : ∀ (i : ℕ) (k : Conn), s.conns[i]? = some k → Accounted k
  buffer : ∀ (i : ℕ) (k : Conn), s.conns[i]? = some k → k.destroyed = false →
    s.recvBuf = openTail (decode k.stream)
  handed_eq : ∀ (i : ℕ) (k : Conn), s.conns[i]? = some k → s.handed i = framesOf k.stream
  tags : ∀ d ∈ s.dispatched, d.conn < s.conns.length

/-- In an orderly state everything sent has been handed over, once it is quiet. -/
theorem InOrder.handedOver {s : Mt5TcpServer} (hs : s.InOrder) : s.HandedOver := by
  intro hquiet i k hk hended
  rw [hs.handed_eq i k hk]
  cases hlive : k.destroyed with
  | false =>
      have hnone : k.inFlight = [] := hquiet k (List.mem_of_getElem? hk)
      rw [(hs.accounted i k hk).live hlive, hnone, List.append_nil]
  | true =>
      obtain ⟨rest, hno, hsent⟩ := (hs.accounted i k hk).lost hlive hended
      rw [hsent, framesOf_append_of_notMem (hs.whole i k hk) hno]

theorem inOrder_initial : InOrder {} where
  newest i hi := by simp [Open] at hi
  whole i k hk := by simp at hk
  accounted i k hk := by simp at hk
  buffer i k hk := by simp at hk
  handed_eq i k hk := by simp at hk
  tags d hd := by simp at hd

theorem conn_of_mem_parsed {c : ℕ} {lines : List Text} {d : Dispatched}
    (h : d ∈ parsed c lines) : d.conn = c := by
  obtain ⟨l, -, hd⟩ := List.mem_filterMap.mp h
  obtain ⟨v, -, rfl⟩ := Option.map_eq_some_iff.mp hd
  rfl

/-- What a chunk hands over. -/
theorem handed_parsed (s : Mt5TcpServer) (c : ℕ) (lines : List Text) (j : ℕ)
    {s' : Mt5TcpServer} (h : s'.dispatched = s.dispatched ++ parsed c lines) :
    s'.handed j = s.handed j ++ if c = j then lines.filterMap Json.parse else [] := by
  rw [handed, h, List.filter_append, List.map_append, handed]
  congr 1
  by_cases hj : c = j
  · subst hj
    rw [if_pos rfl, List.filter_eq_self.mpr fun d hd => decide_eq_true (conn_of_mem_parsed hd),
      map_value_parsed]
  · rw [if_neg hj, List.filter_eq_nil_iff.mpr fun d hd => by simp [conn_of_mem_parsed hd, hj]]
    rfl

/-- Nothing has come from a connection that is not there yet. -/
theorem InOrder.handed_new {s : Mt5TcpServer} (hs : s.InOrder) {i : ℕ}
    (hi : s.conns.length ≤ i) : s.handed i = [] := by
  rw [handed, List.filter_eq_nil_iff.mpr, List.map_nil]
  intro d hd
  have := hs.tags d hd
  simp only [decide_eq_true_eq]
  omega

/-- A step that delivers nothing. -/
theorem InOrder.step_of_not_data {s s' : Mt5TcpServer} {e : Event} (hs : s.InOrder)
    (hcalm : s.Undisturbed e) (h : s.step e = some s') (hdata : ∀ c chunk, e ≠ .data c chunk)
    (hnewest : s'.NewestOpen) : s'.InOrder := by
  have heffect := step_effect h
  have hdispatched : s'.dispatched = s.dispatched := heffect.dispatched hdata
  have hhanded : ∀ i, s'.handed i = s.handed i := fun i => by rw [handed, hdispatched, handed]
  have hstream : ∀ i k, (s.connAfter e i k).stream = k.stream := by
    intro i k
    rw [connAfter_stream]
    cases e with
    | data c chunk => exact absurd rfl (hdata c chunk)
    | _ => exact List.append_nil _
  refine ⟨hnewest, ?whole, ?accounted, ?buffer, ?handed, ?tags⟩
  case whole =>
    intro i k' hk'
    obtain ⟨k, hk, rfl⟩ | ⟨-, -, rfl⟩ := conn_before h hk'
    · rw [hstream]
      exact hs.whole i k hk
    · exact whole_nil
  case accounted =>
    intro i k' hk'
    obtain ⟨k, hk, rfl⟩ | ⟨-, -, rfl⟩ := conn_before h hk'
    · exact accounted_step h hcalm hk (hs.accounted i k hk)
    · exact ⟨fun _ => rfl, fun hdestroyed => by simp at hdestroyed⟩
  case buffer =>
    intro i k' hk' hlive
    rw [heffect.recvBuf hdata]
    obtain ⟨k, hk, rfl⟩ | ⟨rfl, -, rfl⟩ := conn_before h hk'
    · have hold : i < s.conns.length := (List.getElem?_eq_some_iff.mp hk).1
      have hlast := hnewest i ⟨_, hk', hlive⟩
      rw [heffect.length] at hlast
      split at hlast
      · omega
      · next hconnect =>
          rw [if_neg hconnect, hstream]
          -- what is open now was open before
          obtain ⟨k₁, hk₁, hlive₁⟩ := heffect.open_before hold ⟨_, hk', hlive⟩
          obtain rfl := Option.some.inj (hk₁.symm.trans hk)
          exact hs.buffer i k₁ hk hlive₁
    · rfl
  case handed =>
    intro i k' hk'
    rw [hhanded]
    obtain ⟨k, hk, rfl⟩ | ⟨-, hi, rfl⟩ := conn_before h hk'
    · rw [hstream]
      exact hs.handed_eq i k hk
    · exact hs.handed_new hi.ge
  case tags =>
    intro d hd
    rw [hdispatched] at hd
    have := hs.tags d hd
    rw [heffect.length]
    split <;> omega

/-- A chunk that ends between characters: its lines are those of the stream. -/
theorem InOrder.step_of_data {s s' : Mt5TcpServer} {c : ℕ} {chunk : Bytes} (hs : s.InOrder)
    (hwhole : Whole chunk) (hfits : utf16Length (openTail (s.buffered chunk)) ≤ recvBufMax)
    (h : s.step (.data c chunk) = some s') (hnewest : s'.NewestOpen) : s'.InOrder := by
  have hlen : s'.conns.length = s.conns.length := (step_effect h).length
  obtain ⟨k, hk, hlive, -, hstart, hs'⟩ := step_data.mp h
  have hbuffered : s.buffered chunk = openTail (decode k.stream) ++ decode chunk := by
    rw [buffered, hs.buffer c k hk hlive]
  have hconns : s'.conns = s.conns.set c (k.deliver chunk) := by rw [hs', onData_conns]
  have hbuf : s'.recvBuf = openTail (s.buffered chunk) := by
    rw [hs', onData_recvBuf]
    exact if_neg (Nat.not_lt.mpr hfits)
  have hdispatched : s'.dispatched = s.dispatched ++
      parsed c (completeLines (s.buffered chunk)) := by rw [hs', onData_dispatched]; rfl
  have hstream : (k.deliver chunk).stream = k.stream ++ chunk := by
    simp [Conn.stream, Conn.deliver]
  have hk' : s'.conns[c]? = some (k.deliver chunk) := by
    rw [hconns]
    simp [(List.getElem?_eq_some_iff.mp hk).1]
  have hother : ∀ i, i ≠ c → s'.conns[i]? = s.conns[i]? := by
    intro i hi
    rw [hconns, List.getElem?_set_ne hi.symm]
  refine ⟨hnewest, ?whole, ?accounted, ?buffer, ?handed, ?tags⟩
  case whole =>
    intro i k₁ hk₁
    by_cases hi : i = c
    · subst hi
      obtain rfl := Option.some.inj (hk'.symm.trans hk₁)
      exact hstream ▸ (hs.whole i k hk).append hwhole
    · exact hs.whole i k₁ (hother i hi ▸ hk₁)
  case accounted =>
    intro i k₁ hk₁
    by_cases hi : i = c
    · subst hi
      obtain rfl := Option.some.inj (hk'.symm.trans hk₁)
      exact (hs.accounted i k hk).deliver hlive hstart
    · exact hs.accounted i k₁ (hother i hi ▸ hk₁)
  case buffer =>
    intro i k₁ hk₁ hlive₁
    -- the newest connection alone is open, and it is the one that is read
    have hi : i + 1 = s'.conns.length := hnewest i ⟨k₁, hk₁, hlive₁⟩
    have hc : c + 1 = s'.conns.length := hnewest c ⟨_, hk', hlive⟩
    obtain rfl : i = c := by omega
    obtain rfl := Option.some.inj (hk'.symm.trans hk₁)
    rw [hbuf, hbuffered, hstream, decode_append (hs.whole i k hk), ← openTail_append]
  case handed =>
    intro i k₁ hk₁
    rw [handed_parsed s c _ i hdispatched]
    by_cases hi : i = c
    · subst hi
      obtain rfl := Option.some.inj (hk'.symm.trans hk₁)
      rw [if_pos rfl, hs.handed_eq i k hk, hstream, framesOf_append (hs.whole i k hk), hbuffered]
    · rw [if_neg (Ne.symm hi), List.append_nil]
      exact hs.handed_eq i k₁ (hother i hi ▸ hk₁)
  case tags =>
    intro d hd
    rw [hdispatched, List.mem_append] at hd
    rcases hd with hd | hd
    · exact hlen ▸ hs.tags d hd
    · rw [conn_of_mem_parsed hd, hlen]
      exact (List.getElem?_eq_some_iff.mp hk).1

/-- **The step lemma**: a step that disturbs nobody leaves everything in order. -/
theorem inOrder_step {s s' : Mt5TcpServer} {e : Event} (hs : s.InOrder) (hcalm : s.Undisturbed e)
    (h : s.step e = some s') : s'.InOrder := by
  have halone : s.AcceptsAlone e := by
    rintro rfl i ⟨k, hk, hlive⟩
    exact (hcalm i k hk hlive).1
  have hnewest : s'.NewestOpen := hs.newest.step halone h
  by_cases hdata : ∃ c chunk, e = .data c chunk
  · obtain ⟨c, chunk, rfl⟩ := hdata
    exact hs.step_of_data hcalm.1 hcalm.2 h hnewest
  · exact hs.step_of_not_data hcalm h (fun c chunk he => hdata ⟨c, chunk, he⟩) hnewest

/-- **Every frame that was sent is dispatched, once**, in every run that disturbs no publisher. A
publisher is disturbed when another one connects, since that destroys its socket with whatever is
on the way. -/
theorem handedOver_of_undisturbed {es : List Event} {s : Mt5TcpServer}
    (hcalm : Along step Undisturbed {} es) (hrun : run step {} es = some s) : s.HandedOver := by
  have hstep : ∀ s e s', InOrder s → Undisturbed s e → step s e = some s' → InOrder s' :=
    fun _ _ _ hs hc h => inOrder_step hs hc h
  exact (run_along_invariant hstep inOrder_initial hcalm hrun).handedOver

theorem lateClose_handedOver : ∃ s,
    run step {} (lateClose ++ [.data 1 (frameBytes startupJson)]) = some s ∧
      s.Quiet ∧ s.handed 1 = [startupJson] ∧ s.HandedOver := by
  obtain ⟨hlines, htail⟩ := lines_frameBytes (s := afterLateClose) rfl 1 startupJson
  obtain ⟨s, hstep, hconns, hdispatched, -⟩ := exists_step_data (s := afterLateClose) (c := 1)
    rfl rfl (frameBytes_ne_nil startupJson) List.prefix_rfl
  have hrun : run step {} (lateClose ++ [.data 1 (frameBytes startupJson)]) = some s := by
    rw [run_append]
    exact ⟨_, run_lateClose, by rw [run_cons]; exact ⟨s, hstep, rfl⟩⟩
  refine ⟨s, hrun, ?quiet, ?handed, handedOver_of_undisturbed ?_ hrun⟩
  case quiet =>
    rw [Quiet, hconns]
    simp [afterLateClose, Conn.deliver]
  case handed =>
    rw [handed, hdispatched, hlines]
    simp [afterLateClose]
  rw [lateClose, List.cons_append, List.cons_append, List.cons_append, List.cons_append,
    along_cons _ rfl, along_cons _ rfl, along_cons _ rfl, along_cons _ rfl]
  refine ⟨fun i k hk => ?_, fun i k hk _ => ?_, trivial, fun k hk => ?_, ⟨?_, ?_⟩,
    fun _ _ => trivial⟩
  · simp at hk
  · have hi : i < 1 := (List.getElem?_eq_some_iff.mp hk).1
    obtain rfl := Nat.lt_one_iff.mp hi
    obtain rfl := Option.some.inj hk
    exact ⟨rfl, fun _ => List.not_mem_nil⟩
  · obtain rfl := Option.some.inj hk
    intro hdestroyed
    simp at hdestroyed
  · exact whole_encode _
  · exact htail ▸ Nat.zero_le _

/-- A publisher sends a frame, and another one connects before it has arrived. -/
def displaced : List Event := [.connect, .send 0 (frameBytes startupJson), .connect]

/-- **The frame is lost**: it was sent, nothing is in flight, and nothing has been
dispatched. -/
theorem displaced_loses_frame : ∃ s, run step {} displaced = some s ∧ s.Quiet ∧
    s.dispatched = [] ∧
    (∃ k, s.conns[0]? = some k ∧ k.ended = false ∧ framesOf k.sent = [startupJson]) ∧
    ¬ s.HandedOver := by
  have hquiet : Quiet { conns := [⟨frameBytes startupJson, [], [], false, true, false⟩, {}] } := by
    simp [Quiet]
  have hframes := framesOf_frameBytes startupJson
  refine ⟨_, rfl, hquiet, rfl, ⟨_, rfl, rfl, hframes⟩, fun hhanded => ?_⟩
  have hall := hhanded hquiet 0 _ rfl rfl
  exact absurd (hall.trans hframes) (by simp [handed, handleConnection])

end Mt5TcpServer

end AkronSlot.Slot
