import AkronSlot.Slot.CommandLines
import AkronSlot.Slot.PendingCalls
import AkronSlot.Wire.Framing

/-!
# A response in chunks

A response line comes in chunks, and the client decodes each of them on its own,
keeps the open line in its buffer and destroys the socket when the buffer grows
too long.  Between the chunks anything may happen that does not end the wait of
the command: other commands, their timers, the callbacks of writes.

## What is delivered

`Delivers` is about a line and about chunks, and does not ask where the chunks come
from: that they hold the bytes of the line is a condition, and one about the text that
they are decoded to, chunk by chunk.  `Hands` states it: behind what the buffer holds,
that text is the line and nothing else that ends, and no chunk ends with more open than
the buffer may hold.  It is needed because every run has to deliver the line, and enough
because nothing else can touch the buffer of a socket that stays (`Reading`).

## Main Definitions

* `Arrives` — the runs in which the chunks come in
* `Delivers` — the line reaches the command, in each of these runs
* `Answers`, `Hands` — the conditions on the line and on the chunks

## Main Results

* `delivers_iff`
* `hands_ascii_iff` — the condition for an ASCII line that is sent as it is
-/

namespace AkronSlot.Slot

open Wire Wire.Utf8 Systems

namespace Mt5CommandClient

/-- An event that ends the wait of a command: its timer, a failed write, the end of
a connection or of the client. -/
def Event.endsWait (i : ℕ) : Event → Bool
  | .timeout j => j = i
  | .wrote j failure => j = i && failure.isSome
  | .error _ _ | .close _ | .destroy => true
  | _ => false

/-- A run in which these chunks come in on a socket and nothing ends the wait of a command.
Everything else is allowed in between, chunks of other sockets included. -/
def Arrives (s : Mt5CommandClient) (c i : ℕ) (chunks : List Bytes) (s' : Mt5CommandClient) :
    Prop :=
  ∃ es, run step s es = some s' ∧ (∀ e ∈ es, e.endsWait i = false) ∧
    es.flatMap (Event.chunksOn c) = chunks

/-- The line `frame` reaches a command.  `kept`: the socket stays.  `taken`: no chunk
makes the client throw.  `handed`: the handler hands on the frame and nothing else.
`fulfilled`: the command is fulfilled with the result of the frame. -/
structure Delivers (s : Mt5CommandClient) (c i : ℕ) (frame : Text) (chunks : List Bytes) :
    Prop where
  kept : ∀ arrived s', arrived <+: chunks → Arrives s c i arrived s' →
    ∃ k', s'.sockets[c]? = some k' ∧ k'.Live = true
  taken : ∀ arrived chunk s', arrived ++ [chunk] <+: chunks → Arrives s c i arrived s' →
    (s'.step (.data c chunk)).isSome = true
  handed : ∀ s', Arrives s c i chunks s' → ∃ k k', s.sockets[c]? = some k ∧
    s'.sockets[c]? = some k' ∧ k'.frames = k.frames ++ [frame]
  fulfilled : ∀ s', Arrives s c i chunks s' → ∃ call call' r, s.calls.made[i]? = some call ∧
    readResponse frame = some (call.id.text, r) ∧ r.ok = true ∧
    s'.calls.made[i]? = some call' ∧ call'.outcome = some (.ok r.result)

/-- A line that is a response to a command and reports success. A response that reports a failure
settles the command as well, but with an error. -/
def Answers (id : Uuid) (frame : Text) : Prop :=
  '\n' ∉ frame ∧ ∃ r, readResponse frame = some (id.text, r) ∧ r.ok = true

/-- What the chunks decode to goes on where the buffer ends, and makes the line, its
newline and no other newline; and no chunk ends with more than the buffer may hold open. -/
structure Hands (buf : Text) (chunks : List Bytes) (frame : Text) : Prop where
  line : ∃ rest, '\n' ∉ rest ∧ buf ++ decodeAll chunks = frame ++ '\n' :: rest
  short : ∀ begun, begun <+: chunks → begun ≠ [] →
    utf16Length (openTail (buf ++ decodeAll begun)) ≤ maxBuffered

theorem Hands.lines {buf frame : Text} {chunks : List Bytes} (h : Hands buf chunks frame)
    (hopen : '\n' ∉ frame) : completeLines (buf ++ decodeAll chunks) = [frame] :=
  completeLines_eq_singleton_iff.mpr ⟨hopen, h.line⟩

/-- Chunks without a newline hand on nothing. -/
theorem not_hands_of_open {buf : Text} (hbuf : '\n' ∉ buf) {chunks : List Bytes}
    (h : newline ∉ chunks.flatten) (frame : Text) : ¬ Hands buf chunks frame := by
  rintro ⟨⟨rest, -, hline⟩, -⟩
  have hmem : '\n' ∈ buf ++ decodeAll chunks :=
    hline ▸ List.mem_append_right _ List.mem_cons_self
  exact (List.mem_append.mp hmem).elim hbuf (newline_notMem_decodeAll h)

theorem utf16Length_le_of_infix {s t : Text} (h : s <:+: t) : utf16Length s ≤ utf16Length t := by
  obtain ⟨before, after, rfl⟩ := h
  rw [utf16Length_append, utf16Length_append]
  omega

/-- **A line of ASCII characters** that the buffer has room for needs an empty buffer
in front of it and nothing else, wherever it is cut. -/
theorem hands_ascii_iff {buf frame : Text} {chunks : List Bytes} (hopen : '\n' ∉ frame)
    (hascii : ∀ c ∈ frame, c.toNat < 0x80) (hroom : utf16Length (frame ++ ['\n']) ≤ maxBuffered)
    (hbytes : chunks.flatten = encode (frame ++ ['\n'])) (hbuf : '\n' ∉ buf) :
    Hands buf chunks frame ↔ buf = [] := by
  have hline : ∀ c ∈ frame ++ ['\n'], c.toNat < 0x80 :=
    List.forall_mem_append.mpr ⟨hascii, by simp⟩
  have htext : decodeAll chunks = frame ++ ['\n'] :=
    ReadFrom.eq_of_ascii hline ⟨chunks, hbytes, rfl⟩
  constructor
  · intro h
    have hlines := h.lines hopen
    have hno : '\n' ∉ buf ++ frame := by
      rw [List.mem_append, not_or]
      exact ⟨hbuf, hopen⟩
    rw [htext, ← List.append_assoc, completeLines_line hno] at hlines
    exact List.append_left_eq_self.mp (List.cons.inj hlines).1
  · rintro rfl
    refine ⟨⟨[], List.not_mem_nil, by rw [htext, List.nil_append]⟩, fun begun hbegun _ => ?_⟩
    have hstart : decodeAll begun <+: frame ++ ['\n'] := by
      obtain ⟨rest, rfl⟩ := hbegun
      rw [← htext]
      exact ⟨decodeAll rest, List.flatMap_append.symm⟩
    rw [List.nil_append]
    have hle : utf16Length (openTail (decodeAll begun)) ≤ utf16Length (frame ++ ['\n']) :=
      utf16Length_le_of_infix ((openTail_suffix _).isInfix.trans hstart.isInfix)
    exact hle.trans hroom

/-! ## Steps that do not end the wait -/

section Quiet

variable {s s' : Mt5CommandClient} {e : Event} {c i : ℕ}

/-- A chunk on a socket: its frames, whether it stays, and the buffer. -/
theorem step_data_socket {chunk : Bytes} {k : Socket} (h : s.step (.data c chunk) = some s')
    (hk : s.sockets[c]? = some k) :
    s'.recvBuf = openTail (s.buffered chunk) ∧ ∃ k', s'.sockets[c]? = some k' ∧
      k'.frames = k.frames ++ completeLines (s.buffered chunk) ∧
      (k'.Live = true ↔ utf16Length (openTail (s.buffered chunk)) ≤ maxBuffered) := by
  obtain ⟨k₀, hk₀, hlive, hdata⟩ := step_data.mp h
  obtain rfl := Option.some.inj (hk₀.symm.trans hk)
  refine ⟨step_recvBuf h, ?_⟩
  have hstill : (k₀.deliver chunk (completeLines (s.buffered chunk))).Live = true := hlive
  obtain ⟨calls, -, rfl⟩ := onData_eq_some hdata
  unfold dropOverflow
  split
  · next hlong =>
      refine ⟨(k₀.deliver chunk (completeLines (s.buffered chunk))).destroy, ?_, rfl, ?_⟩
      · simp [hk₀]
      · exact iff_of_false (by simp [Socket.Live, Socket.Up, Socket.destroy])
          (Nat.not_le_of_lt hlong)
  · next hshort =>
      refine ⟨k₀.deliver chunk (completeLines (s.buffered chunk)), ?_, rfl, ?_⟩
      · simp [hk₀]
      · exact iff_of_true hstill (Nat.le_of_not_lt hshort)

/-- What is neither a chunk nor an end leaves the socket and the buffer alone. -/
theorem quiet_socket {k : Socket} (h : s.step e = some s') (hquiet : e.endsWait i = false)
    (hdata : ∀ d chunk, e ≠ .data d chunk) (hk : s.sockets[c]? = some k) :
    s'.recvBuf = s.recvBuf ∧ ∃ k', s'.sockets[c]? = some k' ∧ k'.frames = k.frames ∧
      (k.Live = true → k'.Live = true) := by
  have hbuf := step_recvBuf h
  cases e with
  | data d chunk => exact absurd rfl (hdata d chunk)
  | error d message => simp [Event.endsWait] at hquiet
  | close d => simp [Event.endsWait] at hquiet
  | destroy => simp [Event.endsWait] at hquiet
  | execute j =>
      refine ⟨hbuf, ?_⟩
      obtain ⟨call, -, -, rfl⟩ := step_execute.mp h
      show ∃ k', (s.writeSock call.frame)[c]? = some k' ∧ _
      unfold writeSock
      split
      · exact ⟨k, hk, rfl, id⟩
      · rw [List.getElem?_modify, hk]
        refine ⟨_, rfl, ?_⟩
        split <;> exact ⟨rfl, id⟩
  | connected d =>
      refine ⟨hbuf, ?_⟩
      obtain ⟨k₀, hk₀, -, rfl⟩ := step_connected.mp h
      show ∃ k', (s.sockets.set d _)[c]? = some k' ∧ _
      by_cases hd : d = c
      · subst hd
        obtain rfl := Option.some.inj (hk₀.symm.trans hk)
        have hd := (List.getElem?_eq_some_iff.mp hk₀).1
        -- connecting leaves a live socket live
        refine ⟨{ k₀ with connected := true }, List.getElem?_set_self hd, rfl, fun hlive => ?_⟩
        simpa [Socket.Live, Socket.Up, Socket.Alive] using Socket.up_of_live hlive
      · exact ⟨k, by rw [List.getElem?_set_ne hd, hk], rfl, id⟩
  | reconnect =>
      refine ⟨hbuf, ?_⟩
      obtain ⟨-, rfl⟩ := step_reconnect.mp h
      unfold connect
      split
      · exact ⟨k, hk, rfl, id⟩
      · have hc := (List.getElem?_eq_some_iff.mp hk).1
        exact ⟨k, (List.getElem?_append_left hc).trans hk, rfl, id⟩
  | _ =>
      refine ⟨hbuf, ?_⟩
      rw [step_onCalls rfl h]
      exact ⟨k, hk, rfl, id⟩

/-- Another call changes. -/
theorem getElem?_update_ne (m : Calls) {j : ℕ} (h : j ≠ i) (f : Call → Call) :
    (m.update j f).made[i]? = m.made[i]? := by
  rw [Calls.getElem?_update]
  simp [h]

/-- A call that has begun is left alone, but for the callback of its write. -/
theorem quiet_call {call : Call} (h : s.step e = some s') (hquiet : e.endsWait i = false)
    (hdata : ∀ d chunk, e ≠ .data d chunk) (hcall : s.calls.made[i]? = some call)
    (hbegun : call.stage = .begun) :
    ∃ callback, s'.calls.made[i]? = some { call with callback } := by
  have hsame : s.calls.made[i]? = some { call with callback := call.callback } := hcall
  -- a call that has not begun is another one
  have hother : ∀ {j : ℕ} {d : Call}, s.calls.made[j]? = some d → d.stage ≠ .begun → j ≠ i := by
    rintro j d hd hstage rfl
    exact hstage (Option.some.inj (hd.symm.trans hcall) ▸ hbegun)
  cases e with
  | data d chunk => exact absurd rfl (hdata d chunk)
  | error d message => simp [Event.endsWait] at hquiet
  | close d => simp [Event.endsWait] at hquiet
  | destroy => simp [Event.endsWait] at hquiet
  | dispatch id action payload =>
      obtain ⟨-, rfl⟩ := step_dispatch.mp h
      have hi := (List.getElem?_eq_some_iff.mp hcall).1
      exact ⟨_, (List.getElem?_append_left hi).trans hsame⟩
  | ensured j =>
      obtain ⟨d, hd, ⟨hstage, -⟩, rfl⟩ := step_ensured.mp h
      have hne : j ≠ i := hother hd (by simp [hstage])
      exact ⟨_, (getElem?_update_ne s.calls hne _).trans hsame⟩
  | gaveUp j =>
      obtain ⟨d, hd, hstage, rfl⟩ := step_gaveUp.mp h
      have hne : j ≠ i := hother hd (by simp [hstage])
      exact ⟨_, (getElem?_update_ne s.calls hne _).trans hsame⟩
  | execute j =>
      obtain ⟨d, hd, hstage, rfl⟩ := step_execute.mp h
      have hne : j ≠ i := hother hd (by simp [hstage])
      exact ⟨_, (getElem?_update_ne (s.calls.set d.id.text j) hne _).trans hsame⟩
  | timeout j =>
      obtain ⟨d, -, -, rfl⟩ := step_timeout.mp h
      have hne : j ≠ i := by simpa [Event.endsWait] using hquiet
      exact ⟨_, (getElem?_update_ne (s.calls.delete d.id.text) hne _).trans hsame⟩
  | wrote j error =>
      obtain ⟨d, -, -, rfl⟩ := step_wrote.mp h
      cases error with
      | none =>
          show ∃ callback, (s.calls.update j _).made[i]? = _
          rw [Calls.getElem?_update, hcall]
          by_cases hj : j = i
          · exact ⟨false, by simp [hj, Call.callBack]⟩
          · exact ⟨call.callback, by simp [hj]⟩
      | some message =>
          have hne : j ≠ i := by simpa [Event.endsWait] using hquiet
          exact ⟨_, (getElem?_update_ne (s.calls.delete d.id.text) hne _).trans hsame⟩
  | connected d =>
      obtain ⟨k, -, -, rfl⟩ := step_connected.mp h
      exact ⟨_, hsame⟩
  | reconnect =>
      obtain ⟨-, rfl⟩ := step_reconnect.mp h
      unfold connect
      split <;> exact ⟨_, hsame⟩

end Quiet

/-! ## Arrivals -/

section Arrival

variable {s s' s'' : Mt5CommandClient} {c i : ℕ} {arrived : List Bytes}

theorem Arrives.step {e : Event} (h : Arrives s c i arrived s') (hstep : s'.step e = some s'')
    (hquiet : e.endsWait i = false) : Arrives s c i (arrived ++ e.chunksOn c) s'' := by
  obtain ⟨es, hrun, hes, rfl⟩ := h
  refine ⟨es ++ [e], ?_, ?_, by simp⟩
  · rw [run_append]
    exact ⟨s', hrun, (run_cons _).mpr ⟨s'', hstep, rfl⟩⟩
  · simpa [or_imp, forall_and] using ⟨hes, hquiet⟩

/-- **The invariant rule for arrivals.** -/
theorem Arrives.induct {P : List Bytes → Mt5CommandClient → Prop} (hinit : P [] s)
    (hstep : ∀ arrived s' e s'', P arrived s' → e.endsWait i = false → s'.step e = some s'' →
      P (arrived ++ e.chunksOn c) s'')
    (h : Arrives s c i arrived s') : P arrived s' := by
  obtain ⟨es, hrun, hes, rfl⟩ := h
  induction es using List.reverseRecOn generalizing s' with
  | nil =>
      obtain rfl := Option.some.inj hrun
      exact hinit
  | append_singleton es e ih =>
      obtain ⟨t, ht, he⟩ := (run_append _).mp hrun
      obtain ⟨u, hu, hnil⟩ := (run_cons _).mp he
      obtain rfl := Option.some.inj hnil
      have hlast := hstep _ t e u (ih ht fun e he => hes e (List.mem_append_left _ he))
        (hes e (by simp)) hu
      simpa using hlast

end Arrival

/-! ## What the conditions are needed for -/

section Needed

variable {s : Mt5CommandClient} {c i : ℕ} {k : Socket} {frame : Text} {chunks : List Bytes}

/-- As long as the line is delivered, the chunks come in one after the other. -/
theorem Delivers.exists_arrival (h : s.Delivers c i frame chunks) (hopen : '\n' ∉ s.recvBuf)
    (hk : s.sockets[c]? = some k) {arrived : List Bytes} (harrived : arrived <+: chunks) :
    ∃ s' k', Arrives s c i arrived s' ∧ s'.sockets[c]? = some k' ∧
      s'.recvBuf = openTail (s.recvBuf ++ decodeAll arrived) ∧
      k'.frames = k.frames ++ completeLines (s.recvBuf ++ decodeAll arrived) ∧
      (arrived ≠ [] → utf16Length s'.recvBuf ≤ maxBuffered) := by
  induction arrived using List.reverseRecOn with
  | nil =>
      have hlines := completeLines_of_notMem hopen
      refine ⟨s, k, ⟨[], rfl, by simp, rfl⟩, hk, ?_, ?_, by simp⟩
      · simp [decodeAll, openTail_of_completeLines_nil hlines]
      · simp [decodeAll, hlines]
  | append_singleton arrived chunk ih =>
      obtain ⟨t, l, harr, hl, hbuf, hframes, -⟩ := ih ((List.prefix_append _ _).trans harrived)
      obtain ⟨s', hstep⟩ := Option.isSome_iff_exists.mp (h.taken _ _ _ harrived harr)
      have hnext : Arrives s c i (arrived ++ [chunk]) s' := by
        simpa [Event.chunksOn] using harr.step hstep rfl
      obtain ⟨hbuf', k', hk', hframes', hlive⟩ := step_data_socket hstep hl
      have hbuffered : t.buffered chunk =
          openTail (s.recvBuf ++ decodeAll arrived) ++ decode chunk := by rw [buffered, hbuf]
      rw [hbuffered, ← openTail_append, List.append_assoc, ← decodeAll_concat] at hbuf'
      refine ⟨s', k', hnext, hk', hbuf', ?_, fun _ => ?_⟩
      · rw [hframes', hframes, hbuffered, List.append_assoc, ← completeLines_append,
          List.append_assoc, decodeAll_concat]
      · obtain ⟨k'', hk'', hup⟩ := h.kept _ _ harrived hnext
        obtain rfl := Option.some.inj (hk'.symm.trans hk'')
        rw [step_recvBuf hstep]
        exact hlive.mp hup

/-- A line that is delivered meets the conditions. -/
theorem Delivers.conditions (h : s.Delivers c i frame chunks) (hopen : '\n' ∉ s.recvBuf)
    (hk : s.sockets[c]? = some k) {call : Call} (hcall : s.calls.made[i]? = some call) :
    Answers call.id frame ∧ Hands s.recvBuf chunks frame := by
  obtain ⟨s', k', harr, hk', -, hframes, -⟩ :=
    h.exists_arrival hopen hk (List.prefix_refl chunks)
  have hline : completeLines (s.recvBuf ++ decodeAll chunks) = [frame] := by
    obtain ⟨l, l', hl, hl', hhanded⟩ := h.handed s' harr
    obtain rfl := Option.some.inj (hk.symm.trans hl)
    obtain rfl := Option.some.inj (hk'.symm.trans hl')
    exact List.append_cancel_left (hframes.symm.trans hhanded)
  obtain ⟨hone, hrest⟩ := completeLines_eq_singleton_iff.mp hline
  refine ⟨⟨hone, ?_⟩, hrest, fun begun hbegun hne => ?_⟩
  · obtain ⟨call₀, -, r, hcall₀, hread, hok, -⟩ := h.fulfilled s' harr
    obtain rfl := Option.some.inj (hcall.symm.trans hcall₀)
    exact ⟨r, hread, hok⟩
  · obtain ⟨t, -, -, -, hbuf, -, hshort⟩ := h.exists_arrival hopen hk hbegun
    rw [← hbuf]
    exact hshort hne

end Needed

/-! ## What the conditions are enough for -/

/-- In a tracked map, a response to a command that waits settles it. -/
theorem dispatchFrame_waiting {m : Calls} (h : m.Tracked) {i : ℕ} {call : Call}
    (hcall : m.made[i]? = some call) (htimer : call.timer = true) {frame : Text} {r : ResponseFrame}
    (hread : readResponse frame = some (call.id.text, r)) (hok : r.ok = true) :
    m.dispatchFrame frame = some ((m.delete call.id.text).update i fun c =>
      c.clearTimeout.settle (.ok r.result)) := by
  have hmem : (call.id.text, i) ∈ m.pending := (h.mem_pending _).mpr ⟨call, hcall, htimer, rfl⟩
  have hsettle : Slot.settle r = .ok r.result := by rw [Slot.settle, if_pos hok]
  cases hfind : m.pending.find? (·.1 = call.id.text) with
  | none =>
      have hmissing := List.find?_eq_none.mp hfind _ hmem
      simp at hmissing
  | some e =>
      obtain ⟨key, j⟩ := e
      obtain ⟨d, hd, -, hkey⟩ := (h.mem_pending _).mp (List.mem_of_find?_eq_some hfind)
      have hid : key = call.id.text := by simpa using List.find?_some hfind
      obtain rfl := h.distinct _ _ d call hd hcall (hkey.trans hid)
      simp only [Calls.dispatchFrame, hread, hfind, ResponseFrame.settles, hok, Bool.true_or,
        if_true, hsettle]

/-- The state of the client when `t` is the text that has come in on a socket, and was
in the buffer before: the line is not complete in it, or it is the only one. -/
structure Reading (c i : ℕ) (id : Uuid) (frames : List Text) (r : ResponseFrame) (t : Text)
    (s : Mt5CommandClient) : Prop where
  sound : s.calls.Sound fun _ _ => True
  connecting : s.OneConnecting
  socket : ∃ k, s.sockets[c]? = some k ∧ k.Live = true ∧ k.frames = frames ++ completeLines t
  buffer : s.recvBuf = openTail t
  call : ∃ call, s.calls.made[i]? = some call ∧ call.id = id ∧ call.stage = .begun ∧
    (if completeLines t = [] then call.timer = true ∧ call.outcome = none
      else call.outcome = some (.ok r.result))

section Enough

variable {s s' : Mt5CommandClient} {c i : ℕ} {id : Uuid} {frames : List Text} {r : ResponseFrame}
  {frame t : Text} {chunk : Bytes}

/-- What the lines of the next chunk do to the call. -/
theorem Reading.lines (h : Reading c i id frames r t s)
    (hread : readResponse frame = some (id.text, r)) (hok : r.ok = true)
    (ht : completeLines (t ++ decode chunk) <+: [frame]) :
    ∃ calls, (completeLines (openTail t ++ decode chunk)).foldlM Calls.dispatchFrame s.calls =
        some calls ∧
      ∃ call, calls.made[i]? = some call ∧ call.id = id ∧ call.stage = .begun ∧
        (if completeLines (t ++ decode chunk) = [] then call.timer = true ∧ call.outcome = none
          else call.outcome = some (.ok r.result)) := by
  obtain ⟨call, hcall, hid, hbegun, hstate⟩ := h.call
  rw [completeLines_append t] at ht ⊢
  by_cases hopen : completeLines t = []
  · rw [hopen, List.nil_append] at ht ⊢
    rw [if_pos hopen] at hstate
    rcases List.prefix_cons_iff.mp ht with hnone | ⟨ls, hls, hnil⟩
    · -- the line goes on
      rw [hnone]
      refine ⟨s.calls, rfl, call, hcall, hid, hbegun, ?_⟩
      rw [if_pos rfl]
      exact hstate
    · -- the line ends with this chunk
      obtain rfl := List.prefix_nil.mp hnil
      rw [hls]
      subst hid
      have hsettled := dispatchFrame_waiting h.sound.tracked hcall hstate.1 hread hok
      refine ⟨(s.calls.delete call.id.text).update i fun c =>
        c.clearTimeout.settle (.ok r.result), ?_,
        call.clearTimeout.settle (.ok r.result), ?_, rfl, hbegun, ?_⟩
      · rw [List.foldlM_cons, hsettled]
        rfl
      · rw [Calls.getElem?_update]
        show s.calls.made[i]?.map _ = _
        simp [hcall]
      · rw [if_neg (List.cons_ne_nil _ _)]
        simp [Call.settle, Call.clearTimeout, hstate.2]
  · -- the line is over, and there is no other
    have hnone : completeLines (openTail t ++ decode chunk) = [] := by
      have hlength := ht.length_le
      have hpos := List.length_pos_iff.mpr hopen
      rw [List.length_append, List.length_singleton] at hlength
      exact List.length_eq_zero_iff.mp (by omega)
    rw [if_neg hopen] at hstate
    rw [hnone, List.append_nil]
    refine ⟨s.calls, rfl, call, hcall, hid, hbegun, ?_⟩
    rw [if_neg hopen]
    exact hstate

theorem Reading.buffered (h : Reading c i id frames r t s) (chunk : Bytes) :
    s.buffered chunk = openTail t ++ decode chunk := by
  rw [Mt5CommandClient.buffered, h.buffer]

/-- The next chunk can be taken. -/
theorem Reading.taken (h : Reading c i id frames r t s)
    (hread : readResponse frame = some (id.text, r)) (hok : r.ok = true)
    (ht : completeLines (t ++ decode chunk) <+: [frame]) :
    (s.step (.data c chunk)).isSome = true := by
  obtain ⟨calls, hcalls, -⟩ := h.lines hread hok ht
  obtain ⟨k, hk, hlive, -⟩ := h.socket
  simp [step, onSocket, onData, hk, hlive, h.buffered, hcalls]

/-- The next chunk comes in. -/
theorem Reading.data (h : Reading c i id frames r t s)
    (hread : readResponse frame = some (id.text, r)) (hok : r.ok = true)
    (ht : completeLines (t ++ decode chunk) <+: [frame])
    (hshort : utf16Length (openTail (t ++ decode chunk)) ≤ maxBuffered)
    (hstep : s.step (.data c chunk) = some s') :
    Reading c i id frames r (t ++ decode chunk) s' := by
  obtain ⟨calls, hcalls, hcall⟩ := h.lines hread hok ht
  obtain ⟨k, hk, -, hframes⟩ := h.socket
  obtain ⟨hbuf, k', hk', hframes', hlive⟩ := step_data_socket hstep hk
  rw [h.buffered] at hbuf hframes' hlive
  have hafter : s'.calls = calls := by
    obtain ⟨-, -, -, hdata⟩ := step_data.mp hstep
    obtain ⟨calls', hcalls', rfl⟩ := onData_eq_some hdata
    rw [h.buffered, hcalls] at hcalls'
    obtain rfl := Option.some.inj hcalls'
    unfold dropOverflow
    split <;> rfl
  refine ⟨?_, h.connecting.step hstep, ⟨k', hk', ?_, ?_⟩, ?_, hafter ▸ hcall⟩
  · exact sound_step h.sound hstep fun _ _ _ _ _ _ => trivial
  · rw [hlive, ← openTail_append]
    exact hshort
  · rw [hframes', hframes, List.append_assoc, ← completeLines_append]
  · rw [hbuf, ← openTail_append]

/-- Something else happens. -/
theorem Reading.quiet (h : Reading c i id frames r t s) {e : Event} (hquiet : e.endsWait i = false)
    (hdata : ∀ d chunk, e ≠ .data d chunk) (hstep : s.step e = some s') :
    Reading c i id frames r t s' := by
  obtain ⟨k, hk, hlive, hframes⟩ := h.socket
  obtain ⟨call, hcall, hid, hbegun, hstate⟩ := h.call
  obtain ⟨hbuf, k', hk', hframes', hlive'⟩ := quiet_socket hstep hquiet hdata hk
  obtain ⟨callback, hcall'⟩ := quiet_call hstep hquiet hdata hcall hbegun
  refine ⟨sound_step h.sound hstep fun _ _ _ _ _ _ => trivial, h.connecting.step hstep,
    ⟨k', hk', hlive' hlive, hframes'.trans hframes⟩, hbuf.trans h.buffer,
    { call with callback }, hcall', hid, hbegun, hstate⟩

end Enough

section Exact

variable {s : Mt5CommandClient} {c i : ℕ} {k : Socket} {call : Call} {frame : Text}
  {chunks : List Bytes}

/-- The lines that are complete after some chunks are the first ones of all. -/
theorem completeLines_prefix (buf : Text) {begun : List Bytes} (h : begun <+: chunks) :
    completeLines (buf ++ decodeAll begun) <+: completeLines (buf ++ decodeAll chunks) := by
  obtain ⟨rest, rfl⟩ := h
  have hsplit : decodeAll (begun ++ rest) = decodeAll begun ++ decodeAll rest :=
    List.flatMap_append
  rw [hsplit, ← List.append_assoc, completeLines_append (buf ++ decodeAll begun)]
  exact List.prefix_append _ _

/-- What has come in, along any arrival of chunks that hand on the line. -/
theorem reading_of_arrives {id : Uuid} {r : ResponseFrame} {frames : List Text} {buf : Text}
    (hinit : Reading c i id frames r buf s) (hread : readResponse frame = some (id.text, r))
    (hok : r.ok = true) (hopen : '\n' ∉ frame) (hands : Hands buf chunks frame)
    {arrived : List Bytes} {s' : Mt5CommandClient} (h : Arrives s c i arrived s') :
    arrived <+: chunks → Reading c i id frames r (buf ++ decodeAll arrived) s' := by
  refine h.induct (P := fun arrived s' => arrived <+: chunks →
    Reading c i id frames r (buf ++ decodeAll arrived) s') ?_ ?_
  · intro _
    rw [show decodeAll [] = [] from rfl, List.append_nil]
    exact hinit
  · intro arrived t e t' ih hquiet hstep harrived
    have hnow := ih ((List.prefix_append _ _).trans harrived)
    by_cases hdata : ∃ d chunk, e = .data d chunk
    · obtain ⟨d, chunk, rfl⟩ := hdata
      -- the chunk came on this socket, the only one that is alive
      have hd : d = c := by
        obtain ⟨l, hl, hlive, -⟩ := step_data.mp hstep
        obtain ⟨k, hk, hklive, -⟩ := hnow.socket
        exact hnow.connecting.unique hl hk (Socket.alive_of_up (Socket.up_of_live hlive))
          (Socket.alive_of_up (Socket.up_of_live hklive))
      subst hd
      have hone : Event.chunksOn d (.data d chunk) = [chunk] := by simp [Event.chunksOn]
      rw [hone] at harrived ⊢
      have hlines := completeLines_prefix buf harrived
      have hshort := hands.short _ harrived (List.append_ne_nil_of_right_ne_nil _ (by simp))
      rw [hands.lines hopen, decodeAll_concat, ← List.append_assoc] at hlines
      rw [decodeAll_concat, ← List.append_assoc] at hshort ⊢
      exact hnow.data hread hok hlines hshort hstep
    · have hother : ∀ d chunk, e ≠ .data d chunk := fun d chunk he => hdata ⟨d, chunk, he⟩
      have hnone : e.chunksOn c = [] := by
        cases e with
        | data d chunk => exact absurd rfl (hother d chunk)
        | _ => rfl
      rw [hnone, List.append_nil]
      exact hnow.quiet hquiet hother hstep

/-- **A response is delivered exactly if** it answers the command, and the chunks hand
on the response behind what is in the buffer. -/
theorem delivers_iff {es : List Event} (hrun : run Mt5CommandClient.step initial es = some s)
    (hk : s.sockets[c]? = some k) (hlive : k.Live = true) (hcall : s.calls.made[i]? = some call)
    (hwritten : call.written = true) (htimer : call.timer = true) :
    s.Delivers c i frame chunks ↔ Answers call.id frame ∧ Hands s.recvBuf chunks frame := by
  have hbuffering : s.Buffering :=
    run_invariant (fun _ _ _ hs h => Buffering.step hs h) buffering_initial hrun
  refine ⟨fun h => h.conditions hbuffering.noNewline hk hcall, ?_⟩
  rintro ⟨⟨hopen, r, hread, hok⟩, hands⟩
  have hsound := sound_of_run hrun
  have hlawful := hsound.tracked.lawful_at hcall
  have hnone := completeLines_of_notMem hbuffering.noNewline
  have hinit : Reading c i call.id k.frames r s.recvBuf s := by
    refine ⟨⟨hsound.tracked, fun d hd result hresult => ?_⟩, hbuffering.connecting,
      ⟨k, hk, hlive, by rw [hnone, List.append_nil]⟩, (openTail_of_completeLines_nil hnone).symm,
      call, hcall, rfl, hlawful.begun_of_timer htimer, ?_⟩
    · obtain ⟨r, -, hr⟩ := hsound.fulfilled d hd result hresult
      exact ⟨r, trivial, hr⟩
    · rw [if_pos hnone]
      exact ⟨htimer, hlawful.open_of_timer hwritten htimer⟩
  -- what holds after each of the chunks
  have hall := fun {arrived : List Bytes} {s' : Mt5CommandClient} (h : Arrives s c i arrived s') =>
    reading_of_arrives hinit hread hok hopen hands h
  refine ⟨fun arrived s' harrived h => ?_, fun arrived chunk s' harrived h => ?_,
    fun s' h => ?_, fun s' h => ?_⟩
  · obtain ⟨k', hk', hlive', -⟩ := (hall h harrived).socket
    exact ⟨k', hk', hlive'⟩
  · have hlines := completeLines_prefix s.recvBuf harrived
    rw [hands.lines hopen, decodeAll_concat, ← List.append_assoc] at hlines
    exact (hall h ((List.prefix_append _ _).trans harrived)).taken hread hok hlines
  · obtain ⟨k', hk', -, hframes⟩ := (hall h (List.prefix_refl _)).socket
    refine ⟨k, k', hk, hk', ?_⟩
    rw [hframes, hands.lines hopen]
  · obtain ⟨call', hcall', -, -, hstate⟩ := (hall h (List.prefix_refl _)).call
    rw [hands.lines hopen, if_neg (List.cons_ne_nil _ _)] at hstate
    exact ⟨call, call', r, hcall, hread, hok, hcall', hstate⟩

end Exact

end Mt5CommandClient

end AkronSlot.Slot
