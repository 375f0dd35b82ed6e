import AkronSlot.Systems.Runs

/-!
# The WebSocket proxy (`mt5-ws-proxy.ts`)

`handleWs` connects the socket of a browser with a second one, to KasmVNC, and pipes messages
both ways.  Two flags, the ready states of the sockets and four handlers for each decide what is
forwarded and who is closed.

## The sockets

They behave as those of `ws`: `send` throws while a socket is connecting; `close` aborts
a handshake, sends a close frame on an open socket and does nothing on any other one; an open
socket answers the close frame of its peer by itself; a failed socket emits 'error' and then
'close'.  A code that `close` does not accept makes it throw when the ready state has changed
and no frame was sent.

A side has closed for messages when its closing handshake has begun; it has closed or failed for
the other side when it emits 'close' or 'error'.

## What is asked of the proxy

`Piped` says what the proxy is for: what one side says reaches the other once, in order and
unchanged in its bytes, and when one side is gone the other is closed.  Two things break it, both
of them in the handlers.  A message before the upstream is open is dropped, as the handler looks
at the ready state and keeps nothing.  And the code of the upstream is passed on as it is, with
1005 or 1006 when it closed without a frame or without a code; `close` refuses these, after it
has changed the ready state, so that no close frame goes out.  `Cond` says that neither happens.

## Main Definitions

* `Socket`, `Socket.send`, `Socket.close`
* `Proxy`, `closeBoth` and the handlers
* `Event`, `step`
* `Piped` — what the proxy is for
* `Cond` — no early message, no refused code

## Main Results

* `Inv.step`
* `piped_iff_along`
-/

namespace AkronSlot.Slot

open Systems

namespace WsProxy

variable {M : Type}

/-! ## Sockets -/

/-- `readyState`. -/
inductive ReadyState where
  | connecting
  | open_
  | closing
  | closed
  deriving DecidableEq, Repr

/-- A socket: the messages that were sent on it, whether a close has been issued (the handshake
was aborted or a close frame sent), whether nothing more can be received, and whether it has
emitted 'close' or 'error'. -/
structure Socket (M : Type) where
  readyState : ReadyState
  sent : List M
  closeIssued : Bool
  silent : Bool
  ended : Bool
  deriving DecidableEq

/-- The codes that `close` accepts. -/
def ValidCode (code : ℕ) : Prop :=
  (1000 ≤ code ∧ code ≤ 1014 ∧ code ≠ 1004 ∧ code ≠ 1005 ∧ code ≠ 1006) ∨
    (3000 ≤ code ∧ code ≤ 4999)

instance (code : ℕ) : Decidable (ValidCode code) := inferInstanceAs (Decidable (_ ∨ _))

/-- `code || 1006`. -/
def closeCode (code : ℕ) : ℕ := if code = 0 then 1006 else code

namespace Socket

/-- A socket in a state. -/
def fresh (readyState : ReadyState) : Socket M := ⟨readyState, [], false, false, false⟩

/-- The closing handshake has begun. -/
def Down (s : Socket M) : Prop := s.readyState = .closing ∨ s.readyState = .closed

instance (s : Socket M) : Decidable s.Down := inferInstanceAs (Decidable (_ ∨ _))

/-- A close has been issued, or the socket has closed or failed. -/
def Settled (s : Socket M) : Prop := s.closeIssued = true ∨ s.ended = true

instance (s : Socket M) : Decidable s.Settled := inferInstanceAs (Decidable (_ ∨ _))

/-- `send`; `none` is an exception.  `M` is what a message says: the handlers take `data` and
leave `isBinary`, so a text message goes out as a binary one with the same bytes. -/
def send (s : Socket M) (data : M) : Option (Socket M) :=
  if s.readyState = .connecting then none
  else if s.readyState = .open_ then some { s with sent := s.sent ++ [data] }
  else some s

/-- `close`.  Every caller swallows the exception of a code that is not valid. -/
def close (s : Socket M) (code : Option ℕ) : Socket M :=
  match s.readyState with
  | .connecting => { s with readyState := .closing, closeIssued := true, silent := true }
  | .open_ =>
      { s with readyState := .closing, closeIssued := code.all fun c => decide (ValidCode c) }
  | .closing => s
  | .closed => s

/-- The handshake of the socket is done. -/
def opened (s : Socket M) : Socket M := { s with readyState := .open_ }

/-- The close frame of the peer has come; an open socket answers it. -/
def peerClosed (s : Socket M) : Socket M :=
  { s with
    readyState := .closing
    closeIssued := s.closeIssued || s.readyState = .open_
    silent := true }

/-- The socket has failed. -/
def failed (s : Socket M) : Socket M :=
  { s with readyState := .closing, silent := true, ended := true }

/-- The connection is gone. -/
def gone (s : Socket M) : Socket M :=
  { s with readyState := .closed, silent := true, ended := true }

/-- A frame of the peer can come. -/
def Hears (s : Socket M) : Prop :=
  (s.readyState = .open_ ∨ s.readyState = .closing) ∧ s.silent = false

instance (s : Socket M) : Decidable s.Hears := inferInstanceAs (Decidable (_ ∧ _))

end Socket

/-! ## The proxy -/

/-- The two sockets and flags.  What is due to a side are the messages that came from the other
one before either had closed. -/
structure Proxy (M : Type) where
  client : Socket M
  upstream : Socket M
  clientOpen : Bool
  upstreamOpen : Bool
  dueToClient : List M
  dueToUpstream : List M
  deriving DecidableEq

namespace Proxy

variable (s : Proxy M)

/-- `closeBoth`. -/
def closeBoth : Proxy M :=
  if s.clientOpen = false ∧ s.upstreamOpen = false then s
  else
    { s with
      client := s.client.close none
      upstream := s.upstream.close none
      clientOpen := false
      upstreamOpen := false }

/-- `upstream.on('open')`. -/
def onUpstreamOpen : Proxy M := { s with upstreamOpen := true }

/-- `upstream.on('close')`. -/
def onUpstreamClose (code : ℕ) : Proxy M :=
  if s.clientOpen then { s with client := s.client.close (some (closeCode code)) } else s

/-- `upstream.on('message')`. -/
def onUpstreamMessage (data : M) : Proxy M :=
  if s.clientOpen = false then s
  else if s.client.readyState = .open_ then
    match s.client.send data with
    | some client => { s with client := client }
    | none => s.closeBoth
  else s

/-- `client.on('message')`. -/
def onClientMessage (data : M) : Proxy M :=
  if s.upstreamOpen = false then s
  else if s.upstream.readyState = .open_ then
    match s.upstream.send data with
    | some upstream => { s with upstream := upstream }
    | none => s.closeBoth
  else s

/-- `client.on('close')`. -/
def onClientClose : Proxy M := { s with upstream := s.upstream.close none, clientOpen := false }

/-- Neither side has closed. -/
def BothUp : Prop := ¬ s.client.Down ∧ ¬ s.upstream.Down

instance : Decidable s.BothUp := inferInstanceAs (Decidable (_ ∧ _))

end Proxy

/-- What the sockets do. -/
inductive Event (M : Type) where
  | upstreamOpen
  | upstreamMessage (data : M)
  | upstreamPeerCloses
  | upstreamError
  | upstreamClose (code : ℕ)
  | clientMessage (data : M)
  | clientPeerCloses
  | clientError
  | clientClose (code : ℕ)
  deriving DecidableEq

/-- An event, if it can happen, and its handler. -/
def step (s : Proxy M) : Event M → Option (Proxy M)
  | .upstreamOpen =>
      if s.upstream.readyState = .connecting then
        some { s with upstream := s.upstream.opened }.onUpstreamOpen
      else none
  | .upstreamMessage data =>
      if s.upstream.Hears then
        some ({ s with
          dueToClient := if s.BothUp then s.dueToClient ++ [data] else s.dueToClient
          }.onUpstreamMessage data)
      else none
  | .upstreamPeerCloses =>
      if s.upstream.Hears then some { s with upstream := s.upstream.peerClosed } else none
  | .upstreamError =>
      if s.upstream.readyState ≠ .closed ∧ s.upstream.ended = false then
        some { s with upstream := s.upstream.failed }.closeBoth
      else none
  | .upstreamClose code =>
      if s.upstream.readyState = .open_ ∨ s.upstream.readyState = .closing then
        some ({ s with upstream := s.upstream.gone }.onUpstreamClose code)
      else none
  | .clientMessage data =>
      if s.client.Hears then
        some ({ s with
          dueToUpstream := if s.BothUp then s.dueToUpstream ++ [data] else s.dueToUpstream
          }.onClientMessage data)
      else none
  | .clientPeerCloses =>
      if s.client.Hears then some { s with client := s.client.peerClosed } else none
  | .clientError =>
      if s.client.readyState ≠ .closed ∧ s.client.ended = false then
        some { s with client := s.client.failed }.closeBoth
      else none
  | .clientClose _ =>
      if s.client.readyState = .open_ ∨ s.client.readyState = .closing then
        some { s with client := s.client.gone }.onClientClose
      else none

/-- A browser has connected, and the socket to KasmVNC is connecting. -/
def initial : Proxy M := ⟨.fresh .open_, .fresh .connecting, true, false, [], []⟩

/-! ## What the proxy is for -/

/-- Every message that came before either side had closed has been forwarded, once and in order;
when a side has closed or failed, a close has been issued on the other one, or that has closed
or failed too. -/
structure Piped (s : Proxy M) : Prop where
  toClient : s.client.sent = s.dueToClient
  toUpstream : s.upstream.sent = s.dueToUpstream
  afterClient : s.client.ended = true → s.upstream.Settled
  afterUpstream : s.upstream.ended = true → s.client.Settled

/-- The upstream is connected before the client says anything, and it does not close with a code
that an open client refuses. -/
def Cond (s : Proxy M) : Event M → Prop
  | .clientMessage _ => s.upstream.readyState ≠ .connecting
  | .upstreamClose code => s.client.readyState = .open_ → ValidCode (closeCode code)
  | _ => True

/-! ## The invariant -/

/-- The closing handshake of a socket has begun exactly when a close was issued on it or it has
closed or failed. -/
def Socket.Sound (s : Socket M) : Prop := s.Down ↔ s.Settled

/-- What holds while the conditions are met: each socket is sound, a socket that is down takes the
other one with it or is heard of, and each side has been sent what is due to it. -/
structure Inv (s : Proxy M) : Prop where
  soundClient : s.client.Sound
  soundUpstream : s.upstream.Sound
  connected : s.client.readyState ≠ .connecting
  upstreamOpen : s.upstream.readyState = .open_ → s.upstreamOpen = true
  clientOpen : s.clientOpen = false → s.client.Down ∧ s.upstream.Down
  endedClient : s.client.ended = true → s.upstream.Down
  endedUpstream : s.upstream.ended = true → s.client.Down
  hearsClient : s.client.Down → s.client.silent = false → s.upstream.Down
  hearsUpstream : s.upstream.Down → s.upstream.silent = false → s.client.Down
  toClient : s.client.sent = s.dueToClient
  toUpstream : s.upstream.sent = s.dueToUpstream

namespace Socket

variable {s : Socket M}

theorem Down.not_open (h : s.Down) : s.readyState ≠ .open_ := by
  rcases h with h | h <;> simp [h]

theorem Down.not_connecting (h : s.Down) : s.readyState ≠ .connecting := by
  rcases h with h | h <;> simp [h]

theorem not_down_of_open (h : s.readyState = .open_) : ¬ s.Down := fun hdown => hdown.not_open h

theorem not_down_of_connecting (h : s.readyState = .connecting) : ¬ s.Down :=
  fun hdown => hdown.not_connecting h

/-- `close` begins the handshake whatever it is given. -/
theorem down_close (code : Option ℕ) : (s.close code).Down := by
  cases h : s.readyState <;> simp [close, h, Down]

@[simp] theorem sent_close (code : Option ℕ) : (s.close code).sent = s.sent := by
  cases h : s.readyState <;> simp [close, h]

/-- `close` with a code that it accepts is a close that was issued. -/
theorem Sound.close (h : s.Sound) {code : Option ℕ}
    (hcode : s.readyState = .open_ → ∀ c ∈ code, ValidCode c) : (s.close code).Sound := by
  refine iff_of_true (down_close code) ?_
  cases hs : s.readyState with
  | connecting => exact .inl (by simp [Socket.close, hs])
  | open_ =>
      left
      cases code with
      | none => simp [Socket.close, hs]
      | some c => simp [Socket.close, hs, hcode hs c rfl]
  | closing =>
      have hsettled := h.mp (.inl hs)
      simpa only [Socket.close, hs] using hsettled
  | closed =>
      have hsettled := h.mp (.inr hs)
      simpa only [Socket.close, hs] using hsettled

theorem down_failed : s.failed.Down := .inl rfl

theorem sound_failed : s.failed.Sound := iff_of_true down_failed (.inr rfl)

theorem down_gone : s.gone.Down := .inr rfl

theorem sound_gone : s.gone.Sound := iff_of_true down_gone (.inr rfl)

theorem down_peerClosed : s.peerClosed.Down := .inl rfl

theorem Sound.peerClosed (h : s.Sound) (hears : s.Hears) : s.peerClosed.Sound := by
  refine iff_of_true down_peerClosed ?_
  rcases hears.1 with hopen | hclosing
  · exact .inl (by simp [Socket.peerClosed, hopen])
  · rcases h.mp (.inl hclosing) with hissued | hended
    · exact .inl (by simp [Socket.peerClosed, hissued])
    · exact .inr hended

end Socket

namespace Proxy

variable (s : Proxy M)

/-- An open upstream gets the message. -/
theorem onClientMessage_open {data : M} (hflag : s.upstreamOpen = true)
    (hopen : s.upstream.readyState = .open_) (due : List M) :
    { s with dueToUpstream := due }.onClientMessage data =
      { s with
        upstream := { s.upstream with sent := s.upstream.sent ++ [data] }
        dueToUpstream := due } := by
  simp [onClientMessage, hflag, hopen, Socket.send]

theorem onClientMessage_not_open {data : M} (hopen : s.upstream.readyState ≠ .open_)
    (due : List M) :
    { s with dueToUpstream := due }.onClientMessage data = { s with dueToUpstream := due } := by
  simp [onClientMessage, hopen]

/-- An open client gets the message. -/
theorem onUpstreamMessage_open {data : M} (hflag : s.clientOpen = true)
    (hopen : s.client.readyState = .open_) (due : List M) :
    { s with dueToClient := due }.onUpstreamMessage data =
      { s with
        client := { s.client with sent := s.client.sent ++ [data] }
        dueToClient := due } := by
  simp [onUpstreamMessage, hflag, hopen, Socket.send]

theorem onUpstreamMessage_not_open {data : M} (hopen : s.client.readyState ≠ .open_)
    (due : List M) :
    { s with dueToClient := due }.onUpstreamMessage data = { s with dueToClient := due } := by
  simp [onUpstreamMessage, hopen]

end Proxy

/-- A guarded event that happens. -/
theorem of_guard {c : Prop} [Decidable c] {s t : Proxy M}
    (h : (if c then some s else none) = some t) : c ∧ s = t := by
  obtain ⟨hc, heq⟩ := Option.ite_none_right_eq_some.mp h
  exact ⟨hc, Option.some.inj heq⟩

namespace Inv

variable {s : Proxy M}

theorem piped (h : Inv s) : Piped s where
  toClient := h.toClient
  toUpstream := h.toUpstream
  afterClient hended := h.soundUpstream.mp (h.endedClient hended)
  afterUpstream hended := h.soundClient.mp (h.endedUpstream hended)

theorem initial : Inv (initial : Proxy M) where
  soundClient := by simp [WsProxy.initial, Socket.fresh, Socket.Sound, Socket.Down, Socket.Settled]
  soundUpstream := by
    simp [WsProxy.initial, Socket.fresh, Socket.Sound, Socket.Down, Socket.Settled]
  connected := nofun
  upstreamOpen := nofun
  clientOpen := nofun
  endedClient := nofun
  endedUpstream := nofun
  hearsClient := by simp [WsProxy.initial, Socket.fresh, Socket.Down]
  hearsUpstream := by simp [WsProxy.initial, Socket.fresh, Socket.Down]
  toClient := rfl
  toUpstream := rfl

/-- When both sockets are down not much is left to say. -/
theorem of_down (hclient : s.client.Down) (hupstream : s.upstream.Down)
    (soundClient : s.client.Sound) (soundUpstream : s.upstream.Sound)
    (toClient : s.client.sent = s.dueToClient) (toUpstream : s.upstream.sent = s.dueToUpstream) :
    Inv s where
  soundClient := soundClient
  soundUpstream := soundUpstream
  connected := hclient.not_connecting
  upstreamOpen hopen := absurd hopen hupstream.not_open
  clientOpen _ := ⟨hclient, hupstream⟩
  endedClient _ := hupstream
  endedUpstream _ := hclient
  hearsClient _ _ := hupstream
  hearsUpstream _ _ := hclient
  toClient := toClient
  toUpstream := toUpstream

/-- `closeBoth` leaves both sockets down: if it returns at once, they were. -/
theorem closeBoth (hflag : s.clientOpen = false → s.client.Down ∧ s.upstream.Down)
    (soundClient : s.client.Sound) (soundUpstream : s.upstream.Sound)
    (toClient : s.client.sent = s.dueToClient) (toUpstream : s.upstream.sent = s.dueToUpstream) :
    Inv s.closeBoth := by
  unfold Proxy.closeBoth
  split_ifs with hflags
  · obtain ⟨hclient, hupstream⟩ := hflag hflags.1
    exact of_down hclient hupstream soundClient soundUpstream toClient toUpstream
  · refine of_down (Socket.down_close none) (Socket.down_close none) ?_ ?_ ?_ ?_
    · exact soundClient.close nofun
    · exact soundUpstream.close nofun
    · exact (Socket.sent_close none).trans toClient
    · exact (Socket.sent_close none).trans toUpstream

/-! ## Steps -/

variable (h : Inv s)

include h

theorem upstreamOpens (hconnecting : s.upstream.readyState = .connecting) :
    Inv { s with upstream := s.upstream.opened }.onUpstreamOpen := by
  have hup : ¬ s.upstream.Down := Socket.not_down_of_connecting hconnecting
  have hsettled : ¬ s.upstream.Settled := fun hsettled => hup (h.soundUpstream.mpr hsettled)
  have hopened : ¬ s.upstream.opened.Down := Socket.not_down_of_open rfl
  exact {
    soundClient := h.soundClient
    soundUpstream := iff_of_false hopened hsettled
    connected := h.connected
    upstreamOpen := fun _ => rfl
    clientOpen := fun hflag => absurd (h.clientOpen hflag).2 hup
    endedClient := fun hended => absurd (h.endedClient hended) hup
    endedUpstream := h.endedUpstream
    hearsClient := fun hdown hears => absurd (h.hearsClient hdown hears) hup
    hearsUpstream := fun hdown => absurd hdown hopened
    toClient := h.toClient
    toUpstream := h.toUpstream }

theorem upstreamErrs : Inv { s with upstream := s.upstream.failed }.closeBoth :=
  closeBoth (fun hflag => ⟨(h.clientOpen hflag).1, Socket.down_failed⟩) h.soundClient
    Socket.sound_failed h.toClient h.toUpstream

theorem clientErrs : Inv { s with client := s.client.failed }.closeBoth :=
  closeBoth (fun hflag => ⟨Socket.down_failed, (h.clientOpen hflag).2⟩) Socket.sound_failed
    h.soundUpstream h.toClient h.toUpstream

theorem clientCloses : Inv { s with client := s.client.gone }.onClientClose :=
  of_down Socket.down_gone (Socket.down_close none) Socket.sound_gone (h.soundUpstream.close nofun)
    h.toClient ((Socket.sent_close none).trans h.toUpstream)

theorem upstreamCloses {code : ℕ} (hcode : Cond s (.upstreamClose code)) :
    Inv ({ s with upstream := s.upstream.gone }.onUpstreamClose code) := by
  unfold Proxy.onUpstreamClose
  split_ifs with hflag
  · refine of_down (Socket.down_close _) Socket.down_gone (h.soundClient.close ?_) Socket.sound_gone
      ((Socket.sent_close _).trans h.toClient) h.toUpstream
    rintro hopen c hc
    obtain rfl := Option.some.inj hc
    exact hcode hopen
  · have hclosed : s.clientOpen = false := by simpa using hflag
    exact of_down (h.clientOpen hclosed).1 Socket.down_gone h.soundClient Socket.sound_gone
      h.toClient h.toUpstream

theorem upstreamPeerCloses (hears : s.upstream.Hears) :
    Inv { s with upstream := s.upstream.peerClosed } where
  soundClient := h.soundClient
  soundUpstream := h.soundUpstream.peerClosed hears
  connected := h.connected
  upstreamOpen hopen := absurd hopen Socket.down_peerClosed.not_open
  clientOpen hflag := ⟨(h.clientOpen hflag).1, Socket.down_peerClosed⟩
  endedClient _ := Socket.down_peerClosed
  endedUpstream := h.endedUpstream
  hearsClient _ _ := Socket.down_peerClosed
  hearsUpstream _ := nofun
  toClient := h.toClient
  toUpstream := h.toUpstream

theorem clientPeerCloses (hears : s.client.Hears) :
    Inv { s with client := s.client.peerClosed } where
  soundClient := h.soundClient.peerClosed hears
  soundUpstream := h.soundUpstream
  connected := Socket.down_peerClosed.not_connecting
  upstreamOpen := h.upstreamOpen
  clientOpen hflag := ⟨Socket.down_peerClosed, (h.clientOpen hflag).2⟩
  endedClient := h.endedClient
  endedUpstream _ := Socket.down_peerClosed
  hearsClient _ := nofun
  hearsUpstream _ _ := Socket.down_peerClosed
  toClient := h.toClient
  toUpstream := h.toUpstream

/-- A client that is heard while the upstream is up is up. -/
theorem bothUp_of_client (hears : s.client.Hears) (hup : ¬ s.upstream.Down) : s.BothUp :=
  ⟨fun hdown => hup (h.hearsClient hdown hears.2), hup⟩

theorem bothUp_of_upstream (hears : s.upstream.Hears) (hup : ¬ s.client.Down) : s.BothUp :=
  ⟨hup, fun hdown => hup (h.hearsUpstream hdown hears.2)⟩

/-- A message of the client reaches an open upstream; to one that is down it is not due. -/
theorem clientSays {data : M} (hears : s.client.Hears) (hcond : Cond s (.clientMessage data)) :
    Inv ({ s with
      dueToUpstream := if s.BothUp then s.dueToUpstream ++ [data] else s.dueToUpstream
      }.onClientMessage data) := by
  by_cases hopen : s.upstream.readyState = .open_
  · rw [if_pos (h.bothUp_of_client hears (Socket.not_down_of_open hopen)),
      s.onClientMessage_open (h.upstreamOpen hopen) hopen]
    exact { h with toUpstream := congrArg (· ++ [data]) h.toUpstream }
  · have hdown : s.upstream.Down := by
      cases hstate : s.upstream.readyState with
      | connecting => exact absurd hstate hcond
      | open_ => exact absurd hstate hopen
      | closing => exact .inl hstate
      | closed => exact .inr hstate
    rw [if_neg (fun hboth => hboth.2 hdown), s.onClientMessage_not_open hopen]
    exact h

/-- A message of the upstream reaches an open client; to one that is down it is not due. -/
theorem upstreamSays {data : M} (hears : s.upstream.Hears) :
    Inv ({ s with
      dueToClient := if s.BothUp then s.dueToClient ++ [data] else s.dueToClient
      }.onUpstreamMessage data) := by
  by_cases hopen : s.client.readyState = .open_
  · have hflag : s.clientOpen = true := by
      by_contra hclosed
      have hdown := (h.clientOpen (by simpa using hclosed)).1
      exact hdown.not_open hopen
    rw [if_pos (h.bothUp_of_upstream hears (Socket.not_down_of_open hopen)),
      s.onUpstreamMessage_open hflag hopen]
    exact { h with toClient := congrArg (· ++ [data]) h.toClient }
  · have hdown : s.client.Down := by
      cases hstate : s.client.readyState with
      | connecting => exact absurd hstate h.connected
      | open_ => exact absurd hstate hopen
      | closing => exact .inl hstate
      | closed => exact .inr hstate
    rw [if_neg (fun hboth => hboth.1 hdown), s.onUpstreamMessage_not_open hopen]
    exact h

/-- **The step lemma.** -/
theorem step {s' : Proxy M} {e : Event M} (hcond : Cond s e) (hstep : step s e = some s') :
    Inv s' := by
  cases e with
  | upstreamOpen =>
      obtain ⟨hconnecting, rfl⟩ := of_guard hstep
      exact h.upstreamOpens hconnecting
  | upstreamMessage data =>
      obtain ⟨hears, rfl⟩ := of_guard hstep
      exact h.upstreamSays hears
  | upstreamPeerCloses =>
      obtain ⟨hears, rfl⟩ := of_guard hstep
      exact h.upstreamPeerCloses hears
  | upstreamError =>
      obtain ⟨-, rfl⟩ := of_guard hstep
      exact h.upstreamErrs
  | upstreamClose code =>
      obtain ⟨-, rfl⟩ := of_guard hstep
      exact h.upstreamCloses hcond
  | clientMessage data =>
      obtain ⟨hears, rfl⟩ := of_guard hstep
      exact h.clientSays hears hcond
  | clientPeerCloses =>
      obtain ⟨hears, rfl⟩ := of_guard hstep
      exact h.clientPeerCloses hears
  | clientError =>
      obtain ⟨-, rfl⟩ := of_guard hstep
      exact h.clientErrs
  | clientClose code =>
      obtain ⟨-, rfl⟩ := of_guard hstep
      exact h.clientCloses

/-! ## The two defects -/

/-- A message that comes too early is due and not sent. -/
theorem not_piped_early {data : M} {s' : Proxy M}
    (hconnecting : s.upstream.readyState = .connecting)
    (hstep : WsProxy.step s (.clientMessage data) = some s') : ¬ Piped s' := by
  obtain ⟨hears, rfl⟩ := of_guard hstep
  intro hpiped
  have hup := Socket.not_down_of_connecting hconnecting
  have hsent := hpiped.toUpstream
  rw [if_pos (h.bothUp_of_client hears hup),
    s.onClientMessage_not_open (by rw [hconnecting]; nofun)] at hsent
  have hbefore : s.upstream.sent = s.dueToUpstream ++ [data] := hsent
  -- what is due has grown by the message, and nothing was sent
  have hlength := congrArg List.length hbefore
  rw [h.toUpstream, List.length_append, List.length_singleton] at hlength
  omega

/-- An open client on which `close` throws is not closed. -/
theorem not_piped_refused {code : ℕ} {s' : Proxy M} (hopen : s.client.readyState = .open_)
    (hcode : ¬ ValidCode (closeCode code))
    (hstep : WsProxy.step s (.upstreamClose code) = some s') : ¬ Piped s' := by
  obtain ⟨-, rfl⟩ := of_guard hstep
  intro hpiped
  have hup : ¬ s.client.Down := Socket.not_down_of_open hopen
  have hended : ¬ s.client.ended = true := fun hended => hup (h.soundClient.mpr (.inr hended))
  have hflag : s.clientOpen = true := by
    by_contra hclosed
    exact hup (h.clientOpen (by simpa using hclosed)).1
  have hsettled := hpiped.afterUpstream (by simp [Proxy.onUpstreamClose, hflag, Socket.gone])
  -- the handshake has begun for the client, and no close frame was sent
  simp [Proxy.onUpstreamClose, hflag, Socket.Settled, Socket.close, hopen, hcode,
    hended] at hsettled

end Inv

/-! ## Runs -/

/-- **The proxy does what it is for in every state of a run exactly when** no message of the
client comes while the upstream is connecting and the upstream never closes, with the client
open, with a code that `close` refuses. -/
theorem piped_iff_along {es : List (Event M)} {s : Proxy M} (hrun : run step initial es = some s) :
    (∀ before e after t t', es = before ++ e :: after → run step initial before = some t →
      step t e = some t' → Piped t') ↔ Along step Cond initial es := by
  refine @steps_iff_along_of_cond _ _ step (fun _ _ t' => Piped t') Cond Inv ?_ ?_ _ _ _ .initial
    hrun
  · intro s e s' h hstep
    refine ⟨fun hpiped => ?_, fun hcond => (h.step hcond hstep).piped⟩
    cases e with
    | clientMessage data =>
        exact fun hconnecting => h.not_piped_early hconnecting hstep hpiped
    | upstreamClose code =>
        exact fun hopen => by_contra fun hcode => h.not_piped_refused hopen hcode hstep hpiped
    | _ => trivial
  · exact fun s e s' h hcond hstep => h.step hcond hstep

/-! ## Three runs -/

/-- Both sides speak and the upstream closes. -/
def fullRun : List (Event ℕ) :=
  [.upstreamOpen, .clientMessage 1, .upstreamMessage 2, .upstreamClose 1000]

/-- The client speaks first. -/
def earlyRun : List (Event ℕ) := [.clientMessage 1]

/-- The upstream is lost without a close frame. -/
def lostRun : List (Event ℕ) := [.upstreamOpen, .upstreamClose 1006]

theorem fullRun_piped_iff :
    (∀ before e after t t', fullRun = before ++ e :: after → run step initial before = some t →
      step t e = some t' → Piped t') ↔ Along step Cond initial fullRun :=
  @piped_iff_along ℕ fullRun
    ⟨⟨.closing, [2], true, false, false⟩, ⟨.closed, [1], false, true, true⟩, true, true, [2], [1]⟩
    (by rfl)

/-- The message is dropped; the client stays half open. -/
theorem earlyRun_lostRun_not_piped :
    (∃ s, run step initial earlyRun = some s ∧ s.dueToUpstream = [1] ∧ s.upstream.sent = []) ∧
      ∃ s, run step initial lostRun = some s ∧ s.upstream.ended = true ∧ ¬ s.client.Settled :=
  ⟨⟨_, rfl, rfl, rfl⟩, _, rfl, rfl, by decide⟩

end WsProxy

end AkronSlot.Slot
