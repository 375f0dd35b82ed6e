import AkronSlot.Slot.AccountRefs
import AkronSlot.Slot.Auth
import AkronSlot.Slot.EventStreams
import AkronSlot.Wire.Utf8

/-!
# The sessions of `/v1/stream` (`ws.ts`)

A session is one upgraded socket and the call of the handler for it.  The handler awaits
`authenticate`, then subscribes, puts its handlers on the socket and loops over
`connector.stream`.  Whatever the socket does meanwhile comes in between: its closing
handshake, 'close', 'error', a `send` that throws.

## The handler and its generator

A `for await` asks for one value at a time; it calls `return` and waits for it when its body
breaks.  The `EventBus` has the generator; a session tells it what to do, and `history`
keeps what it was told, so that what holds of every run of the bus holds here too.  The
invariant `Inv` is about pairs: `Fits` says how a handler and its consumer go together, with
`Loop` for the places where each can be.  An 'error' before the handlers are there is left
out: Node would end the process.

## A close that nobody hears

The handlers of 'close' and 'error' are put on the socket after the `await`.  A socket that
closes during it emits 'close' to no one, and `ws.send` does not throw on it, so the handler
subscribes and waits.  Such a session is an `Orphan`.  Only a value ends it: the loop finds
the socket closed and breaks.  What is left then is a fixed list of moves, `wayOut`; a
`Leaver` is a session with some of them behind it, and `leaver_step` is the one lemma about
it that goes through every event.

## Main Definitions

* `tokenOf`, `authorize`
* `Session`, `Sessions`, `step`
* `Loop`, `Fits`, `Inv` — the invariant
* `Orphan`, `wayOut`, `Leaver`

## Main Results

* `inv_of_run`
* `session_delivers`
* `leaver_moves`, `leaver_step`, `leaver_run`
* `orphan_leaves`
-/

namespace AkronSlot.Slot.StreamSessions

open Wire Systems EventBus

/-! ## The token of the URL -/

/-- The value of a hexadecimal digit. -/
def hexByte? (b : UInt8) : Option ℕ := hexValue? (Char.ofNat b.toNat)

/-- Percent-decoding: a `%` without two digits stands for itself. -/
def percentDecode : Bytes → Bytes
  | [] => []
  | b :: bs =>
      match bs with
      | high :: low :: rest =>
          match hexByte? high, hexByte? low with
          | some x, some y =>
              if b = 0x25 then UInt8.ofNat (16 * x + y) :: percentDecode rest
              else b :: percentDecode (high :: low :: rest)
          | _, _ => b :: percentDecode (high :: low :: rest)
      | [low] => b :: percentDecode [low]
      | [] => [b]

/-- A name or a value of a query. -/
def formDecode (t : Text) : Text :=
  Utf8.decode (percentDecode (Utf8.encode (t.map fun c => if c = '+' then ' ' else c)))

/-- `new URLSearchParams(qs)`. -/
def searchParams (qs : Text) : List (Text × Text) :=
  let start := if qs.head? = some '?' then qs.tail else qs
  ((start.splitOn '&').filter (· ≠ [])).map fun piece =>
    (formDecode (piece.takeWhile (· ≠ '=')), formDecode (piece.dropWhile (· ≠ '=')).tail)

/-- `params.get('token')`, with the query behind the first `?`. -/
def tokenOf (url : Text) : Option Text :=
  ((searchParams (url.dropWhile (· ≠ '?')).tail).find? (·.1 = "token".toList)).map Prod.snd

/-! ## The gate -/

/-- What `authenticate` works with, beside the accounts. -/
structure Gate where
  jwtVerify : JwtVerify
  jwtSecret : Text
  slotId : Text

/-- Why a session is refused. Its socket is sent one error frame, if it can be, and its handler
returns. -/
inductive Refusal where
  | auth (p : AuthProblem)
  | account (p : Problem)

def missingToken : AuthProblem where
  status := 401
  code := "UNAUTHENTICATED"
  title := "Missing token"
  detail := some "WebSocket auth: ?token=<jwt> query parameter required".toList

/-- The options of `authenticate`. -/
def Gate.opts (g : Gate) (deps : Deps) : VerifyOpts where
  secret := .text g.jwtSecret
  expectedTenantId := some deps.tenantId
  expectedSlotId := some g.slotId
  requiredScopes := some [.stream]

/-- `authenticate`. -/
def authenticate (g : Gate) (deps : Deps) (now : ℤ) (url : Text) : Except AuthProblem Claims :=
  match tokenOf url with
  | none | some [] => .error missingToken
  | some token => verifyToken g.jwtVerify now token (g.opts deps)

/-- `authenticate`, and then `resolveAccountRef`. A session is let in when both succeed, with the
reference it is to be told of. -/
def authorize (g : Gate) (deps : Deps) (now : ℤ) (url : Text) : Except Refusal Text :=
  match authenticate g deps now url with
  | .error p => .error (.auth p)
  | .ok _ =>
      match Ws.resolveAccountRef deps with
      | .error p => .error (.account p)
      | .ok ref => .ok ref

/-! ## Sessions -/

/-- What is sent on a socket. -/
inductive Frame where
  | error (r : Refusal)
  | event (e : BrokerEvent)
  | ping

/-- Where the handler of a session is. -/
inductive Stage where
  /-- It awaits `authenticate`. -/
  | authenticating
  /-- It has sent an error and returned. -/
  | refused
  /-- It awaits a value of the stream. -/
  | streaming
  /-- It has left the loop and awaits `return`. -/
  | leaving
  /-- It is through `finally`. -/
  | finished
  deriving DecidableEq

/-- A socket and its handler: the number of its consumer on the bus, whether its ready state
is `OPEN`, where the handler was when it emitted 'close', what was sent on it, and whether
the timer of the pings runs. -/
structure Session where
  url : Text
  stage : Stage := .authenticating
  consumer : Option ℕ := none
  isOpen : Bool := true
  closed : Option Stage := none
  sent : List Frame := []
  pinging : Bool := false

namespace Session

/-- `ws.send`: a socket that is not open takes nothing. -/
def send (σ : Session) (f : Frame) : Session :=
  if σ.isOpen then { σ with sent := σ.sent ++ [f] } else σ

/-- The events that were sent. -/
def events (σ : Session) : List BrokerEvent :=
  σ.sent.filterMap fun
    | .event e => some e
    | _ => none

/-- The error frame and the close of a refused session. -/
def refuse (σ : Session) (r : Refusal) : Session :=
  { σ.send (.error r) with stage := .refused, isOpen := false }

/-- The session subscribes. -/
def subscribe (σ : Session) (n : ℕ) : Session :=
  { σ with stage := .streaming, consumer := some n, pinging := true }

/-- The end of the handler, through `finally`. -/
def finish (σ : Session) : Session :=
  { σ with stage := .finished, isOpen := false, pinging := false }

/-- The handlers of 'close' and 'error' are on the socket. -/
def attached (σ : Session) : Bool := σ.consumer.isSome

end Session

/-- The bus of the connector, what it was told, and the sessions. The history is kept so that what
a session has received can be compared with what was emitted. -/
structure Sessions where
  bus : Bus := {}
  history : List EventBus.Event := []
  sessions : List Session := []

/-- What can happen next. -/
inductive Event where
  /-- A socket is upgraded. -/
  | upgrade (url : Text)
  /-- `authenticate` is through. -/
  | authenticated (i : ℕ) (deps : Deps) (now : ℤ)
  | emit (e : BrokerEvent) (ref : Text)
  /-- The generator of a session goes on after its `await`. -/
  | resume (i : ℕ)
  /-- A value arrives; `thrown` says whether a `send` of it throws. -/
  | deliver (i : ℕ) (thrown : Bool)
  /-- The generator of a session goes on after a `return`. -/
  | unwind (i : ℕ)
  /-- The loop of a session is over. -/
  | ended (i : ℕ)
  /-- The timer of the pings goes off. -/
  | ping (i : ℕ) (thrown : Bool)
  /-- A closing handshake begins. -/
  | closing (i : ℕ)
  /-- The socket emits 'close'. -/
  | closed (i : ℕ)
  /-- The socket emits 'error'. -/
  | error (i : ℕ)

namespace Sessions

/-- The bus is told something. -/
def tell (s : Sessions) (told : List EventBus.Event) : Option Sessions :=
  (run EventBus.step s.bus told).map ({ s with bus := ·, history := s.history ++ told })

/-- One session changes, and tells the bus something. -/
def onSession (s : Sessions) (i : ℕ) (change : Session → Option (Session × List EventBus.Event)) :
    Option Sessions :=
  (s.sessions[i]?.bind change).bind fun r => { s with sessions := s.sessions.set i r.1 }.tell r.2

/-- `cleanup`, if there is a stream. -/
def cleanup (σ : Session) : List EventBus.Event :=
  σ.consumer.toList.map (.act · .abort)

/-- The value that a consumer is about to get. -/
def value (s : Sessions) (n : ℕ) : Option BrokerEvent :=
  s.bus.consumers[n]?.bind fun c =>
    match c.phase with
    | .yielding e => some e
    | _ => none

/-- The iterator of a consumer is done. -/
def isDone (s : Sessions) (n : ℕ) : Bool :=
  s.bus.consumers[n]?.any fun c =>
    match c.phase with
    | .done => true
    | _ => false

/-- A value arrives in the loop. -/
def arrive (σ : Session) (n : ℕ) (e : BrokerEvent) (thrown : Bool) :
    Session × List EventBus.Event :=
  if σ.isOpen && !thrown then (σ.send (.event e), [.act n .deliver, .act n .pull])
  else ({ σ with stage := .leaving }, [.act n .deliver, .act n .ret])

variable (g : Gate)

/-- The sessions take a step. -/
def step (s : Sessions) : Event → Option Sessions
  | .upgrade url => some { s with sessions := s.sessions ++ [{ url }] }
  | .authenticated i deps now =>
      s.onSession i fun σ =>
        if σ.stage = .authenticating then
          match authorize g deps now σ.url with
          | .error r => some (σ.refuse r, [])
          | .ok ref =>
              let n := s.bus.consumers.length
              some (σ.subscribe n, [.stream ref, .act n .pull])
        else none
  | .emit e ref => s.tell [.emit e ref]
  | .resume i => s.onSession i fun σ => σ.consumer.map fun n => (σ, [.act n .resume])
  | .deliver i thrown =>
      s.onSession i fun σ =>
        if σ.stage = .streaming then
          σ.consumer.bind fun n => (s.value n).map (arrive σ n · thrown)
        else none
  | .unwind i => s.onSession i fun σ => σ.consumer.map fun n => (σ, [.act n .unwind])
  | .ended i =>
      s.onSession i fun σ =>
        if (σ.stage = .streaming ∨ σ.stage = .leaving) ∧ σ.consumer.any s.isDone then
          some (σ.finish, cleanup σ)
        else none
  | .ping i thrown =>
      s.onSession i fun σ =>
        if σ.pinging then some (if thrown then σ else σ.send .ping, []) else none
  | .closing i => s.onSession i fun σ => some ({ σ with isOpen := false }, [])
  | .closed i =>
      s.onSession i fun σ =>
        if σ.closed.isNone then
          some ({ σ with isOpen := false, closed := some σ.stage }, cleanup σ)
        else none
  | .error i =>
      s.onSession i fun σ =>
        if σ.attached && σ.closed.isNone then some ({ σ with isOpen := false }, cleanup σ) else none

end Sessions

/-! ## The invariant -/

/-- What the loop of a handler and its iterator can be at, with what was asked. -/
inductive Loop : Stage → Phase → List Request → Prop
  | waiting : Loop .streaming .awaiting [.next]
  | woken (ev : Option BrokerEvent) : Loop .streaming (.resolved ev) [.next]
  | handed (e : BrokerEvent) : Loop .streaming (.yielding e) [.next]
  | over : Loop .streaming .done []
  | returning : Loop .leaving .returning [.ret]
  | left : Loop .leaving .done []
  | finished : Loop .finished .done []

/-- A session and its consumer.  `granted`: it was let in, to its account.  `events`: what
was sent is what was received; the value at which the loop was left may be missing.
`dropped`: when the socket has emitted 'close' to its handlers, or the handler is through,
the signal is aborted.  `aborted`: nothing else ends the iterator. -/
structure Fits (g : Gate) (σ : Session) (c : Consumer) : Prop where
  granted : ∃ deps now, authorize g deps now σ.url = .ok c.ref
  loop : Loop σ.stage c.phase c.requests
  events : σ.events <+: c.received
  exact : σ.stage = .streaming → σ.events = c.received
  dropped : ∀ stage, σ.closed = some stage → stage ≠ .authenticating → c.aborted = true
  finished : σ.stage = .finished → c.aborted = true
  aborted : c.phase = .resolved none ∨ (σ.stage = .streaming ∧ c.phase = .done) →
    c.aborted = true
  pinging : σ.pinging = true → σ.stage ≠ .finished

/-- A session without a stream has sent no event, and has no timer. Its socket may have closed all
the same, while its token was checked. -/
structure Idle (σ : Session) : Prop where
  stage : σ.stage = .authenticating ∨ σ.stage = .refused
  events : σ.events = []
  pinging : σ.pinging = false
  early : σ.stage = .authenticating → ∀ stage, σ.closed = some stage → stage = .authenticating

/-- What holds of the sessions: the bus is what its history makes of it, every session is
idle or fits its consumer, no consumer has two sessions, and a socket that has emitted
'close' is not open. -/
structure Inv (g : Gate) (s : Sessions) : Prop where
  told : run EventBus.step {} s.history = some s.bus
  idle : ∀ (i : ℕ) (σ : Session), s.sessions[i]? = some σ → σ.consumer = none → Idle σ
  fits : ∀ (i : ℕ) (σ : Session) (n : ℕ), s.sessions[i]? = some σ → σ.consumer = some n →
    ∃ c, s.bus.consumers[n]? = some c ∧ Fits g σ c
  apart : ∀ (i j : ℕ) (σ τ : Session) (n : ℕ), s.sessions[i]? = some σ → s.sessions[j]? = some τ →
    σ.consumer = some n → τ.consumer = some n → i = j
  shut : ∀ (i : ℕ) (σ : Session), s.sessions[i]? = some σ → σ.closed.isSome → σ.isOpen = false

/-! ## What becomes of a session and its consumer -/

namespace Session

theorem events_send_event (σ : Session) (e : BrokerEvent) (h : σ.isOpen = true) :
    (σ.send (.event e)).events = σ.events ++ [e] := by
  rw [send, if_pos h, events, List.filterMap_append]
  rfl

theorem events_send_ping (σ : Session) : (σ.send .ping).events = σ.events := by
  unfold send
  split
  · rw [events, List.filterMap_append]
    exact List.append_nil _
  · rfl

theorem events_refuse (σ : Session) (r : Refusal) : (σ.refuse r).events = σ.events := by
  unfold refuse send
  split
  · show List.filterMap _ (σ.sent ++ [Frame.error r]) = _
    rw [List.filterMap_append]
    exact List.append_nil _
  · rfl

end Session

namespace Fits

variable {g : Gate} {σ σ' : Session} {c c' : Consumer}

/-- An event on the bus. -/
theorem hear (h : Fits g σ c) (e : BrokerEvent) (ref : Text) : Fits g σ (c.hear e ref) := by
  unfold Consumer.hear
  split
  · exact h
  · unfold Consumer.onEvent
    split
    · next hphase =>
        -- the pull that waits gets the event
        refine ⟨h.granted, ?_, h.events, h.exact, h.dropped, h.finished, ?_, h.pinging⟩
        · have hloop := h.loop
          rw [hphase] at hloop
          generalize σ.stage = stage at hloop ⊢
          generalize c.requests = requests at hloop ⊢
          cases hloop
          exact .woken _
        · rintro (hnone | ⟨-, hdone⟩)
          · cases hnone
          · cases hdone
    · exact ⟨h.granted, h.loop, h.events, h.exact, h.dropped, h.finished, h.aborted, h.pinging⟩

theorem hears (h : Fits g σ c) (e : BrokerEvent) (ref : Text) (n : ℕ) :
    Fits g σ ((Consumer.hear e ref)^[n] c) := by
  induction n with
  | zero => exact h
  | succ n ih =>
      rw [Function.iterate_succ_apply']
      exact ih.hear e ref

/-- The generator goes on after its `await`. -/
theorem resume (h : Fits g σ c) {calls : List BusCall} (hact : c.resume = some (c', calls)) :
    Fits g σ c' := by
  have hloop := h.loop
  unfold Consumer.resume at hact
  split at hact
  · next e hphase =>
      cases hact
      rw [hphase] at hloop
      refine ⟨h.granted, ?_, h.events, h.exact, h.dropped, h.finished, ?_, h.pinging⟩
      · generalize σ.stage = stage at hloop ⊢
        show Loop stage (.yielding e) c.requests
        generalize c.requests = requests at hloop ⊢
        cases hloop
        exact .handed e
      · rintro (hnone | ⟨-, hdone⟩)
        · cases hnone
        · cases hdone
  · next hphase =>
      cases hact
      rw [hphase] at hloop
      refine ⟨h.granted, ?_, h.events, h.exact, h.dropped, h.finished,
        fun _ => h.aborted (.inl hphase), h.pinging⟩
      generalize σ.stage = stage at hloop ⊢
      show Loop stage .done []
      generalize c.requests = requests at hloop
      cases hloop
      exact .over
  · cases hact

/-- It goes on after a `return`. -/
theorem unwind (h : Fits g σ c) {calls : List BusCall} (hact : c.unwind = some (c', calls)) :
    Fits g σ c' := by
  have hloop := h.loop
  unfold Consumer.unwind at hact
  split at hact
  · next hphase =>
      cases hact
      rw [hphase] at hloop
      have hleaving : σ.stage = .leaving := by
        generalize σ.stage = stage at hloop ⊢
        generalize c.requests = requests at hloop
        cases hloop
        rfl
      refine ⟨h.granted, ?_, h.events, h.exact, h.dropped, h.finished, ?_, h.pinging⟩
      · rw [hleaving]
        exact .left
      · rintro (hnone | ⟨hstage, -⟩)
        · cases hnone
        · rw [hleaving] at hstage
          cases hstage
  · cases hact

/-- The signal is aborted, while the session changes nothing but its socket. -/
theorem abort (h : Fits g σ c) (hurl : σ'.url = σ.url) (hstage : σ'.stage = σ.stage)
    (hevents : σ'.events = σ.events) (hpinging : σ'.pinging = σ.pinging) :
    Fits g σ' c.abort.1 := by
  obtain ⟨href, hreceived⟩ := abort_frame c
  have haborted : c.abort.1.aborted = true := by
    unfold Consumer.abort Consumer.onAbort
    split
    · next haborted => exact haborted
    · split
      · split <;> rfl
      · rfl
  have hloop : Loop σ.stage c.abort.1.phase c.abort.1.requests := by
    have hloop := h.loop
    unfold Consumer.abort Consumer.onAbort
    split
    · exact hloop
    · split
      · split
        · next hphase =>
            -- the pull that waits is woken without a value
            have hphase : c.phase = .awaiting := hphase
            rw [hphase] at hloop
            generalize σ.stage = stage at hloop ⊢
            show Loop stage (.resolved none) c.requests
            generalize c.requests = requests at hloop ⊢
            cases hloop
            exact .woken none
        · exact hloop
      · exact hloop
  refine ⟨by rw [hurl, href]; exact h.granted, hstage ▸ hloop, ?_, fun hstreaming => ?_,
    fun _ _ _ => haborted, fun _ => haborted, fun _ => haborted, fun hping => ?_⟩
  · rw [hevents, hreceived]
    exact h.events
  · rw [hevents, hreceived]
    exact h.exact (hstage ▸ hstreaming)
  · rw [hstage]
    exact h.pinging (hpinging ▸ hping)

/-- A value that is about to come is the only one that was asked for. -/
theorem handed (h : Fits g σ c) {e : BrokerEvent} (hphase : c.phase = .yielding e) :
    σ.stage = .streaming ∧ c.deliver =
      some ({ c with phase := .suspended, received := c.received ++ [e], requests := [] }, []) := by
  have hloop := h.loop
  rw [hphase] at hloop
  have hasked : σ.stage = .streaming ∧ c.requests = [.next] := by
    generalize σ.stage = stage at hloop ⊢
    generalize c.requests = requests at hloop ⊢
    cases hloop
    exact ⟨rfl, rfl⟩
  refine ⟨hasked.1, ?_⟩
  unfold Consumer.deliver
  rw [hphase, hasked.2]
  rfl

/-- The value is sent and the next one asked for. -/
theorem sent (h : Fits g σ c) {e : BrokerEvent} (hphase : c.phase = .yielding e)
    (hopen : σ.isOpen = true) :
    Fits g (σ.send (.event e)) ({ c with
      phase := .suspended
      received := c.received ++ [e]
      requests := [] } : Consumer).pull.1 := by
  obtain ⟨hstreaming, -⟩ := h.handed hphase
  have hsend : σ.send (.event e) = { σ with sent := σ.sent ++ [.event e] } := if_pos hopen
  have hexact := h.exact hstreaming
  have hevents := σ.events_send_event e hopen
  have hstill : (σ.send (.event e)).events = c.received ++ [e] := by rw [hevents, hexact]
  have hkept : ∀ c' : Consumer, c'.ref = c.ref → c'.received = c.received ++ [e] →
      c'.aborted = c.aborted → Loop .streaming c'.phase c'.requests →
      (c'.phase = .resolved none ∨ c'.phase = .done → c'.aborted = true) →
      Fits g (σ.send (.event e)) c' := by
    intro c' href hreceived haborted hloop hended
    refine ⟨?_, ?_, by rw [hstill, hreceived], fun _ => by rw [hstill, hreceived], ?_, ?_,
      fun hphase => hended (hphase.imp id And.right), ?_⟩ <;> rw [hsend]
    · rw [href]
      exact h.granted
    · show Loop σ.stage _ _
      rw [hstreaming]
      exact hloop
    · rw [haborted]
      exact h.dropped
    · rw [haborted]
      exact h.finished
    · exact h.pinging
  show Fits g _ (Consumer.loop _).1
  unfold Consumer.loop
  split
  · next haborted => exact hkept _ rfl rfl rfl .over fun _ => haborted
  · split
    · next e' queue _ =>
        exact hkept _ rfl rfl rfl (.handed e') fun hphase => by rcases hphase with h | h <;> cases h
    · exact hkept _ rfl rfl rfl .waiting fun hphase => by rcases hphase with h | h <;> cases h

/-- The loop is left at the value. -/
theorem broken (h : Fits g σ c) {e : BrokerEvent} (hphase : c.phase = .yielding e) :
    Fits g { σ with stage := .leaving } ({ c with
      phase := .suspended
      received := c.received ++ [e]
      requests := [] } : Consumer).ret.1 := by
  obtain ⟨hstreaming, -⟩ := h.handed hphase
  refine ⟨h.granted, .returning, ?_, nofun, h.dropped, nofun, ?_, fun _ => nofun⟩
  · show σ.events <+: c.received ++ [e]
    rw [h.exact hstreaming]
    exact List.prefix_append _ _
  · rintro (hnone | ⟨hstage, -⟩)
    · cases hnone
    · cases hstage

/-- The handler goes through `finally`. -/
theorem ended (h : Fits g σ c) (hdone : c.phase = .done) : Fits g σ.finish c.abort.1 := by
  obtain ⟨href, hreceived⟩ := abort_frame c
  have hphase : c.abort.1.phase = .done ∧ c.abort.1.requests = c.requests ∧
      c.abort.1.aborted = true := by
    unfold Consumer.abort
    split
    · next haborted => exact ⟨hdone, rfl, haborted⟩
    · rw [hdone]
      exact ⟨rfl, rfl, rfl⟩
  have hloop := h.loop
  rw [hdone] at hloop
  have hrequests : c.requests = [] := by
    generalize σ.stage = stage at hloop
    generalize c.requests = requests at hloop ⊢
    cases hloop <;> rfl
  refine ⟨by rw [href]; exact h.granted, ?_, by rw [hreceived]; exact h.events, nofun,
    fun _ _ _ => hphase.2.2, fun _ => hphase.2.2, fun _ => hphase.2.2, nofun⟩
  rw [hphase.1, hphase.2.1, hrequests]
  exact .finished

end Fits

/-! ## One step -/

/-- Acts of one consumer, on the bus. -/
theorem run_acts {b b' : Bus} {n : ℕ} (acts : List Act) {c : Consumer}
    (hc : b.consumers[n]? = some c) (h : run EventBus.step b (acts.map (.act n)) = some b') :
    ∃ c', run Consumer.after c acts = some c' ∧ b'.consumers = b.consumers.set n c' := by
  induction acts generalizing b c with
  | nil =>
      cases h
      obtain ⟨hn, rfl⟩ := List.getElem?_eq_some_iff.mp hc
      exact ⟨_, rfl, (List.set_getElem_self hn).symm⟩
  | cons a acts ih =>
      obtain ⟨t, ht, hrest⟩ := (run_cons EventBus.step).mp h
      obtain ⟨d, hd, hact⟩ := Option.bind_eq_some_iff.mp ht
      obtain rfl := Option.some.inj (hd.symm.trans hc)
      obtain ⟨r, hr, rfl⟩ := Option.map_eq_some_iff.mp hact
      have hn := (List.getElem?_eq_some_iff.mp hc).1
      obtain ⟨c', hc', hset⟩ := ih (List.getElem?_set_self hn) hrest
      refine ⟨c', (run_cons _).mpr ⟨r.1, by rw [Consumer.after, hr]; rfl, hc'⟩, ?_⟩
      rw [hset, List.set_set]

namespace Sessions

variable {g : Gate} {s s' : Sessions}

theorem tell_eq_some_iff {told : List EventBus.Event} : s.tell told = some s' ↔
    ∃ b, run EventBus.step s.bus told = some b ∧
      s' = { s with bus := b, history := s.history ++ told } := by
  simp only [tell, Option.map_eq_some_iff]
  exact exists_congr fun b => and_congr_right fun _ => eq_comm

theorem onSession_eq_some_iff {i : ℕ}
    {change : Session → Option (Session × List EventBus.Event)} :
    s.onSession i change = some s' ↔
      ∃ σ r, s.sessions[i]? = some σ ∧ change σ = some r ∧
        ∃ b, run EventBus.step s.bus r.2 = some b ∧
          s' = { bus := b, history := s.history ++ r.2, sessions := s.sessions.set i r.1 } := by
  simp only [onSession, Option.bind_eq_some_iff, tell_eq_some_iff]
  constructor
  · rintro ⟨r, ⟨σ, hσ, hr⟩, hb⟩
    exact ⟨σ, r, hσ, hr, hb⟩
  · rintro ⟨σ, r, hσ, hr, hb⟩
    exact ⟨r, ⟨σ, hσ, hr⟩, hb⟩

end Sessions

namespace Inv

variable {g : Gate} {s : Sessions}

theorem told_append (h : Inv g s) {told : List EventBus.Event} {b : Bus}
    (hrun : run EventBus.step s.bus told = some b) :
    run EventBus.step {} (s.history ++ told) = some b :=
  (run_append _).mpr ⟨s.bus, h.told, hrun⟩

/-- What is looked up after a session has changed. -/
theorem getElem?_set {i j : ℕ} {σ' τ : Session} (hτ : (s.sessions.set i σ')[j]? = some τ) :
    (j = i ∧ τ = σ') ∨ (j ≠ i ∧ s.sessions[j]? = some τ) := by
  by_cases hj : i = j
  · subst hj
    have hi : i < s.sessions.length := by
      simpa using (List.getElem?_eq_some_iff.mp hτ).1
    rw [List.getElem?_set_self hi] at hτ
    exact .inl ⟨rfl, (Option.some.inj hτ).symm⟩
  · rw [List.getElem?_set_ne hj] at hτ
    exact .inr ⟨Ne.symm hj, hτ⟩

/-- **A session with a stream changes, and with it its consumer.** -/
theorem change (h : Inv g s) (acts : List Act) {i n : ℕ} {σ σ' : Session}
    (hσ : s.sessions[i]? = some σ) (hn : σ.consumer = some n) (hn' : σ'.consumer = some n)
    (hshut : σ'.closed.isSome → σ'.isOpen = false) {b : Bus}
    (hrun : run EventBus.step s.bus (acts.map (.act n)) = some b)
    (hfits : ∀ c c', s.bus.consumers[n]? = some c → Fits g σ c →
      run Consumer.after c acts = some c' → Fits g σ' c') :
    Inv g { bus := b, history := s.history ++ acts.map (.act n)
            sessions := s.sessions.set i σ' } := by
  obtain ⟨c, hc, hfit⟩ := h.fits i σ n hσ hn
  obtain ⟨c', hc', hset⟩ := run_acts acts hc hrun
  refine ⟨h.told_append hrun, fun j τ hτ hnone => ?_, fun j τ m hτ hm => ?_,
    fun j k τ υ m hτ hυ hm hm' => ?_, fun j τ hτ hclosed => ?_⟩
  · rcases getElem?_set hτ with ⟨-, rfl⟩ | ⟨-, hτ⟩
    · rw [hn'] at hnone
      cases hnone
    · exact h.idle j τ hτ hnone
  · show ∃ d, b.consumers[m]? = some d ∧ Fits g τ d
    rw [hset]
    rcases getElem?_set hτ with ⟨-, rfl⟩ | ⟨hj, hτ⟩
    · obtain rfl := Option.some.inj (hn'.symm.trans hm)
      exact ⟨c', List.getElem?_set_self (List.getElem?_eq_some_iff.mp hc).1,
        hfits c c' hc hfit hc'⟩
    · -- another session has another consumer
      have hne : n ≠ m := by
        rintro rfl
        exact hj (h.apart j i τ σ n hτ hσ hm hn)
      rw [List.getElem?_set_ne hne]
      exact h.fits j τ m hτ hm
  · have hkept : ∀ {j : ℕ} {τ : Session}, (s.sessions.set i σ')[j]? = some τ → τ.consumer = some m →
        ∃ τ', s.sessions[j]? = some τ' ∧ τ'.consumer = some m := by
      intro j τ hτ hm
      rcases getElem?_set hτ with ⟨rfl, rfl⟩ | ⟨-, hτ⟩
      · exact ⟨σ, hσ, hn.trans (hn'.symm.trans hm)⟩
      · exact ⟨τ, hτ, hm⟩
    obtain ⟨τ', hτ', hτm⟩ := hkept hτ hm
    obtain ⟨υ', hυ', hυm⟩ := hkept hυ hm'
    exact h.apart j k τ' υ' m hτ' hυ' hτm hυm
  · rcases getElem?_set hτ with ⟨-, rfl⟩ | ⟨-, hτ⟩
    · exact hshut hclosed
    · exact h.shut j τ hτ hclosed

/-- A session without a stream changes. -/
theorem changeIdle (h : Inv g s) {i : ℕ} {σ' : Session} (hnone : σ'.consumer = none)
    (hidle : Idle σ') (hshut : σ'.closed.isSome → σ'.isOpen = false) :
    Inv g { bus := s.bus, history := s.history ++ [], sessions := s.sessions.set i σ' } := by
  refine ⟨h.told_append rfl, fun j τ hτ hno => ?_, fun j τ m hτ hm => ?_,
    fun j k τ υ m hτ hυ hm hm' => ?_, fun j τ hτ hclosed => ?_⟩
  · rcases getElem?_set hτ with ⟨-, rfl⟩ | ⟨-, hτ⟩
    · exact hidle
    · exact h.idle j τ hτ hno
  · rcases getElem?_set hτ with ⟨-, rfl⟩ | ⟨-, hτ⟩
    · rw [hnone] at hm
      cases hm
    · exact h.fits j τ m hτ hm
  · rcases getElem?_set hτ with ⟨-, rfl⟩ | ⟨-, hτ⟩
    · rw [hnone] at hm
      cases hm
    · rcases getElem?_set hυ with ⟨-, rfl⟩ | ⟨-, hυ⟩
      · rw [hnone] at hm'
        cases hm'
      · exact h.apart j k τ υ m hτ hυ hm hm'
  · rcases getElem?_set hτ with ⟨-, rfl⟩ | ⟨-, hτ⟩
    · exact hshut hclosed
    · exact h.shut j τ hτ hclosed

/-- A new consumer, at its first pull. -/
theorem subscribe (h : Inv g s) {i : ℕ} {σ : Session} (hσ : s.sessions[i]? = some σ)
    (hnone : σ.consumer = none) (hstage : σ.stage = .authenticating) {ref : Text}
    (hgranted : ∃ deps now, authorize g deps now σ.url = .ok ref) {b : Bus}
    (hrun : run EventBus.step s.bus
      [.stream ref, .act s.bus.consumers.length .pull] = some b) :
    Inv g { bus := b
            history := s.history ++ [.stream ref, .act s.bus.consumers.length .pull]
            sessions := s.sessions.set i (σ.subscribe s.bus.consumers.length) } := by
  have hidle := h.idle i σ hσ hnone
  set n := s.bus.consumers.length with hlength
  -- the consumer waits for its first value
  have hbus : b.consumers = s.bus.consumers ++
      [{ ref, phase := .awaiting, requests := [.next] }] := by
    obtain ⟨t, ht, hrest⟩ := (run_cons EventBus.step).mp hrun
    obtain rfl := Option.some.inj ht
    have hnew : (s.bus.consumers ++ [({ ref } : Consumer)])[n]? = some { ref } :=
      List.getElem?_concat_length
    obtain ⟨c', hc', hset⟩ := run_acts [.pull] hnew hrest
    have hpull : run Consumer.after ({ ref } : Consumer) [.pull] =
        some { ref, phase := .awaiting, requests := [.next] } := rfl
    rw [hset, ← Option.some.inj (hpull.symm.trans hc'), hlength,
      List.set_append_right _ _ le_rfl, Nat.sub_self]
    rfl
  have hfits : Fits g (σ.subscribe n) { ref, phase := .awaiting, requests := [.next] } := by
    have hevents : (σ.subscribe n).events = [] := hidle.events
    refine ⟨hgranted, .waiting, by rw [hevents], fun _ => hevents, fun stage hclosed hne => ?_,
      nofun, ?_, fun _ => nofun⟩
    · exact absurd (hidle.early hstage stage hclosed) hne
    · rintro (hnone | ⟨-, hdone⟩)
      · cases hnone
      · cases hdone
  have hsome : (σ.subscribe n).consumer = some n := rfl
  have hold : ∀ (j : ℕ) (τ : Session) (m : ℕ), s.sessions[j]? = some τ → τ.consumer = some m →
      m < n := by
    intro j τ m hτ hm
    obtain ⟨c, hc, -⟩ := h.fits j τ m hτ hm
    exact (List.getElem?_eq_some_iff.mp hc).1
  refine ⟨h.told_append hrun, fun j τ hτ hno => ?_, fun j τ m hτ hm => ?_,
    fun j k τ υ m hτ hυ hm hm' => ?_, fun j τ hτ hclosed => ?_⟩
  · rcases getElem?_set hτ with ⟨-, rfl⟩ | ⟨-, hτ⟩
    · rw [hsome] at hno
      cases hno
    · exact h.idle j τ hτ hno
  · show ∃ d, b.consumers[m]? = some d ∧ Fits g τ d
    rw [hbus]
    rcases getElem?_set hτ with ⟨-, rfl⟩ | ⟨-, hτ⟩
    · obtain rfl := Option.some.inj (hsome.symm.trans hm)
      exact ⟨_, List.getElem?_concat_length, hfits⟩
    · rw [List.getElem?_append_left (hold j τ m hτ hm)]
      exact h.fits j τ m hτ hm
  · rcases getElem?_set hτ with ⟨rfl, rfl⟩ | ⟨-, hτ⟩
    · obtain rfl := Option.some.inj (hsome.symm.trans hm)
      rcases getElem?_set hυ with ⟨rfl, -⟩ | ⟨-, hυ⟩
      · rfl
      · exact absurd (hold k υ _ hυ hm') (lt_irrefl _)
    · rcases getElem?_set hυ with ⟨-, rfl⟩ | ⟨-, hυ⟩
      · obtain rfl := Option.some.inj (hsome.symm.trans hm')
        exact absurd (hold j τ _ hτ hm) (lt_irrefl _)
      · exact h.apart j k τ υ m hτ hυ hm hm'
  · rcases getElem?_set hτ with ⟨-, rfl⟩ | ⟨-, hτ⟩
    · exact h.shut i σ hσ hclosed
    · exact h.shut j τ hτ hclosed

/-- An event on the bus. -/
theorem emit (h : Inv g s) (e : BrokerEvent) (ref : Text) :
    Inv g { s with bus := EventBus.emit s.bus e ref, history := s.history ++ [.emit e ref] } where
  told := h.told_append rfl
  idle := h.idle
  fits i σ n hσ hn := by
    obtain ⟨c, hc, hfit⟩ := h.fits i σ n hσ hn
    exact ⟨_, by rw [getElem?_emit, hc]; rfl, hfit.hears e ref _⟩
  apart := h.apart
  shut := h.shut

end Inv

section Step

variable {g : Gate} {s s' : Sessions}

theorem after_eq {c c' : Consumer} {a : Act} (h : run Consumer.after c [a] = some c') :
    ∃ calls, c.act a = some (c', calls) := by
  obtain ⟨d, hd, hrest⟩ := (run_cons Consumer.after).mp h
  obtain rfl := Option.some.inj hrest
  obtain ⟨⟨d', calls⟩, hact, rfl⟩ := Option.map_eq_some_iff.mp hd
  exact ⟨calls, hact⟩

/-- The cleanup of a session whose socket or handler has ended. -/
theorem inv_cleanup (h : Inv g s) {i : ℕ} {σ σ' : Session} (hσ : s.sessions[i]? = some σ)
    (hconsumer : σ'.consumer = σ.consumer) (hshut : σ'.closed.isSome → σ'.isOpen = false)
    (hidle : σ.consumer = none → Idle σ → Idle σ')
    (hfits : ∀ n c, s.bus.consumers[n]? = some c → σ.consumer = some n → Fits g σ c →
      Fits g σ' c.abort.1)
    {b : Bus} (hrun : run EventBus.step s.bus (Sessions.cleanup σ) = some b) :
    Inv g { bus := b, history := s.history ++ Sessions.cleanup σ
            sessions := s.sessions.set i σ' } := by
  unfold Sessions.cleanup at hrun ⊢
  cases hn : σ.consumer with
  | none =>
      rw [hn] at hrun
      obtain rfl := Option.some.inj hrun
      exact h.changeIdle (hconsumer.trans hn) (hidle hn (h.idle i σ hσ hn)) hshut
  | some n =>
      rw [hn] at hrun
      refine h.change [.abort] hσ hn (hconsumer.trans hn) hshut hrun fun c c' hc hfit hc' => ?_
      obtain ⟨calls, hact⟩ := after_eq hc'
      rw [show c' = c.abort.1 from (congrArg Prod.fst (Option.some.inj hact)).symm]
      exact hfits n c hc hn hfit

/-- A session changes nothing but its socket, and tells the bus nothing. -/
theorem inv_quiet (h : Inv g s) {i : ℕ} {σ σ' : Session} (hσ : s.sessions[i]? = some σ)
    (hconsumer : σ'.consumer = σ.consumer) (hopen : σ.isOpen = false → σ'.isOpen = false)
    (hclosed : σ'.closed = σ.closed) (hurl : σ'.url = σ.url) (hstage : σ'.stage = σ.stage)
    (hevents : σ'.events = σ.events) (hpinging : σ'.pinging = σ.pinging) :
    Inv g { bus := s.bus, history := s.history ++ [], sessions := s.sessions.set i σ' } := by
  have hshut : σ'.closed.isSome → σ'.isOpen = false := fun hsome =>
    hopen (h.shut i σ hσ (hclosed ▸ hsome))
  cases hn : σ.consumer with
  | none =>
      obtain ⟨hidle, hnone, hno, hearly⟩ := h.idle i σ hσ hn
      refine h.changeIdle (hconsumer.trans hn) ⟨hstage ▸ hidle, hevents.trans hnone,
        hpinging.trans hno, ?_⟩ hshut
      rw [hstage, hclosed]
      exact hearly
  | some n =>
      refine h.change [] hσ hn (hconsumer.trans hn) hshut rfl fun c c' _ hfit hc' => ?_
      obtain rfl := Option.some.inj hc'
      refine ⟨hurl ▸ hfit.granted, hstage ▸ hfit.loop, hevents ▸ hfit.events, ?_, ?_,
        hstage ▸ hfit.finished, hstage ▸ hfit.aborted, ?_⟩
      · rw [hstage, hevents]
        exact hfit.exact
      · rw [hclosed]
        exact hfit.dropped
      · rw [hpinging, hstage]
        exact hfit.pinging

/-- **The step lemma.** -/
theorem inv_step {e : Event} (h : Inv g s) (hstep : s.step g e = some s') : Inv g s' := by
  cases e with
  | upgrade url =>
      obtain rfl := Option.some.inj hstep
      have hat : ∀ {j : ℕ} {τ : Session}, (s.sessions ++ [({ url } : Session)])[j]? = some τ →
          s.sessions[j]? = some τ ∨ τ = { url } := by
        intro j τ hτ
        rw [List.getElem?_append] at hτ
        split at hτ
        · exact .inl hτ
        · exact .inr (List.mem_singleton.mp (List.mem_of_getElem? hτ))
      refine ⟨h.told, fun j τ hτ hno => ?_, fun j τ m hτ hm => ?_,
        fun j k τ υ m hτ hυ hm hm' => ?_, fun j τ hτ hclosed => ?_⟩
      · rcases hat hτ with hτ | rfl
        · exact h.idle j τ hτ hno
        · exact ⟨.inl rfl, rfl, rfl, fun _ => nofun⟩
      · rcases hat hτ with hτ | rfl
        · exact h.fits j τ m hτ hm
        · cases hm
      · rcases hat hτ with hτ | rfl
        · rcases hat hυ with hυ | rfl
          · exact h.apart j k τ υ m hτ hυ hm hm'
          · cases hm'
        · cases hm
      · rcases hat hτ with hτ | rfl
        · exact h.shut j τ hτ hclosed
        · cases hclosed
  | authenticated i deps now =>
      obtain ⟨σ, r, hσ, hr, b, hb, rfl⟩ := Sessions.onSession_eq_some_iff.mp hstep
      obtain ⟨hstage, hr⟩ := Option.ite_none_right_eq_some.mp hr
      have hnone : σ.consumer = none := by
        by_contra hsome
        obtain ⟨n, hn⟩ := Option.ne_none_iff_exists'.mp hsome
        obtain ⟨c, -, hfit⟩ := h.fits i σ n hσ hn
        have hloop := hfit.loop
        rw [hstage] at hloop
        cases hloop
      split at hr
      · next p _ =>
          obtain rfl := Option.some.inj hr
          obtain rfl := Option.some.inj hb
          have hidle := h.idle i σ hσ hnone
          have hpinging : (σ.refuse p).pinging = false := by
            unfold Session.refuse Session.send
            split <;> exact hidle.pinging
          have hconsumer : (σ.refuse p).consumer = none := by
            unfold Session.refuse Session.send
            split <;> exact hnone
          exact h.changeIdle hconsumer
            ⟨.inr rfl, (σ.events_refuse p).trans hidle.events, hpinging, nofun⟩ fun _ => rfl
      · next ref hauth =>
          obtain rfl := Option.some.inj hr
          exact h.subscribe hσ hnone hstage ⟨deps, now, hauth⟩ hb
  | emit e ref =>
      obtain ⟨b, hb, rfl⟩ := Sessions.tell_eq_some_iff.mp hstep
      obtain rfl := Option.some.inj hb
      exact h.emit e ref
  | resume i =>
      obtain ⟨σ, r, hσ, hr, b, hb, rfl⟩ := Sessions.onSession_eq_some_iff.mp hstep
      obtain ⟨n, hn, rfl⟩ := Option.map_eq_some_iff.mp hr
      refine h.change [.resume] hσ hn hn (h.shut i σ hσ) hb fun c c' _ hfit hc' => ?_
      obtain ⟨calls, hact⟩ := after_eq hc'
      exact hfit.resume hact
  | deliver i thrown =>
      obtain ⟨σ, r, hσ, hr, b, hb, rfl⟩ := Sessions.onSession_eq_some_iff.mp hstep
      obtain ⟨hstage, hr⟩ := Option.ite_none_right_eq_some.mp hr
      obtain ⟨n, hn, hr⟩ := Option.bind_eq_some_iff.mp hr
      obtain ⟨e, he, rfl⟩ := Option.map_eq_some_iff.mp hr
      have hphase : ∀ c, s.bus.consumers[n]? = some c → c.phase = .yielding e := by
        intro c hc
        rw [Sessions.value, hc, Option.bind_some] at he
        split at he
        · next hphase =>
            obtain rfl := Option.some.inj he
            exact hphase
        · cases he
      have hacts : ∀ {c c' : Consumer} {a : Act}, s.bus.consumers[n]? = some c → Fits g σ c →
          run Consumer.after c [.deliver, a] = some c' → ∃ calls, ({ c with
            phase := .suspended
            received := c.received ++ [e]
            requests := [] } : Consumer).act a = some (c', calls) := by
        intro c c' a hc hfit hc'
        obtain ⟨d, hd, hrest⟩ := (run_cons Consumer.after).mp hc'
        rw [Consumer.after, Consumer.act, (hfit.handed (hphase c hc)).2] at hd
        obtain rfl := Option.some.inj hd
        exact after_eq hrest
      unfold Sessions.arrive at hb ⊢
      by_cases hopen : (σ.isOpen && !thrown) = true
      · rw [if_pos hopen] at hb ⊢
        obtain ⟨hopen, -⟩ := Bool.and_eq_true_iff.mp hopen
        have hsend : σ.send (.event e) = { σ with sent := σ.sent ++ [.event e] } := if_pos hopen
        refine h.change [.deliver, .pull] hσ hn (by rw [hsend]; exact hn)
          (by rw [hsend]; exact h.shut i σ hσ) hb fun c c' hc hfit hc' => ?_
        obtain ⟨calls, hact⟩ := hacts hc hfit hc'
        rw [← show _ = c' from congrArg Prod.fst (Option.some.inj hact)]
        exact hfit.sent (hphase c hc) hopen
      · rw [if_neg hopen] at hb ⊢
        refine h.change [.deliver, .ret] hσ hn
          (show ({ σ with stage := .leaving } : Session).consumer = some n from hn)
          (h.shut i σ hσ) hb fun c c' hc hfit hc' => ?_
        obtain ⟨calls, hact⟩ := hacts hc hfit hc'
        rw [← show _ = c' from congrArg Prod.fst (Option.some.inj hact)]
        exact hfit.broken (hphase c hc)
  | unwind i =>
      obtain ⟨σ, r, hσ, hr, b, hb, rfl⟩ := Sessions.onSession_eq_some_iff.mp hstep
      obtain ⟨n, hn, rfl⟩ := Option.map_eq_some_iff.mp hr
      refine h.change [.unwind] hσ hn hn (h.shut i σ hσ) hb fun c c' _ hfit hc' => ?_
      obtain ⟨calls, hact⟩ := after_eq hc'
      exact hfit.unwind hact
  | ended i =>
      obtain ⟨σ, r, hσ, hr, b, hb, rfl⟩ := Sessions.onSession_eq_some_iff.mp hstep
      obtain ⟨⟨-, hdone⟩, hr⟩ := Option.ite_none_right_eq_some.mp hr
      obtain rfl := Option.some.inj hr
      refine inv_cleanup h hσ (show σ.finish.consumer = σ.consumer from rfl) (fun _ => rfl)
        (fun hnone _ => ?_) (fun n c hc hn hfit => hfit.ended ?_) hb
      · rw [hnone] at hdone
        cases hdone
      · rw [hn, Option.any_some, Sessions.isDone, hc, Option.any_some] at hdone
        split at hdone
        · next hphase => exact hphase
        · cases hdone
  | ping i thrown =>
      obtain ⟨σ, r, hσ, hr, b, hb, rfl⟩ := Sessions.onSession_eq_some_iff.mp hstep
      obtain ⟨-, hr⟩ := Option.ite_none_right_eq_some.mp hr
      obtain rfl := Option.some.inj hr
      obtain rfl := Option.some.inj hb
      have hsend : ∀ f, (σ.send f).consumer = σ.consumer ∧ (σ.send f).isOpen = σ.isOpen ∧
          (σ.send f).closed = σ.closed ∧ (σ.send f).url = σ.url ∧ (σ.send f).stage = σ.stage ∧
          (σ.send f).pinging = σ.pinging := by
        intro f
        unfold Session.send
        split <;> exact ⟨rfl, rfl, rfl, rfl, rfl, rfl⟩
      obtain ⟨hconsumer, hopen, hclosed, hurl, hstage, hpinging⟩ := hsend .ping
      cases thrown with
      | true => exact inv_quiet h hσ rfl id rfl rfl rfl rfl rfl
      | false =>
          exact inv_quiet h hσ hconsumer (fun hno => hopen.trans hno) hclosed hurl hstage
            σ.events_send_ping hpinging
  | closing i =>
      obtain ⟨σ, r, hσ, hr, b, hb, rfl⟩ := Sessions.onSession_eq_some_iff.mp hstep
      obtain rfl := Option.some.inj hr
      obtain rfl := Option.some.inj hb
      exact inv_quiet h hσ
        (show ({ σ with isOpen := false } : Session).consumer = σ.consumer from rfl)
        (fun _ => rfl) rfl rfl rfl rfl rfl
  | closed i =>
      obtain ⟨σ, r, hσ, hr, b, hb, rfl⟩ := Sessions.onSession_eq_some_iff.mp hstep
      obtain ⟨hopen, hr⟩ := Option.ite_none_right_eq_some.mp hr
      obtain rfl := Option.some.inj hr
      refine inv_cleanup h hσ
        (show ({ σ with isOpen := false, closed := some σ.stage } : Session).consumer =
          σ.consumer from rfl)
        (fun _ => rfl) (fun _ hidle => ?_) (fun n c _ _ hfit => hfit.abort rfl rfl rfl rfl) hb
      refine ⟨hidle.stage, hidle.events, hidle.pinging, fun hstage stage hclosed => ?_⟩
      rw [← Option.some.inj hclosed]
      exact hstage
  | error i =>
      obtain ⟨σ, r, hσ, hr, b, hb, rfl⟩ := Sessions.onSession_eq_some_iff.mp hstep
      obtain ⟨-, hr⟩ := Option.ite_none_right_eq_some.mp hr
      obtain rfl := Option.some.inj hr
      exact inv_cleanup h hσ
        (show ({ σ with isOpen := false } : Session).consumer = σ.consumer from rfl) (fun _ => rfl)
        (fun _ hidle => ⟨hidle.stage, hidle.events, hidle.pinging, hidle.early⟩)
        (fun n c _ _ hfit => hfit.abort rfl rfl rfl rfl) hb

end Step

/-! ## Runs -/

section Runs

variable {g : Gate} {s : Sessions} {es : List Event}

theorem inv_initial : Inv g {} where
  told := rfl
  idle _ _ h := by cases h
  fits _ _ _ h := by cases h
  apart _ _ _ _ _ h := by cases h
  shut _ _ h := by cases h

theorem inv_of_run (hrun : run (Sessions.step g) {} es = some s) : Inv g s :=
  run_invariant (fun _ _ _ h hstep => inv_step h hstep) inv_initial hrun

/-- Who is let in: the URL has a token that is verified for the tenant, the slot and the
scope of the stream. -/
theorem authorize_eq_ok {deps : Deps} {now : ℤ} {url ref : Text}
    (h : authorize g deps now url = .ok ref) : ∃ token claims, tokenOf url = some token ∧
      verifyToken g.jwtVerify now token (g.opts deps) = .ok claims ∧
      Ws.resolveAccountRef deps = .ok ref := by
  unfold authorize at h
  split at h
  · cases h
  · next claims hclaims =>
      split at h
      · cases h
      · next hresolve =>
          obtain rfl := Except.ok.inj h
          unfold authenticate at hclaims
          split at hclaims
          · cases hclaims
          · cases hclaims
          · next token _ htoken => exact ⟨token, claims, htoken, hclaims, hresolve⟩

/-- **What a session sends, and when it listens**, after every run.  A session without a
stream has sent no event.  One with a stream showed a token that was verified, for the
account of the tenant; the events it has sent are the first of those emitted for the account
since it subscribed, each once and in order, and while it streams it has all of them but those
that are on the way.  It has at most one listener on the bus, and none as soon as its handler
is through, which also stops its pings, or its socket has emitted 'close' to its handlers. -/
theorem session_delivers (hrun : run (Sessions.step g) {} es = some s) {i : ℕ} {σ : Session}
    (hσ : s.sessions[i]? = some σ) :
    (σ.consumer = none ∧ σ.events = [] ∧ σ.pinging = false) ∨
    ∃ n c, σ.consumer = some n ∧ s.bus.consumers[n]? = some c ∧
      (∃ deps now token claims, tokenOf σ.url = some token ∧
        verifyToken g.jwtVerify now token (g.opts deps) = .ok claims ∧
        Ws.resolveAccountRef deps = .ok c.ref) ∧
      σ.events <+: (heard n c.ref s.history).events ∧
      (σ.stage = .streaming → c.aborted = false →
        σ.events ++ c.pending = (heard n c.ref s.history).events) ∧
      s.bus.listeners.count n ≤ 1 ∧
      ((σ.stage = .finished ∨ ∃ stage, σ.closed = some stage ∧ stage ≠ .authenticating) →
        s.bus.listeners.count n = 0) ∧
      (σ.stage = .finished → σ.pinging = false) := by
  have h := inv_of_run hrun
  cases hn : σ.consumer with
  | none =>
      have hidle := h.idle i σ hσ hn
      exact .inl ⟨rfl, hidle.events, hidle.pinging⟩
  | some n =>
      obtain ⟨c, hc, hfit⟩ := h.fits i σ n hσ hn
      have hsound := (busSound_of_run h.told).sound n c hc
      obtain ⟨deps, now, hgranted⟩ := hfit.granted
      obtain ⟨token, claims, htoken, hverified, hresolved⟩ := authorize_eq_ok hgranted
      refine .inr ⟨n, c, rfl, hc, ⟨deps, now, token, claims, htoken, hverified, hresolved⟩,
        (hfit.events.trans (List.prefix_append _ _)).trans hsound.received,
        fun hstage haborted => ?_, ?_, fun hover => ?_, fun hstage => ?_⟩
      · -- a body that was not aborted still runs
        have hactive : c.phase.active = true := by
          have hloop := hfit.loop
          rw [hstage] at hloop
          have hdone : c.phase ≠ .done := fun hdone =>
            absurd (hfit.aborted (.inr ⟨hstage, hdone⟩)) (by simp [haborted])
          generalize c.phase = phase at hloop hdone ⊢
          generalize c.requests = requests at hloop
          cases hloop
          · rfl
          · rfl
          · rfl
          · exact absurd rfl hdone
        rw [hfit.exact hstage]
        exact hsound.exact (by simp [Consumer.live, hactive, haborted])
      · rw [hsound.listening]
        split <;> decide
      · have haborted : c.aborted = true := by
          rcases hover with hstage | ⟨stage, hclosed, hne⟩
          · exact hfit.finished hstage
          · exact hfit.dropped stage hclosed hne
        rw [hsound.listening, Consumer.live, haborted, Bool.not_true, Bool.and_false]
        rfl
      · by_contra hping
        exact hfit.pinging (by simpa using hping) hstage

/-! ## A session that nobody hears close -/

/-- A session that streams on a socket that closed while it was authenticated. The handler of its
close was not attached yet, and the event does not come again. -/
structure Orphan (s : Sessions) (i n : ℕ) (σ : Session) (c : Consumer) : Prop where
  session : s.sessions[i]? = some σ
  consumer : σ.consumer = some n
  streaming : σ.stage = .streaming
  closed : σ.closed = some .authenticating
  atBus : s.bus.consumers[n]? = some c
  waiting : c.phase = .awaiting
  listening : c.aborted = false

/-- What the bus is told without a word to a consumer or an event for its account. -/
def Spares (n : ℕ) (ref : Text) : EventBus.Event → Prop
  | .stream _ => True
  | .emit _ ref' => ref' ≠ ref
  | .act m _ => m ≠ n

/-- A consumer that is spared stays as it is. -/
theorem spared_run {b b' : Bus} {told : List EventBus.Event} {n : ℕ} {c : Consumer}
    (hc : b.consumers[n]? = some c) (hspared : ∀ e ∈ told, Spares n c.ref e)
    (hrun : run EventBus.step b told = some b') : b'.consumers[n]? = some c := by
  induction told generalizing b with
  | nil =>
      cases hrun
      exact hc
  | cons e told ih =>
      obtain ⟨he, hrest⟩ := List.forall_mem_cons.mp hspared
      obtain ⟨t, ht, hrun⟩ := (run_cons EventBus.step).mp hrun
      refine ih ?_ hrest hrun
      cases e with
      | stream ref =>
          obtain rfl := Option.some.inj ht
          exact (List.getElem?_append_left (List.getElem?_eq_some_iff.mp hc).1).trans hc
      | emit e ref =>
          obtain rfl := Option.some.inj ht
          have hsame : Consumer.hear e ref c = c := if_pos he
          rw [getElem?_emit, hc, Option.map_some, Function.iterate_fixed hsame]
      | act m a =>
          obtain ⟨d, hd, hact⟩ := Option.bind_eq_some_iff.mp ht
          obtain ⟨r, hr, rfl⟩ := Option.map_eq_some_iff.mp hact
          exact (List.getElem?_set_ne he).trans hc

/-- The session that an event is about. -/
def Event.session? : Event → Option ℕ
  | .upgrade _ | .emit .. => none
  | .authenticated i _ _ | .resume i | .deliver i _ | .unwind i | .ended i | .ping i _
  | .closing i | .closed i | .error i => some i

/-- An event about another session says nothing to the consumer of this one. -/
theorem spared_step {s' : Sessions} {e : Event} (h : Inv g s) (hstep : s.step g e = some s')
    {i n : ℕ} {σ : Session} {c : Consumer} (hσ : s.sessions[i]? = some σ)
    (hn : σ.consumer = some n) (hc : s.bus.consumers[n]? = some c)
    (hother : e.session? ≠ some i) (hemit : ∀ ev, e ≠ .emit ev c.ref) :
    s'.sessions[i]? = some σ ∧ s'.bus.consumers[n]? = some c := by
  have hlt : n < s.bus.consumers.length := (List.getElem?_eq_some_iff.mp hc).1
  -- a session at another place has another consumer
  have hchange : ∀ {j : ℕ} {change : Session → Option (Session × List EventBus.Event)},
      some j ≠ some i → (∀ τ r, change τ = some r → s.sessions[j]? = some τ →
        ∀ ev ∈ r.2, (∃ ref, ev = .stream ref) ∨
          ∃ m a, ev = .act m a ∧ (τ.consumer = some m ∨ m = s.bus.consumers.length)) →
      s.onSession j change = some s' →
      s'.sessions[i]? = some σ ∧ s'.bus.consumers[n]? = some c := by
    intro j change hj htold hs
    obtain ⟨τ, r, hτ, hr, b, hb, rfl⟩ := Sessions.onSession_eq_some_iff.mp hs
    have hne : j ≠ i := fun heq => hj (congrArg some heq)
    refine ⟨(List.getElem?_set_ne hne).trans hσ, spared_run hc (fun ev hev => ?_) hb⟩
    rcases htold τ r hr hτ ev hev with ⟨ref, rfl⟩ | ⟨m, a, rfl, hm | rfl⟩
    · trivial
    · rintro rfl
      exact hne (h.apart j i τ σ _ hτ hσ hm hn)
    · exact Nat.ne_of_gt hlt
  have hown : ∀ (τ : Session) (told : List EventBus.Event) (m : ℕ), τ.consumer = some m →
      (∀ ev ∈ told, ∃ a, ev = .act m a) → ∀ ev ∈ told, (∃ ref, ev = .stream ref) ∨
        ∃ m a, ev = .act m a ∧ (τ.consumer = some m ∨ m = s.bus.consumers.length) := by
    intro τ told m hm hall ev hev
    obtain ⟨a, rfl⟩ := hall ev hev
    exact .inr ⟨m, a, rfl, .inl hm⟩
  have hcleanup : ∀ (τ : Session), ∀ ev ∈ Sessions.cleanup τ, (∃ ref, ev = .stream ref) ∨
      ∃ m a, ev = .act m a ∧ (τ.consumer = some m ∨ m = s.bus.consumers.length) := by
    intro τ ev hev
    obtain ⟨m, hm, rfl⟩ := List.mem_map.mp hev
    exact .inr ⟨m, .abort, rfl, .inl (Option.mem_toList.mp hm)⟩
  cases e with
  | upgrade url =>
      obtain rfl := Option.some.inj hstep
      exact ⟨(List.getElem?_append_left (List.getElem?_eq_some_iff.mp hσ).1).trans hσ, hc⟩
  | emit e ref =>
      obtain ⟨b, hb, rfl⟩ := Sessions.tell_eq_some_iff.mp hstep
      refine ⟨hσ, spared_run hc (List.forall_mem_singleton.mpr fun href => ?_) hb⟩
      exact hemit e (by rw [href])
  | authenticated j deps now =>
      refine hchange hother (fun τ r hr _ ev hev => ?_) hstep
      obtain ⟨-, hr⟩ := Option.ite_none_right_eq_some.mp hr
      split at hr
      · obtain rfl := Option.some.inj hr
        cases hev
      · obtain rfl := Option.some.inj hr
        simp only [List.mem_cons, List.not_mem_nil, or_false] at hev
        rcases hev with rfl | rfl
        · exact .inl ⟨_, rfl⟩
        · exact .inr ⟨_, _, rfl, .inr rfl⟩
  | resume j | unwind j =>
      refine hchange hother (fun τ r hr _ => ?_) hstep
      obtain ⟨m, hm, rfl⟩ := Option.map_eq_some_iff.mp hr
      exact hown τ _ m hm fun ev hev => ⟨_, List.mem_singleton.mp hev⟩
  | deliver j thrown =>
      refine hchange hother (fun τ r hr _ => ?_) hstep
      obtain ⟨-, hr⟩ := Option.ite_none_right_eq_some.mp hr
      obtain ⟨m, hm, hr⟩ := Option.bind_eq_some_iff.mp hr
      obtain ⟨e, -, rfl⟩ := Option.map_eq_some_iff.mp hr
      refine hown τ _ m hm fun ev hev => ?_
      unfold Sessions.arrive at hev
      split at hev
      · simp only [List.mem_cons, List.not_mem_nil, or_false] at hev
        rcases hev with rfl | rfl <;> exact ⟨_, rfl⟩
      · simp only [List.mem_cons, List.not_mem_nil, or_false] at hev
        rcases hev with rfl | rfl <;> exact ⟨_, rfl⟩
  | ended j | closed j | error j =>
      refine hchange hother (fun τ r hr _ => ?_) hstep
      obtain ⟨-, hr⟩ := Option.ite_none_right_eq_some.mp hr
      obtain rfl := Option.some.inj hr
      exact hcleanup τ
  | ping j thrown =>
      refine hchange hother (fun τ r hr _ ev hev => ?_) hstep
      obtain ⟨-, hr⟩ := Option.ite_none_right_eq_some.mp hr
      obtain rfl := Option.some.inj hr
      cases hev
  | closing j =>
      refine hchange hother (fun τ r hr _ ev hev => ?_) hstep
      obtain rfl := Option.some.inj hr
      cases hev

/-- A session goes on with acts that its consumer can do. -/
theorem onSession_acts {s : Sessions} {change : Session → Option (Session × List EventBus.Event)}
    {i n : ℕ} {σ σ' : Session} {c c' : Consumer} (acts : List Act)
    (hσ : s.sessions[i]? = some σ) (hc : s.bus.consumers[n]? = some c)
    (hchange : change σ = some (σ', acts.map (.act n)))
    (hacts : run Consumer.after c acts = some c') :
    ∃ t, s.onSession i change = some t ∧ t.sessions[i]? = some σ' ∧
      t.bus.consumers[n]? = some c' := by
  obtain ⟨b, hb, hc'⟩ := run_lift hc hacts
  exact ⟨_, Sessions.onSession_eq_some_iff.mpr ⟨σ, _, hσ, hchange, b, hb, rfl⟩,
    List.getElem?_set_self (List.getElem?_eq_some_iff.mp hσ).1, hc'⟩

/-- **The step lemma for an orphan**: without an event for its account it stays one, and
nothing is sent on its socket. -/
theorem orphan_step {s' : Sessions} {e : Event} (h : Inv g s) (hstep : s.step g e = some s')
    {i n : ℕ} {σ : Session} {c : Consumer} (ho : Orphan s i n σ c)
    (hemit : ∀ ev, e ≠ .emit ev c.ref) : Orphan s' i n σ c := by
  by_cases hi : e.session? = some i
  · have hshut : σ.isOpen = false := h.shut i σ ho.session (by rw [ho.closed]; rfl)
    -- what keeps the session and tells the bus nothing keeps the orphan
    have hstay : ∀ {change : Session → Option (Session × List EventBus.Event)},
        change σ = some (σ, []) → s.onSession i change = some s' → Orphan s' i n σ c := by
      intro change hchange hs
      obtain ⟨τ, r, hτ, hr, b, hb, rfl⟩ := Sessions.onSession_eq_some_iff.mp hs
      obtain rfl := Option.some.inj (ho.session.symm.trans hτ)
      obtain rfl := Option.some.inj (hchange.symm.trans hr)
      obtain rfl := Option.some.inj hb
      obtain ⟨hlt, hget⟩ := List.getElem?_eq_some_iff.mp ho.session
      exact ⟨List.getElem?_set_self hlt, ho.consumer, ho.streaming, ho.closed, ho.atBus,
        ho.waiting, ho.listening⟩
    -- and the other events about it cannot happen
    have hnever : ∀ {change : Session → Option (Session × List EventBus.Event)},
        change σ = none → s.onSession i change = some s' → Orphan s' i n σ c := by
      intro change hchange hs
      obtain ⟨τ, r, hτ, hr, -⟩ := Sessions.onSession_eq_some_iff.mp hs
      obtain rfl := Option.some.inj (ho.session.symm.trans hτ)
      rw [hchange] at hr
      cases hr
    have hact : ∀ a, c.act a = none → s.onSession i (fun σ => σ.consumer.map
        fun n => (σ, [.act n a])) = some s' → Orphan s' i n σ c := by
      intro a ha hs
      obtain ⟨τ, r, hτ, hr, b, hb, -⟩ := Sessions.onSession_eq_some_iff.mp hs
      obtain rfl := Option.some.inj (ho.session.symm.trans hτ)
      rw [ho.consumer] at hr
      obtain rfl := Option.some.inj hr
      obtain ⟨c', hc', -⟩ := run_acts [a] ho.atBus hb
      obtain ⟨calls, hc'⟩ := after_eq hc'
      rw [ha] at hc'
      cases hc'
    cases e with
    | upgrade url => cases hi
    | emit e ref => cases hi
    | authenticated j deps now =>
        obtain rfl := Option.some.inj hi
        exact hnever (by rw [ho.streaming]; rfl) hstep
    | resume j =>
        obtain rfl := Option.some.inj hi
        exact hact .resume (by rw [Consumer.act, Consumer.resume, ho.waiting]) hstep
    | unwind j =>
        obtain rfl := Option.some.inj hi
        exact hact .unwind (by rw [Consumer.act, Consumer.unwind, ho.waiting]) hstep
    | deliver j thrown =>
        obtain rfl := Option.some.inj hi
        refine hnever ?_ hstep
        have hvalue : s.value n = none := by
          rw [Sessions.value, ho.atBus, Option.bind_some, ho.waiting]
        rw [if_pos ho.streaming, ho.consumer, Option.bind_some, hvalue]
        rfl
    | ended j =>
        obtain rfl := Option.some.inj hi
        refine hnever (if_neg fun hdone => ?_) hstep
        have hno : s.isDone n = false := by
          rw [Sessions.isDone, ho.atBus, Option.any_some, ho.waiting]
        rw [ho.consumer, Option.any_some, hno] at hdone
        exact Bool.noConfusion hdone.2
    | ping j thrown =>
        obtain rfl := Option.some.inj hi
        have hsend : σ.send .ping = σ := if_neg (by simp [hshut])
        by_cases hpinging : σ.pinging = true
        · exact hstay (by rw [if_pos hpinging, hsend, ite_self]) hstep
        · exact hnever (if_neg hpinging) hstep
    | closing j =>
        obtain rfl := Option.some.inj hi
        refine hstay ?_ hstep
        rw [← hshut]
    | closed j =>
        obtain rfl := Option.some.inj hi
        exact hnever (if_neg (by simp [ho.closed])) hstep
    | error j =>
        obtain rfl := Option.some.inj hi
        exact hnever (if_neg (by simp [ho.closed])) hstep
  · obtain ⟨hsession, hconsumer⟩ := spared_step h hstep ho.session ho.consumer ho.atBus hi hemit
    exact ⟨hsession, ho.consumer, ho.streaming, ho.closed, hconsumer, ho.waiting, ho.listening⟩

/-! ## The way out

An event for its account wakes the handler of an orphan.  From then on a fixed list of moves
is left to it, and every move but the last leaves the next one possible; what other sessions,
the connector and the socket do in between takes nothing from the list. -/

/-- A move of a handler, or of its generator. Other events of the session are none: they change
neither. -/
inductive Move where
  | resume | deliver | unwind | ended
  deriving DecidableEq

/-- The moves from the event that wakes the handler to its end. -/
def wayOut : List Move := [.resume, .deliver, .unwind, .ended]

/-- The move of a session that an event is. -/
def Event.move? (i : ℕ) : Event → Option Move
  | .resume j => if j = i then some .resume else none
  | .deliver j _ => if j = i then some .deliver else none
  | .unwind j => if j = i then some .unwind else none
  | .ended j => if j = i then some .ended else none
  | _ => none

/-- Where a handler and its iterator are on the way out, with the moves that are left. -/
inductive Exit : Stage → Phase → List Move → Prop
  | woken (e : BrokerEvent) :
      Exit .streaming (.resolved (some e)) [.resume, .deliver, .unwind, .ended]
  | handed (e : BrokerEvent) : Exit .streaming (.yielding e) [.deliver, .unwind, .ended]
  | returning : Exit .leaving .returning [.unwind, .ended]
  | unwound : Exit .leaving .done [.ended]
  | gone : Exit .finished .done []

/-- A session on the way out, on a socket that has closed and has taken only `sent`. -/
structure Leaver (s : Sessions) (i n : ℕ) (sent : List Frame) (moves : List Move) (σ : Session)
    (c : Consumer) : Prop where
  session : s.sessions[i]? = some σ
  consumer : σ.consumer = some n
  closed : σ.closed.isSome
  sent : σ.sent = sent
  atBus : s.bus.consumers[n]? = some c
  exit : Exit σ.stage c.phase moves

/-- Only a pull that waits is woken by an event. -/
theorem phase_hears {c : Consumer} (h : c.phase ≠ .awaiting) (e : BrokerEvent) (ref : Text)
    (k : ℕ) : ((Consumer.hear e ref)^[k] c).phase = c.phase := by
  induction k with
  | zero => rfl
  | succ k ih =>
      rw [Function.iterate_succ_apply']
      generalize (Consumer.hear e ref)^[k] c = d at ih ⊢
      unfold Consumer.hear Consumer.onEvent
      split
      · exact ih
      · split
        · next hphase => exact absurd (ih.symm.trans hphase) h
        · exact ih

/-- A value arrives in a loop that breaks. -/
theorem after_break {c : Consumer} {e : BrokerEvent} (hphase : c.phase = .yielding e)
    (hrequests : c.requests = [.next]) : run Consumer.after c [.deliver, .ret] =
      some { c with phase := .returning, requests := [.ret], received := c.received ++ [e] } := by
  cases c
  cases hphase
  cases hrequests
  rfl

/-- A session on the way out has asked for the value that it is handed. -/
theorem Inv.handed_requests (h : Inv g s) {i n : ℕ} {σ : Session} {c : Consumer} {e : BrokerEvent}
    (hσ : s.sessions[i]? = some σ) (hn : σ.consumer = some n)
    (hc : s.bus.consumers[n]? = some c) (hphase : c.phase = .yielding e) :
    c.requests = [.next] := by
  obtain ⟨d, hd, hfit⟩ := h.fits i σ n hσ hn
  obtain rfl := Option.some.inj (hc.symm.trans hd)
  have hloop := hfit.loop
  rw [hphase] at hloop
  generalize σ.stage = stage at hloop
  generalize c.requests = requests at hloop ⊢
  cases hloop
  rfl

/-- The event that is a move of a session. -/
theorem Event.of_move? {i : ℕ} {e : Event} {m : Move} (h : e.move? i = some m) :
    match m with
    | .resume => e = .resume i
    | .deliver => ∃ thrown, e = .deliver i thrown
    | .unwind => e = .unwind i
    | .ended => e = .ended i := by
  cases e with
  | resume j | unwind j | ended j =>
      obtain ⟨rfl, hm⟩ := Option.ite_none_right_eq_some.mp h
      obtain rfl := Option.some.inj hm
      rfl
  | deliver j thrown =>
      obtain ⟨rfl, hm⟩ := Option.ite_none_right_eq_some.mp h
      obtain rfl := Option.some.inj hm
      exact ⟨thrown, rfl⟩
  | upgrade _ | authenticated _ _ _ | emit _ _ | ping _ _ | closing _ | closed _ | error _ =>
      cases h

section Leavers

variable {s' : Sessions} {e : Event} {i n : ℕ} {sent : List Frame} {moves : List Move}
  {σ : Session} {c : Consumer}

/-- Acts of its consumer take a session to the next place on the way out. -/
theorem Leaver.acts (hl : Leaver s i n sent moves σ c)
    {change : Session → Option (Session × List EventBus.Event)} {rest : List Move} {σ' : Session}
    {c' : Consumer} (acts : List Act) (hchange : change σ = some (σ', acts.map (.act n)))
    (hacts : run Consumer.after c acts = some c') (hconsumer : σ'.consumer = σ.consumer)
    (hclosed : σ'.closed = σ.closed) (hsent : σ'.sent = σ.sent)
    (hexit : Exit σ'.stage c'.phase rest) :
    ∃ t, s.onSession i change = some t ∧ Leaver t i n sent rest σ' c' := by
  obtain ⟨t, ht, hσ', hc'⟩ := onSession_acts acts hl.session hl.atBus hchange hacts
  exact ⟨t, ht, hσ', hconsumer.trans hl.consumer, hclosed ▸ hl.closed, hsent.trans hl.sent, hc',
    hexit⟩

/-- **The next move is possible**, and leaves the moves behind it. -/
theorem leaver_moves (h : Inv g s) {m : Move} {rest : List Move}
    (hl : Leaver s i n sent (m :: rest) σ c) (he : e.move? i = some m) :
    ∃ σ' c' t, s.step g e = some t ∧ Leaver t i n sent rest σ' c' := by
  have hshut : σ.isOpen = false := h.shut i σ hl.session hl.closed
  have hexit := hl.exit
  generalize hstage : σ.stage = stage at hexit
  generalize hphase : c.phase = phase at hexit
  generalize hmoves : m :: rest = moves at hexit
  cases hexit with
  | woken ev =>
      obtain ⟨rfl, rfl⟩ := List.cons_eq_cons.mp hmoves
      have hevent : e = .resume i := Event.of_move? he
      subst hevent
      have hresume : run Consumer.after c [.resume] = some { c with phase := .yielding ev } := by
        cases c
        cases hphase
        rfl
      refine ⟨σ, _, hl.acts [.resume] (by rw [hl.consumer]; rfl) hresume rfl rfl rfl ?_⟩
      rw [hstage]
      exact .handed ev
  | handed ev =>
      obtain ⟨rfl, rfl⟩ := List.cons_eq_cons.mp hmoves
      obtain ⟨thrown, rfl⟩ := Event.of_move? he
      have hrequests := h.handed_requests hl.session hl.consumer hl.atBus hphase
      have hvalue : s.value n = some ev := by
        rw [Sessions.value, hl.atBus, Option.bind_some, hphase]
      -- the value finds the socket closed
      refine ⟨{ σ with stage := .leaving }, _, hl.acts [.deliver, .ret] ?_
        (after_break hphase hrequests) rfl rfl rfl .returning⟩
      rw [if_pos hstage, hl.consumer, Option.bind_some, hvalue, Option.map_some,
        Sessions.arrive, if_neg (by simp [hshut]), hl.consumer]
      rfl
  | returning =>
      obtain ⟨rfl, rfl⟩ := List.cons_eq_cons.mp hmoves
      have hevent : e = .unwind i := Event.of_move? he
      subst hevent
      have hunwind : run Consumer.after c [.unwind] =
          some { c with phase := .done, requests := [] } := by
        cases c
        cases hphase
        rfl
      refine ⟨σ, _, hl.acts [.unwind] (by rw [hl.consumer]; rfl) hunwind rfl rfl rfl ?_⟩
      rw [hstage]
      exact .unwound
  | unwound =>
      obtain ⟨rfl, rfl⟩ := List.cons_eq_cons.mp hmoves
      have hevent : e = .ended i := Event.of_move? he
      subst hevent
      have hdone : s.isDone n = true := by
        rw [Sessions.isDone, hl.atBus, Option.any_some, hphase]
      obtain ⟨d, habort, hd⟩ : ∃ d, run Consumer.after c [.abort] = some d ∧ d.phase = .done := by
        refine ⟨c.abort.1, rfl, ?_⟩
        unfold Consumer.abort
        split
        · exact hphase
        · have hover : ¬ c.phase.active = true := by
            rw [hphase]
            decide
          rw [if_neg hover]
          exact hphase
      refine ⟨σ.finish, d, hl.acts [.abort] ?_ habort rfl rfl rfl ?_⟩
      · rw [hl.consumer, Option.any_some, hdone, if_pos ⟨.inr hstage, rfl⟩, Sessions.cleanup,
          hl.consumer]
        rfl
      · rw [hd]
        exact .gone
  | gone => cases hmoves

/-- What is about a session on the way out, and is not its next move, changes nothing. -/
theorem leaver_waits (h : Inv g s) (hstep : s.step g e = some s')
    (hl : Leaver s i n sent moves σ c) (hi : e.session? = some i)
    (hnext : ∀ m, e.move? i = some m → moves.head? ≠ some m) :
    Leaver s' i n sent moves σ c ∧ e.move? i = none := by
  have hshut : σ.isOpen = false := h.shut i σ hl.session hl.closed
  have hstay : ∀ {change : Session → Option (Session × List EventBus.Event)},
      change σ = some (σ, []) → s.onSession i change = some s' → Leaver s' i n sent moves σ c := by
    intro change hchange hs
    obtain ⟨t, ht, hl'⟩ := hl.acts [] hchange rfl rfl rfl rfl hl.exit
    obtain rfl := Option.some.inj (hs.symm.trans ht)
    exact hl'
  -- and the other events about it cannot happen
  have hnever : ∀ {change : Session → Option (Session × List EventBus.Event)},
      change σ = none → s.onSession i change ≠ some s' := by
    intro change hchange hs
    obtain ⟨τ, r, hτ, hr, -⟩ := Sessions.onSession_eq_some_iff.mp hs
    obtain rfl := Option.some.inj (hl.session.symm.trans hτ)
    rw [hchange] at hr
    cases hr
  have hact : ∀ a, c.act a = none →
      s.onSession i (fun σ => σ.consumer.map fun n => (σ, [.act n a])) ≠ some s' := by
    intro a ha hs
    obtain ⟨τ, r, hτ, hr, b, hb, -⟩ := Sessions.onSession_eq_some_iff.mp hs
    obtain rfl := Option.some.inj (hl.session.symm.trans hτ)
    rw [hl.consumer] at hr
    obtain rfl := Option.some.inj hr
    obtain ⟨c', hc', -⟩ := run_acts [a] hl.atBus hb
    obtain ⟨calls, hc'⟩ := after_eq hc'
    rw [ha] at hc'
    cases hc'
  have hclosed : ¬ σ.closed.isNone = true := by
    rw [Option.isNone_iff_eq_none]
    exact Option.isSome_iff_ne_none.mp hl.closed
  have hexit := hl.exit
  generalize hstage : σ.stage = stage at hexit
  generalize hphase : c.phase = phase at hexit
  cases e with
  | upgrade url => cases hi
  | emit e ref => cases hi
  | authenticated j deps now =>
      obtain rfl := Option.some.inj hi
      refine absurd hstep (hnever (if_neg ?_))
      rw [hstage]
      cases hexit <;> decide
  | resume j =>
      obtain rfl := Option.some.inj hi
      refine absurd hstep (hact .resume ?_)
      rw [Consumer.act, Consumer.resume, hphase]
      cases hexit with
      | woken ev => exact absurd rfl (hnext .resume (if_pos rfl))
      | handed | returning | unwound | gone => rfl
  | unwind j =>
      obtain rfl := Option.some.inj hi
      refine absurd hstep (hact .unwind ?_)
      rw [Consumer.act, Consumer.unwind, hphase]
      cases hexit with
      | returning => exact absurd rfl (hnext .unwind (if_pos rfl))
      | woken | handed | unwound | gone => rfl
  | deliver j thrown =>
      obtain rfl := Option.some.inj hi
      refine absurd hstep (hnever ?_)
      rw [hstage, hl.consumer, Option.bind_some, Sessions.value, hl.atBus, Option.bind_some, hphase]
      cases hexit with
      | handed ev => exact absurd rfl (hnext .deliver (if_pos rfl))
      | woken | returning | unwound | gone => rfl
  | ended j =>
      obtain rfl := Option.some.inj hi
      refine absurd hstep (hnever (if_neg ?_))
      rw [hstage, hl.consumer, Option.any_some, Sessions.isDone, hl.atBus, Option.any_some, hphase]
      cases hexit with
      | unwound => exact absurd rfl (hnext .ended (if_pos rfl))
      | woken | handed | returning | gone => simp
  | ping j thrown =>
      obtain rfl := Option.some.inj hi
      have hsend : σ.send .ping = σ := if_neg (by simp [hshut])
      by_cases hpinging : σ.pinging = true
      · exact ⟨hstay (by rw [if_pos hpinging, hsend, ite_self]) hstep, rfl⟩
      · exact absurd hstep (hnever (if_neg hpinging))
  | closing j =>
      obtain rfl := Option.some.inj hi
      refine ⟨hstay ?_ hstep, rfl⟩
      rw [← hshut]
  | closed j =>
      obtain rfl := Option.some.inj hi
      exact absurd hstep (hnever (if_neg hclosed))
  | error j =>
      obtain rfl := Option.some.inj hi
      exact absurd hstep (hnever (if_neg fun hopen => hclosed (Bool.and_eq_true_iff.mp hopen).2))

/-- **The step lemma for the way out**: an event is the next move, or takes nothing from what
is left, and nothing is sent on the socket. -/
theorem leaver_step (h : Inv g s) (hstep : s.step g e = some s')
    (hl : Leaver s i n sent moves σ c) :
    ∃ rest σ' c', Leaver s' i n sent rest σ' c' ∧ moves = (e.move? i).toList ++ rest := by
  by_cases hi : e.session? = some i
  · by_cases hnext : ∃ m, e.move? i = some m ∧ moves.head? = some m
    · obtain ⟨m, he, hhead⟩ := hnext
      obtain ⟨rest, rfl⟩ := List.head?_eq_some_iff.mp hhead
      obtain ⟨σ', c', t, ht, hl'⟩ := leaver_moves h hl he
      obtain rfl := Option.some.inj (hstep.symm.trans ht)
      exact ⟨rest, σ', c', hl', by rw [he]; rfl⟩
    · obtain ⟨hl', hnone⟩ := leaver_waits h hstep hl hi fun m he hhead => hnext ⟨m, he, hhead⟩
      exact ⟨moves, σ, c, hl', by rw [hnone]; rfl⟩
  · have hnone : e.move? i = none := by
      by_contra hmove
      obtain ⟨m, he⟩ := Option.ne_none_iff_exists'.mp hmove
      refine hi ?_
      cases m with
      | resume | unwind | ended =>
          have hevent := Event.of_move? he
          dsimp only at hevent
          rw [hevent]
          rfl
      | deliver =>
          obtain ⟨thrown, rfl⟩ := Event.of_move? he
          rfl
    rw [hnone]
    by_cases hemit : ∃ ev, e = .emit ev c.ref
    · obtain ⟨ev, rfl⟩ := hemit
      obtain rfl := Option.some.inj hstep
      -- the generator does not wait, so that the event goes into the queue
      have hawake : c.phase ≠ .awaiting := by
        intro hphase
        have hexit := hl.exit
        rw [hphase] at hexit
        generalize σ.stage = stage at hexit
        cases hexit
      refine ⟨moves, σ, (Consumer.hear ev c.ref)^[s.bus.listeners.count n] c,
        ⟨hl.session, hl.consumer, hl.closed, hl.sent, ?_, ?_⟩, rfl⟩
      · show (EventBus.emit s.bus ev c.ref).consumers[n]? = _
        rw [getElem?_emit, hl.atBus, Option.map_some]
      · rw [phase_hears hawake]
        exact hl.exit
    · obtain ⟨hσ', hc'⟩ := spared_step h hstep hl.session hl.consumer hl.atBus hi
        fun ev he => hemit ⟨ev, he⟩
      exact ⟨moves, σ, c, ⟨hσ', hl.consumer, hl.closed, hl.sent, hc', hl.exit⟩, rfl⟩

/-- **The run lemma for the way out**: what happened of its moves are the first ones, in their
order. -/
theorem leaver_run {fs : List Event} (h : Inv g s) (hl : Leaver s i n sent moves σ c)
    (hrun : run (Sessions.step g) s fs = some s') :
    ∃ rest σ' c', Leaver s' i n sent rest σ' c' ∧
      moves = fs.filterMap (Event.move? i) ++ rest := by
  induction fs generalizing s moves σ c with
  | nil =>
      cases hrun
      exact ⟨moves, σ, c, hl, rfl⟩
  | cons e fs ih =>
      obtain ⟨t, ht, hrest⟩ := (run_cons _).mp hrun
      obtain ⟨left, τ, d, hl', hmoves⟩ := leaver_step h ht hl
      obtain ⟨rest, σ', c', hl'', hleft⟩ := ih (inv_step h ht) hl' hrest
      refine ⟨rest, σ', c', hl'', ?_⟩
      rw [hmoves, hleft, ← List.append_assoc]
      congr 1
      cases he : e.move? i with
      | none => rw [List.filterMap_cons_none he]; rfl
      | some m => rw [List.filterMap_cons_some he]; rfl

/-- A session that has left has no listener as soon as its generator has unwound. -/
theorem Leaver.unheard (h : Inv g s) (hl : Leaver s i n sent moves σ c)
    (hmoves : Move.unwind ∉ moves) : s.bus.listeners.count n = 0 := by
  have hdone : c.phase = .done := by
    have hexit := hl.exit
    generalize σ.stage = stage at hexit
    generalize c.phase = phase at hexit ⊢
    cases hexit with
    | woken | handed | returning => exact absurd (by decide) hmoves
    | unwound | gone => rfl
  rw [((busSound_of_run h.told).sound n c hl.atBus).listening, Consumer.live, hdone]
  rfl

end Leavers

/-! ### From the close to the end -/

section Orphans

variable {s' : Sessions} {i n : ℕ} {σ : Session} {c : Consumer}

/-- An orphan has its listener. -/
theorem Orphan.heard (h : Inv g s) (ho : Orphan s i n σ c) : s.bus.listeners.count n = 1 := by
  rw [((busSound_of_run h.told).sound n c ho.atBus).listening]
  simp [Consumer.live, ho.waiting, ho.listening, Phase.active]

/-- **A session that is let in after its socket has closed is an orphan.** -/
theorem orphan_of_closed (h : Inv g s) (hσ : s.sessions[i]? = some σ)
    (hstage : σ.stage = .authenticating) (hclosed : σ.closed.isSome) {deps : Deps} {now : ℤ}
    {ref : Text} (hgranted : authorize g deps now σ.url = .ok ref) :
    ∃ s' m τ d, s.step g (.authenticated i deps now) = some s' ∧ Orphan s' i m τ d ∧
      d.ref = ref ∧ τ.sent = σ.sent := by
  have hidle : Idle σ := by
    refine h.idle i σ hσ ?_
    by_contra hconsumer
    obtain ⟨m, hm⟩ := Option.ne_none_iff_exists'.mp hconsumer
    obtain ⟨d, -, hfit⟩ := h.fits i σ m hσ hm
    have hloop := hfit.loop
    rw [hstage] at hloop
    cases hloop
  obtain ⟨stage, hstage'⟩ := Option.isSome_iff_exists.mp hclosed
  obtain rfl := hidle.early hstage stage hstage'
  set m := s.bus.consumers.length with hm
  -- the consumer that `stream` makes sleeps at its first pull
  have hnew : (s.bus.consumers ++ [({ ref } : Consumer)])[m]? = some { ref } :=
    List.getElem?_concat_length
  have hpull : run Consumer.after ({ ref } : Consumer) [.pull] =
      some { ref, phase := .awaiting, requests := [.next] } := rfl
  let called : Bus := { s.bus with consumers := s.bus.consumers ++ [{ ref }] }
  obtain ⟨b, hb, hc⟩ : ∃ b, run EventBus.step called [.act m .pull] = some b ∧
      b.consumers[m]? = some { ref, phase := .awaiting, requests := [.next] } :=
    run_lift hnew hpull
  refine ⟨_, m, σ.subscribe m, _, Sessions.onSession_eq_some_iff.mpr
    ⟨σ, (σ.subscribe m, [.stream ref, .act m .pull]), hσ, ?_, b, (run_cons _).mpr ⟨called, rfl, hb⟩,
      rfl⟩, ⟨?_, rfl, rfl, hstage', hc, rfl, rfl⟩, rfl, rfl⟩
  · rw [if_pos hstage, hgranted]
  · exact List.getElem?_set_self (List.getElem?_eq_some_iff.mp hσ).1

/-- An event for its account sends an orphan on its way. -/
theorem Orphan.woken (h : Inv g s) (ho : Orphan s i n σ c) (ev : BrokerEvent)
    (hstep : s.step g (.emit ev c.ref) = some s') :
    Leaver s' i n σ.sent wayOut σ { c with phase := .resolved (some ev) } := by
  obtain rfl := Option.some.inj hstep
  refine ⟨ho.session, ho.consumer, by rw [ho.closed]; rfl, rfl, ?_, ?_⟩
  · show (EventBus.emit s.bus ev c.ref).consumers[n]? = _
    rw [getElem?_emit, ho.atBus, ho.heard h, Option.map_some, Function.iterate_one,
      Consumer.hear, if_neg (not_not_intro rfl), Consumer.onEvent, ho.waiting]
  · rw [ho.streaming]
    exact .woken ev

end Orphans

/-- **A session whose socket closes too early leaves at the next event for its account, and
not before.**  If it is let in after that, it streams all the same, as an orphan: whatever else
happens, it keeps its listener and sends nothing.  The first event for its account starts it on
the way out; whatever comes in between, its moves are those of `wayOut` in their order, the
next of them is always possible, and it sends no frame.  When its generator has unwound it has
no listener, and after the last move its handler is through. -/
theorem orphan_leaves (hrun : run (Sessions.step g) {} es = some s) (i : ℕ) (σ : Session) :
    (∀ deps now ref, s.sessions[i]? = some σ → σ.stage = .authenticating → σ.closed.isSome →
      authorize g deps now σ.url = .ok ref →
        ∃ s' n τ c, s.step g (.authenticated i deps now) = some s' ∧ Orphan s' i n τ c ∧
          c.ref = ref ∧ τ.sent = σ.sent) ∧
    ∀ n c, Orphan s i n σ c →
      (∀ fs s', (∀ e ∈ fs, ∀ ev, e ≠ .emit ev c.ref) → run (Sessions.step g) s fs = some s' →
        Orphan s' i n σ c ∧ s'.bus.listeners.count n = 1) ∧
      ∀ ev fs s', run (Sessions.step g) s (.emit ev c.ref :: fs) = some s' →
        ∃ σ' rest, s'.sessions[i]? = some σ' ∧ σ'.sent = σ.sent ∧
          wayOut = fs.filterMap (Event.move? i) ++ rest ∧
          (∀ e m, rest.head? = some m → e.move? i = some m → ∃ t, s'.step g e = some t) ∧
          (Move.unwind ∉ rest → s'.bus.listeners.count n = 0) ∧
          (rest = [] → σ'.stage = .finished) := by
  have h := inv_of_run hrun
  refine ⟨fun deps now ref hσ hstage hclosed hgranted =>
    orphan_of_closed h hσ hstage hclosed hgranted, fun n c ho => ⟨?_, ?_⟩⟩
  · intro fs s' hfs hrun'
    have hquiet : Along (Sessions.step g) (fun _ e => ∀ ev, e ≠ .emit ev c.ref) s fs :=
      (along_iff_forall _).mpr fun before e after t heq _ => hfs e (by simp [heq])
    have hall : Inv g s' ∧ Orphan s' i n σ c :=
      @run_along_invariant _ _ _ _ (fun t => Inv g t ∧ Orphan t i n σ c)
        (fun t e t' ht he hstep => ⟨inv_step ht.1 hstep, orphan_step ht.1 hstep ht.2 he⟩) _ _ _
        ⟨h, ho⟩ hquiet hrun'
    exact ⟨hall.2, hall.2.heard hall.1⟩
  · intro ev fs s' hrun'
    obtain ⟨s₁, hemit, hrest⟩ := (run_cons _).mp hrun'
    have h₁ := inv_step h hemit
    obtain ⟨rest, σ', c', hl, hmoves⟩ := leaver_run h₁ (ho.woken h ev hemit) hrest
    have h' : Inv g s' := run_invariant (fun _ _ _ ht hstep => inv_step ht hstep) h₁ hrest
    refine ⟨σ', rest, hl.session, hl.sent, hmoves, fun e m hhead he => ?_, hl.unheard h', ?_⟩
    · obtain ⟨rest, rfl⟩ := List.head?_eq_some_iff.mp hhead
      obtain ⟨-, -, t, ht, -⟩ := leaver_moves h' hl he
      exact ⟨t, ht⟩
    · rintro rfl
      have hexit := hl.exit
      generalize σ'.stage = stage at hexit ⊢
      generalize c'.phase = phase at hexit
      cases hexit
      rfl

end Runs

/-! ## Two sessions -/

/-- A gate where every token stands for the claims of a subscriber. -/
def sampleGate : Gate where
  jwtVerify _ _ _ _ :=
    .ok [("sub", .str "cerebro"), ("tenant_id", .str "t"), ("slot_id", .str "s"),
      ("scope", .arr [.str "slot:stream"]), ("exp", .num (Numeral.ofNat 100000))]
  jwtSecret := sampleSecret
  slotId := "s"

/-- An upgrade with a token. -/
def sampleUrl : Text := "/v1/stream?token=abc"

/-- The reference of the account. -/
def sampleRef : Text := "mt5-Demo-5001"

theorem sample_authorized : authorize sampleGate sampleDeps 0 sampleUrl = .ok sampleRef := by
  have htoken : tokenOf sampleUrl = some "abc".toList := by decide +kernel
  have hverified : ∃ claims, verifyToken sampleGate.jwtVerify 0 "abc"
      (sampleGate.opts sampleDeps) = .ok claims := ⟨_, rfl⟩
  obtain ⟨claims, hverified⟩ := hverified
  have hclaims : authenticate sampleGate sampleDeps 0 sampleUrl = .ok claims := by
    rw [authenticate, htoken]
    exact hverified
  have hresolve : Ws.resolveAccountRef sampleDeps = .ok sampleRef := sampleDeps_resolve
  rw [authorize, hclaims, hresolve]

/-- An order is pending. -/
def sampleEvent : BrokerEvent := .orderState "42" "pending"

/-- A session that has been let in and waits for its first event. -/
def subscribed (σ : Session) : Sessions where
  bus := ⟨[{ ref := sampleRef, phase := .awaiting, requests := [.next] }], [0]⟩
  history := [.stream sampleRef, .act 0 .pull]
  sessions := [σ.subscribe 0]

/-- The only session is let in, whether its socket is open or not. -/
theorem step_authenticated {σ : Session} (hstage : σ.stage = .authenticating)
    (hurl : σ.url = sampleUrl) :
    ({ sessions := [σ] } : Sessions).step sampleGate (.authenticated 0 sampleDeps 0) =
      some (subscribed σ) := by
  refine Sessions.onSession_eq_some_iff.mpr
    ⟨σ, (σ.subscribe 0, [.stream sampleRef, .act 0 .pull]), rfl, ?_, _, rfl, rfl⟩
  rw [if_pos hstage, hurl, sample_authorized]
  rfl

/-- A subscriber gets an event. -/
theorem sampleSession_delivers : ∃ s σ n c, run (Sessions.step sampleGate) {}
    ([.upgrade sampleUrl, .authenticated 0 sampleDeps 0] ++
      [.emit sampleEvent sampleRef, .resume 0, .deliver 0 false]) = some s ∧
    s.sessions[0]? = some σ ∧ σ.events = [sampleEvent] ∧ σ.consumer = some n ∧
    s.bus.consumers[n]? = some c ∧ σ.events <+: (heard n c.ref s.history).events := by
  have hlet : run (Sessions.step sampleGate) {}
      [.upgrade sampleUrl, .authenticated 0 sampleDeps 0] =
        some (subscribed { url := sampleUrl }) :=
    (run_cons _).mpr ⟨_, rfl, (run_cons _).mpr ⟨_, step_authenticated rfl rfl, rfl⟩⟩
  obtain ⟨s, hrest, σ, hσ, hevents⟩ : ∃ s, run (Sessions.step sampleGate)
      (subscribed { url := sampleUrl })
      [.emit sampleEvent sampleRef, .resume 0, .deliver 0 false] = some s ∧
      ∃ σ, s.sessions[0]? = some σ ∧ σ.events = [sampleEvent] := ⟨_, rfl, _, rfl, rfl⟩
  have hrun := (run_append _).mpr ⟨_, hlet, hrest⟩
  rcases session_delivers hrun hσ with ⟨-, hnone, -⟩ | ⟨n, c, hn, hc, -, hprefix, -⟩
  · rw [hnone] at hevents
    cases hevents
  · exact ⟨s, σ, n, c, hrun, hσ, hevents, hn, hc, hprefix⟩

/-- A subscriber whose socket closes before it is let in is an orphan: it listens until the next
event and leaves with it, though its pings and another event come in between. -/
theorem sampleSession_orphan : ∃ s₀ σ₀ s σ c,
    run (Sessions.step sampleGate) {} [.upgrade sampleUrl, .closed 0] = some s₀ ∧
      s₀.sessions[0]? = some σ₀ ∧
      s₀.step sampleGate (.authenticated 0 sampleDeps 0) = some s ∧ Orphan s 0 0 σ c ∧
      s.bus.listeners.count 0 = 1 ∧
      ∃ s' σ', run (Sessions.step sampleGate) s
          [.emit sampleEvent c.ref, .ping 0 false, .resume 0, .emit sampleEvent c.ref,
            .deliver 0 false, .unwind 0, .ended 0] = some s' ∧
        s'.sessions[0]? = some σ' ∧ σ'.sent = [] ∧ σ'.stage = .finished ∧
        s'.bus.listeners.count 0 = 0 := by
  let σ₀ : Session := { url := sampleUrl, isOpen := false, closed := some .authenticating }
  have hclosed : run (Sessions.step sampleGate) {} [.upgrade sampleUrl, .closed 0] =
      some { sessions := [σ₀] } := rfl
  obtain ⟨s, n, σ, c, hstep, ho, -, hsent⟩ :=
    (orphan_leaves hclosed 0 σ₀).1 _ _ _ rfl rfl rfl sample_authorized
  obtain rfl : s = subscribed σ₀ :=
    Option.some.inj (hstep.symm.trans (step_authenticated rfl rfl))
  obtain rfl : σ₀.subscribe 0 = σ := Option.some.inj ho.session
  obtain rfl : 0 = n := Option.some.inj ho.consumer
  obtain rfl : { ref := sampleRef, phase := .awaiting, requests := [.next] } = c :=
    Option.some.inj ho.atBus
  have hrun : run (Sessions.step sampleGate) {} ([.upgrade sampleUrl, .closed 0] ++
      [.authenticated 0 sampleDeps 0]) = some (subscribed σ₀) :=
    (run_append _).mpr ⟨_, hclosed, (run_cons _).mpr ⟨_, hstep, rfl⟩⟩
  obtain ⟨hstays, hleaves⟩ := (orphan_leaves hrun 0 _).2 0 _ ho
  obtain ⟨s', hrun'⟩ : ∃ s', run (Sessions.step sampleGate) (subscribed σ₀)
      [.emit sampleEvent sampleRef, .ping 0 false, .resume 0, .emit sampleEvent sampleRef,
        .deliver 0 false, .unwind 0, .ended 0] = some s' := ⟨_, rfl⟩
  obtain ⟨σ', rest, hσ', hsent', hmoves, -, hunheard, hfinished⟩ := hleaves _ _ _ hrun'
  -- all four moves have been made
  have hall : wayOut ++ [] = wayOut ++ rest := hmoves
  obtain rfl : [] = rest := List.append_cancel_left hall
  exact ⟨_, _, _, _, _, hclosed, rfl, hstep, ho, (hstays [] _ (by simp) rfl).2, s', σ', hrun', hσ',
    hsent'.trans hsent, hfinished rfl, hunheard (by decide)⟩

end AkronSlot.Slot.StreamSessions
