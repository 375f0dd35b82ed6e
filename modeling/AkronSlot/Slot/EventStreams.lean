import AkronSlot.Slot.AccountRecords

/-!
# The event streams of `Mt5Connector.stream`

`stream` is an async generator.  Its body starts at the first pull: it puts a listener
on the bus, which hands an event to the resolver of a waiting pull, or to a queue
without one.  What a resolver or a `yield` passes on arrives later, when the
generator goes on; until then other events, pulls and an abort can come.

Any number of consumers share the bus.  The step function of one consumer says what
it does to its listener, so that the bus is a matter of counting listeners.

## Suspended generators

What makes the generator hard is the time between a decision and its effect. An event resolves a
promise now, and the body goes on later; a `yield` hands over a value, and the consumer has it
later still. `Phase` has a place for each of these times, so that whatever can come in between
is a step of its own. A `return` that arrives while the body awaits is not seen before the next
value, which is why `requests` is a queue.

## Accounting

`Sound` balances three things for one consumer: what has been emitted for it while it listened,
what it has received, and what is on its way in the generator. One act and one event are a line
each in this account (`sound_act`, `sound_hear`), and any number of consumers on one bus follow
from it by looking at each alone.

## Main Definitions

* `Consumer`, `Consumer.act`, `Consumer.hear`
* `Bus`, `step`
* `Heard`, `heard` — what has been emitted for a consumer
* `Sound` — the invariant

## Main Results

* `sound_act`, `sound_hear` — one step
* `busSound_of_run` — a run
* `streams_deliver`
-/

namespace AkronSlot.Slot.EventBus

open Wire Systems

/-! ## One consumer -/

/-- What a consumer asks of the generator. -/
inductive Request where
  | next | ret
  deriving DecidableEq

/-- Where the generator is. Each `await` and each `yield` of the source is a phase, because other
events can come while the generator waits there. -/
inductive Phase where
  | notStarted
  /-- `await new Promise`, with `resolveNext` set. -/
  | awaiting
  /-- The promise is resolved; `none` is `done: true`. -/
  | resolved (ev : Option BrokerEvent)
  | yielding (e : BrokerEvent)
  /-- At a `yield` whose value has been delivered. -/
  | suspended
  /-- At such a `yield`, with a `return` that unwinds it. -/
  | returning
  | done

/-- The body has been entered and not been left. -/
def Phase.active : Phase → Bool
  | .notStarted | .done => false
  | _ => true

/-- A call of `stream` and its consumer; `requests` are those not answered, oldest
first. -/
structure Consumer where
  ref : Text
  phase : Phase := .notStarted
  requests : List Request := []
  queue : List BrokerEvent := []
  aborted : Bool := false
  received : List BrokerEvent := []

/-- `bus.on` and `bus.off` with the listener of a consumer. A step of a consumer returns its
calls, and the bus carries them out. -/
inductive BusCall where
  | on | off

/-- What can happen to one consumer. -/
inductive Act where
  | pull | ret | abort
  /-- The generator goes on after its `await`. -/
  | resume
  /-- The value of a `yield` arrives. -/
  | deliver
  /-- The generator goes on after a `return`. -/
  | unwind

namespace Consumer

/-- `onEvent`. -/
def onEvent (c : Consumer) (e : BrokerEvent) : Consumer :=
  match c.phase with
  | .awaiting => { c with phase := .resolved (some e) }
  | _ => { c with queue := c.queue ++ [e] }

/-- `listener`. -/
def hear (e : BrokerEvent) (ref : Text) (c : Consumer) : Consumer :=
  if ref ≠ c.ref then c else c.onEvent e

/-- The end of the body, through `finally`.  What is still asked is answered. -/
def finish (c : Consumer) : Consumer × List BusCall :=
  ({ c with phase := .done, requests := [] }, [.off])

/-- The head of the loop. -/
def loop (c : Consumer) : Consumer × List BusCall :=
  if c.aborted then c.finish
  else match c.queue with
    | e :: queue => ({ c with phase := .yielding e, queue }, [])
    | [] => ({ c with phase := .awaiting }, [])

/-- `next()`. -/
def pull (c : Consumer) : Consumer × List BusCall :=
  match c.phase with
  | .notStarted =>
      let r := { c with requests := [.next] }.loop
      (r.1, .on :: r.2)
  | .suspended => { c with requests := [.next] }.loop
  | .done => (c, [])
  | _ => ({ c with requests := c.requests ++ [.next] }, [])

/-- `return()`.  Before the first pull the body never runs. -/
def ret (c : Consumer) : Consumer × List BusCall :=
  match c.phase with
  | .notStarted => ({ c with phase := .done }, [])
  | .suspended => ({ c with phase := .returning, requests := [.ret] }, [])
  | .done => (c, [])
  | _ => ({ c with requests := c.requests ++ [.ret] }, [])

/-- `onAbort`. -/
def onAbort (c : Consumer) : Consumer × List BusCall :=
  match c.phase with
  | .awaiting => ({ c with phase := .resolved none }, [.off])
  | _ => (c, [.off])

/-- The signal is aborted; `onAbort` is called while the body runs, and once. -/
def abort (c : Consumer) : Consumer × List BusCall :=
  if c.aborted then (c, [])
  else if c.phase.active then { c with aborted := true }.onAbort
  else ({ c with aborted := true }, [])

/-- The generator goes on after its `await`. -/
def resume (c : Consumer) : Option (Consumer × List BusCall) :=
  match c.phase with
  | .resolved (some e) => some ({ c with phase := .yielding e }, [])
  | .resolved none => some c.finish
  | _ => none

/-- A value arrives; the next request, if there is one, is taken up at once. -/
def delivered (c : Consumer) : Consumer × List BusCall :=
  match c.requests with
  | [] => ({ c with phase := .suspended }, [])
  | .next :: _ => c.loop
  | .ret :: _ => ({ c with phase := .returning }, [])

def deliver (c : Consumer) : Option (Consumer × List BusCall) :=
  match c.phase with
  | .yielding e =>
      some { c with received := c.received ++ [e], requests := c.requests.tail }.delivered
  | _ => none

/-- The generator goes on after a `return`. -/
def unwind (c : Consumer) : Option (Consumer × List BusCall) :=
  match c.phase with
  | .returning => some c.finish
  | _ => none

/-- What an act does to the consumer, and which calls of the bus it makes. -/
def act (c : Consumer) : Act → Option (Consumer × List BusCall)
  | .pull => some c.pull
  | .ret => some c.ret
  | .abort => some c.abort
  | .resume => c.resume
  | .deliver => c.deliver
  | .unwind => c.unwind

end Consumer

/-! ## The bus -/

/-- The consumers and the listeners on the bus, by the consumer they belong to. A consumer may
stand there more than once, so that a listener that is put on twice would show. -/
structure Bus where
  consumers : List Consumer := []
  listeners : List ℕ := []

/-- What can happen next. -/
inductive Event where
  | stream (ref : Text)
  | emit (e : BrokerEvent) (ref : Text)
  | act (i : ℕ) (a : Act)

/-- A call of the bus with the listener of a consumer. -/
def BusCall.apply (i : ℕ) (listeners : List ℕ) : BusCall → List ℕ
  | .on => listeners ++ [i]
  | .off => listeners.erase i

/-- `bus.emit`: every listener is called. A consumer with no listener does not hear the event, and
one that had put two on the bus would hear it twice. -/
def emit (s : Bus) (e : BrokerEvent) (ref : Text) : Bus :=
  { s with
    consumers := s.listeners.foldl (fun cs i => cs.modify i (Consumer.hear e ref)) s.consumers }

/-- The connector takes a step. -/
def step (s : Bus) : Event → Option Bus
  | .stream ref => some { s with consumers := s.consumers ++ [{ ref }] }
  | .emit e ref => some (emit s e ref)
  | .act i a =>
      (s.consumers[i]?).bind fun c => (c.act a).map fun r =>
        { consumers := s.consumers.set i r.1
          listeners := r.2.foldl (BusCall.apply i) s.listeners }

/-! ## What has been emitted for a consumer -/

/-- The events that have been emitted for a reference from the first pull of a consumer to its
abort. It is read off the run and knows nothing of the generator: what the stream is meant to
deliver. -/
structure Heard where
  started : Bool := false
  aborted : Bool := false
  events : List BrokerEvent := []

namespace Heard

def afterEmit (h : Heard) (ref : Text) (e : BrokerEvent) (ref' : Text) : Heard :=
  if ref' = ref ∧ h.started ∧ ¬ h.aborted then { h with events := h.events ++ [e] } else h

def afterAct (h : Heard) : Act → Heard
  | .pull => { h with started := true }
  | .abort => { h with aborted := true }
  | _ => h

def after (i : ℕ) (ref : Text) (h : Heard) : Event → Heard
  | .stream _ => h
  | .emit e ref' => h.afterEmit ref e ref'
  | .act j a => if j = i then h.afterAct a else h

end Heard

/-- The events for a consumer in a run: those for its reference from its first pull to its abort.
-/
def heard (i : ℕ) (ref : Text) (es : List Event) : Heard := es.foldl (Heard.after i ref) {}

/-! ## The invariant -/

/-- The value that the generator passes on. -/
def Phase.inFlight : Phase → List BrokerEvent
  | .resolved (some e) | .yielding e => [e]
  | _ => []

/-- What has been emitted for the consumer and not been received: the value that the generator
passes on, and then the queue. -/
def Consumer.pending (c : Consumer) : List BrokerEvent := c.phase.inFlight ++ c.queue

/-- A consumer whose body runs and that is not aborted. -/
def Consumer.live (c : Consumer) : Bool := c.phase.active && !c.aborted

/-- How many listeners a call leaves. -/
def BusCall.count (n : ℕ) : BusCall → ℕ
  | .on => n + 1
  | .off => n - 1

/-- A consumer with `n` listeners on the bus, and what has been emitted for it. It holds before
and after every act and every event on the bus; the properties of the streams are read off its
fields. -/
structure Sound (n : ℕ) (c : Consumer) (h : Heard) : Prop where
  listening : n = if c.live then 1 else 0
  aborted : h.aborted = c.aborted
  started : c.phase.active → h.started
  not_started : c.phase = .notStarted → ¬ h.started
  silent : ¬ h.started → h.events = []
  received : c.received ++ c.pending <+: h.events
  exact : c.live → c.received ++ c.pending = h.events
  awaiting : c.phase = .awaiting → c.queue = [] ∧ ¬ c.aborted
  resolved : c.phase = .resolved none → c.aborted

theorem sound_new (ref : Text) : Sound 0 { ref } {} where
  listening := rfl
  aborted := rfl
  started h := by cases h
  not_started _ h := by cases h
  silent _ := rfl
  received := List.prefix_rfl
  exact h := by cases h
  awaiting h := by cases h
  resolved h := by cases h

namespace Sound

variable {n : ℕ} {c c' : Consumer} {h : Heard}

/-- The end of the body. -/
theorem finish (hs : Sound n c h) (hflight : c.phase.inFlight = []) :
    Sound (BusCall.count n .off) c.finish.1 h where
  listening := by
    rw [hs.listening]
    cases c.live <;> rfl
  aborted := hs.aborted
  started h := by cases h
  not_started h := by cases h
  silent := hs.silent
  received := by
    have hreceived := hs.received
    rw [Consumer.pending, hflight] at hreceived
    exact hreceived
  exact h := by cases h
  awaiting h := by cases h
  resolved h := by cases h

/-- A step of a running body that keeps the values and their order. -/
theorem within (hs : Sound n c h) (hactive : c.phase.active) (hactive' : c'.phase.active)
    (haborted : c'.aborted = c.aborted)
    (hvalues : c'.received ++ c'.pending = c.received ++ c.pending)
    (hawaiting : c'.phase = .awaiting → c'.queue = [] ∧ ¬ c'.aborted)
    (hresolved : c'.phase ≠ .resolved none) : Sound n c' h where
  listening := by
    rw [hs.listening]
    simp [Consumer.live, hactive, hactive', haborted]
  aborted := hs.aborted.trans haborted.symm
  started _ := hs.started hactive
  not_started hphase := by
    rw [hphase] at hactive'
    cases hactive'
  silent := hs.silent
  received := by
    rw [hvalues]
    exact hs.received
  exact hlive := by
    rw [hvalues]
    exact hs.exact (by simpa [Consumer.live, hactive, hactive', haborted] using hlive)
  awaiting := hawaiting
  resolved hphase := absurd hphase hresolved

/-- The head of the loop, with a body that runs. -/
theorem loop (hs : Sound n c h) (hactive : c.phase.active) (hflight : c.phase.inFlight = []) :
    Sound (c.loop.2.foldl BusCall.count n) c.loop.1 h := by
  have hpending : c.pending = c.queue := by rw [Consumer.pending, hflight, List.nil_append]
  rw [Consumer.loop]
  split
  · exact hs.finish hflight
  · next haborted =>
      cases hqueue : c.queue with
      | nil =>
          -- the body sleeps until an event or the abort resolves it
          refine hs.within hactive rfl rfl ?_ (fun _ => ⟨rfl, haborted⟩) (by simp)
          rw [hpending, hqueue]
          rfl
      | cons e queue =>
          -- the first of the queue is in flight now
          refine hs.within hactive rfl rfl ?_ (by simp) (by simp)
          rw [hpending, hqueue]
          rfl

/-- What is asked does not matter. -/
theorem withRequests (hs : Sound n c h) (requests : List Request) :
    Sound n { c with requests } h :=
  ⟨hs.listening, hs.aborted, hs.started, hs.not_started, hs.silent, hs.received, hs.exact,
    hs.awaiting, hs.resolved⟩

/-- A phase of a running body that passes on the same value. -/
theorem withPhase (hs : Sound n c h) (hactive : c.phase.active) {phase : Phase}
    (hactive' : phase.active) (hflight : phase.inFlight = c.phase.inFlight)
    (hawaiting : phase ≠ .awaiting) (hresolved : phase ≠ .resolved none) :
    Sound n { c with phase } h := by
  refine hs.within hactive hactive' rfl ?_ (fun hphase => absurd hphase hawaiting) hresolved
  show c.received ++ (phase.inFlight ++ c.queue) = c.received ++ c.pending
  rw [hflight, Consumer.pending]

/-- The first pull. -/
theorem start (hs : Sound n c h) (hphase : c.phase = .notStarted) :
    Sound ((BusCall.on :: ({ c with requests := [.next] } : Consumer).loop.2).foldl
        BusCall.count n) ({ c with requests := [.next] } : Consumer).loop.1
      { h with started := true } := by
  have hlive : c.live = false := by rw [Consumer.live, hphase]; rfl
  have hnone : n = 0 := by rw [hs.listening, hlive]; rfl
  have hevents : h.events = [] := hs.silent (hs.not_started hphase)
  have hempty : c.received ++ c.pending = [] := List.prefix_nil.mp (hevents ▸ hs.received)
  obtain ⟨hreceived, hpending⟩ := List.append_eq_nil_iff.mp hempty
  have hqueue : c.queue = [] := (List.append_eq_nil_iff.mp hpending).2
  have hsuspended : ¬ c.aborted →
      Sound (n + 1) { c with phase := .suspended, requests := [.next] }
        { h with started := true } := by
    intro haborted
    exact
      { listening := by simp [Consumer.live, Phase.active, haborted, hnone]
        aborted := hs.aborted
        started := fun _ => rfl
        not_started := fun h => by cases h
        silent := fun h => absurd rfl h
        received := by simp [Consumer.pending, Phase.inFlight, hreceived, hqueue]
        exact := fun _ => by simp [Consumer.pending, Phase.inFlight, hreceived, hqueue, hevents]
        awaiting := fun h => by cases h
        resolved := fun h => by cases h }
  by_cases haborted : c.aborted
  · have hloop : ({ c with requests := [.next] } : Consumer).loop =
        ({ c with requests := [.next] } : Consumer).finish := if_pos haborted
    rw [hloop]
    exact
      { listening := by simp [hnone, Consumer.finish, BusCall.count, Consumer.live, Phase.active]
        aborted := hs.aborted
        started := fun h => by cases h
        not_started := fun h => by cases h
        silent := fun h => absurd rfl h
        received := by simp [Consumer.finish, Consumer.pending, Phase.inFlight, hreceived, hqueue]
        exact := fun h => by cases h
        awaiting := fun h => by cases h
        resolved := fun h => by cases h }
  · exact (hsuspended haborted).loop rfl rfl

end Sound

/-! ## One step -/

section Steps

variable {n : ℕ} {c c' : Consumer} {h : Heard} {calls : List BusCall}

theorem started_eq_self (hs : h.started) : { h with started := true } = h := by
  cases h
  cases hs
  rfl

theorem sound_pull (hs : Sound n c h) :
    Sound (c.pull.2.foldl BusCall.count n) c.pull.1 { h with started := true } := by
  have hrunning : c.phase.active → { h with started := true } = h := fun hactive =>
    started_eq_self (hs.started hactive)
  rw [Consumer.pull]
  split
  · next hphase => exact hs.start hphase
  · next hphase =>
      rw [hrunning (by rw [hphase]; rfl)]
      exact (hs.withRequests _).loop (by rw [hphase]; rfl) (by rw [hphase]; rfl)
  · next hphase =>
      -- the body has ended: what is emitted from now on is not received
      exact
        { listening := hs.listening
          aborted := hs.aborted
          started := fun _ => rfl
          not_started := fun h => by
            rw [hphase] at h
            cases h
          silent := fun h => absurd rfl h
          received := hs.received
          exact := hs.exact
          awaiting := hs.awaiting
          resolved := hs.resolved }
  · next hnew hsuspended hdone =>
      have hactive : c.phase.active := by
        cases hphase : c.phase <;> simp_all [Phase.active]
      rw [hrunning hactive]
      exact hs.withRequests _

theorem sound_ret (hs : Sound n c h) : Sound (c.ret.2.foldl BusCall.count n) c.ret.1 h := by
  rw [Consumer.ret]
  split
  · next hphase =>
      have hlive : c.live = false := by rw [Consumer.live, hphase]; rfl
      have hreceived := hs.received
      rw [Consumer.pending, hphase] at hreceived
      exact
        { listening := by rw [List.foldl_nil, hs.listening, hlive]; rfl
          aborted := hs.aborted
          started := fun h => by cases h
          not_started := fun h => by cases h
          silent := hs.silent
          received := hreceived
          exact := fun h => by cases h
          awaiting := fun h => by cases h
          resolved := fun h => by cases h }
  · next hphase =>
      have hreturning : Sound n { c with phase := .returning } h :=
        hs.withPhase (by rw [hphase]; rfl) rfl (by rw [hphase]; rfl) (by simp) (by simp)
      exact hreturning.withRequests _
  · exact hs
  · exact hs.withRequests _

/-- `onAbort` of a running body takes the listener off, and wakes a body that waits. -/
theorem sound_onAbort (hs : Sound n c h) (hactive : c.phase.active) (haborted : ¬ c.aborted) :
    Sound (({ c with aborted := true } : Consumer).onAbort.2.foldl BusCall.count n)
      ({ c with aborted := true } : Consumer).onAbort.1 { h with aborted := true } := by
  have hlive : c.live := by simp [Consumer.live, hactive, haborted]
  have hcount : BusCall.count n .off = 0 := by
    rw [hs.listening, hlive]
    rfl
  rw [Consumer.onAbort]
  split
  · next hphase =>
      have hphase : c.phase = .awaiting := hphase
      have hreceived := hs.received
      rw [Consumer.pending, hphase] at hreceived
      exact
        { listening := hcount
          aborted := rfl
          started := fun _ => hs.started hactive
          not_started := fun h => by cases h
          silent := hs.silent
          received := hreceived
          exact := fun h => by cases h
          awaiting := fun h => by cases h
          resolved := fun _ => rfl }
  · next hphase =>
      have hdead : ({ c with aborted := true } : Consumer).live = false := by
        simp [Consumer.live]
      exact
        { listening := by rw [hdead]; exact hcount
          aborted := rfl
          started := hs.started
          not_started := hs.not_started
          silent := hs.silent
          received := hs.received
          exact := fun h => by rw [hdead] at h; cases h
          awaiting := fun h => absurd h hphase
          resolved := fun _ => rfl }

theorem sound_abort (hs : Sound n c h) :
    Sound (c.abort.2.foldl BusCall.count n) c.abort.1 { h with aborted := true } := by
  rw [Consumer.abort]
  split
  · next haborted =>
      have hsame : { h with aborted := true } = h := by
        have := hs.aborted.trans haborted
        cases h
        cases this
        rfl
      rw [hsame]
      exact hs
  · next haborted =>
      split
      · next hactive => exact sound_onAbort hs hactive haborted
      · next hactive =>
          -- no body runs: nobody listens, and there is nothing to wake
          have hdead : c.live = false := by simp [Consumer.live, hactive]
          exact
            { listening := by
                rw [List.foldl_nil, hs.listening, hdead]
                simp [Consumer.live]
              aborted := rfl
              started := hs.started
              not_started := hs.not_started
              silent := hs.silent
              received := hs.received
              exact := fun h => by simp [Consumer.live] at h
              awaiting := fun h => by
                have hphase : c.phase = .awaiting := h
                rw [hphase] at hactive
                exact absurd rfl hactive
              resolved := fun _ => rfl }

theorem sound_resume (hs : Sound n c h) (hact : c.resume = some (c', calls)) :
    Sound (calls.foldl BusCall.count n) c' h := by
  rw [Consumer.resume] at hact
  split at hact
  · next e hphase =>
      cases hact
      exact hs.withPhase (by rw [hphase]; rfl) rfl (by rw [hphase]; rfl) (by simp) (by simp)
  · next hphase =>
      cases hact
      exact hs.finish (by rw [hphase]; rfl)
  · cases hact

theorem sound_deliver (hs : Sound n c h) (hact : c.deliver = some (c', calls)) :
    Sound (calls.foldl BusCall.count n) c' h := by
  rw [Consumer.deliver] at hact
  split at hact
  · next e hphase =>
      -- the value has gone over to the received ones
      have hsuspended : Sound n
          { c with
            phase := .suspended
            received := c.received ++ [e]
            requests := c.requests.tail } h := by
        refine hs.within (by rw [hphase]; rfl) rfl rfl ?_ (by simp) (by simp)
        show (c.received ++ [e]) ++ c.queue = c.received ++ c.pending
        rw [Consumer.pending, hphase, List.append_assoc]
        rfl
      obtain hact := Option.some.inj hact
      rw [Consumer.delivered] at hact
      split at hact
      · cases hact
        exact hsuspended
      · have hloop := hsuspended.loop rfl rfl
        have hsame : ({ c with
            phase := .suspended
            received := c.received ++ [e]
            requests := c.requests.tail } : Consumer).loop = (c', calls) := hact
        rw [hsame] at hloop
        exact hloop
      · cases hact
        exact hsuspended.withPhase rfl rfl rfl (by simp) (by simp)
  · cases hact

theorem sound_unwind (hs : Sound n c h) (hact : c.unwind = some (c', calls)) :
    Sound (calls.foldl BusCall.count n) c' h := by
  rw [Consumer.unwind] at hact
  split at hact
  · next hphase =>
      cases hact
      exact hs.finish (by rw [hphase]; rfl)
  · cases hact

/-- **Every act keeps a consumer sound.** -/
theorem sound_act {a : Act} (hs : Sound n c h) (hact : c.act a = some (c', calls)) :
    Sound (calls.foldl BusCall.count n) c' (h.afterAct a) := by
  cases a with
  | pull =>
      have hpull := sound_pull hs
      rw [show c.pull = (c', calls) from Option.some.inj hact] at hpull
      exact hpull
  | ret =>
      have hret := sound_ret hs
      rw [show c.ret = (c', calls) from Option.some.inj hact] at hret
      exact hret
  | abort =>
      have habort := sound_abort hs
      rw [show c.abort = (c', calls) from Option.some.inj hact] at habort
      exact habort
  | resume => exact sound_resume hs hact
  | deliver => exact sound_deliver hs hact
  | unwind => exact sound_unwind hs hact

/-- An event that reaches the listener is handed to a body that waits, or queued behind
what is pending. -/
theorem sound_onEvent (hs : Sound n c h) (hlive : c.live) (e : BrokerEvent) :
    Sound n (c.onEvent e) { h with events := h.events ++ [e] } := by
  have hactive : c.phase.active := (Bool.and_eq_true_iff.mp hlive).1
  have hstarted : h.started := hs.started hactive
  have hexact := hs.exact hlive
  rw [Consumer.onEvent]
  split
  · next hphase =>
      have hqueue := (hs.awaiting hphase).1
      have hevents : h.events = c.received := by
        rw [← hexact, Consumer.pending, hphase, hqueue]
        exact List.append_nil _
      have hpending : c.received ++ ([e] ++ c.queue) = h.events ++ [e] := by
        rw [hqueue, hevents, List.append_nil]
      exact
        { listening := by
            rw [hs.listening]
            simp [Consumer.live, hphase, Phase.active]
          aborted := hs.aborted
          started := fun _ => hstarted
          not_started := fun h => by cases h
          silent := fun h => absurd hstarted h
          received := hpending ▸ List.prefix_rfl
          exact := fun _ => hpending
          awaiting := fun h => by cases h
          resolved := fun h => by cases h }
  · next hphase =>
      have hpending : c.received ++ (c.phase.inFlight ++ (c.queue ++ [e])) =
          h.events ++ [e] := by
        rw [← hexact, Consumer.pending]
        simp
      exact
        { listening := hs.listening
          aborted := hs.aborted
          started := fun _ => hstarted
          not_started := hs.not_started
          silent := fun h => absurd hstarted h
          received := hpending ▸ List.prefix_rfl
          exact := fun _ => hpending
          awaiting := fun h => absurd h hphase
          resolved := hs.resolved }

/-- **Every event of the bus keeps a consumer sound.** -/
theorem sound_hear (hs : Sound n c h) (e : BrokerEvent) (ref : Text) :
    Sound n ((Consumer.hear e ref)^[n] c) (h.afterEmit c.ref e ref) := by
  rw [Heard.afterEmit]
  by_cases hlive : c.live
  · have hone : n = 1 := by simpa [hlive] using hs.listening
    have hactive : c.phase.active := (Bool.and_eq_true_iff.mp hlive).1
    have haborted : ¬ c.aborted := by simpa using (Bool.and_eq_true_iff.mp hlive).2
    have hheard : h.started ∧ ¬ h.aborted := ⟨hs.started hactive, hs.aborted ▸ haborted⟩
    rw [hone, Function.iterate_one, Consumer.hear]
    rw [hone] at hs
    by_cases href : ref = c.ref
    · rw [if_neg (not_not_intro href), if_pos ⟨href, hheard⟩]
      exact sound_onEvent hs hlive e
    · rw [if_pos href, if_neg fun h => href h.1]
      exact hs
  · have hzero : n = 0 := by simpa [hlive] using hs.listening
    rw [hzero, Function.iterate_zero, id]
    rw [hzero] at hs
    split
    · next hemit =>
        -- it listens no more, or its body has ended
        exact
          { listening := hs.listening
            aborted := hs.aborted
            started := hs.started
            not_started := hs.not_started
            silent := fun h => absurd hemit.2.1 h
            received := hs.received.trans (List.prefix_append _ _)
            exact := fun h => absurd h hlive
            awaiting := hs.awaiting
            resolved := hs.resolved }
    · exact hs

end Steps

/-! ## The bus -/

/-- How many values an act hands to the consumer. -/
def Act.delivers : Act → ℕ
  | .deliver => 1
  | _ => 0

theorem loop_ref (c : Consumer) : c.loop.1.ref = c.ref := by
  rw [Consumer.loop]
  split
  · rfl
  · split <;> rfl

theorem loop_received (c : Consumer) : c.loop.1.received = c.received := by
  rw [Consumer.loop]
  split
  · rfl
  · split <;> rfl

theorem pull_frame (c : Consumer) : c.pull.1.ref = c.ref ∧ c.pull.1.received = c.received := by
  rw [Consumer.pull]
  split
  · exact ⟨loop_ref _, loop_received _⟩
  · exact ⟨loop_ref _, loop_received _⟩
  · exact ⟨rfl, rfl⟩
  · exact ⟨rfl, rfl⟩

theorem ret_frame (c : Consumer) : c.ret.1.ref = c.ref ∧ c.ret.1.received = c.received := by
  rw [Consumer.ret]
  split <;> exact ⟨rfl, rfl⟩

theorem abort_frame (c : Consumer) :
    c.abort.1.ref = c.ref ∧ c.abort.1.received = c.received := by
  rw [Consumer.abort, Consumer.onAbort]
  split
  · exact ⟨rfl, rfl⟩
  · split
    · split <;> exact ⟨rfl, rfl⟩
    · exact ⟨rfl, rfl⟩

theorem delivered_frame (c : Consumer) :
    c.delivered.1.ref = c.ref ∧ c.delivered.1.received = c.received := by
  rw [Consumer.delivered]
  split
  · exact ⟨rfl, rfl⟩
  · exact ⟨loop_ref _, loop_received _⟩
  · exact ⟨rfl, rfl⟩

/-- The frame of an act: the reference stays, and only a delivery hands out a value. -/
theorem act_frame {c c' : Consumer} {a : Act} {calls : List BusCall}
    (hact : c.act a = some (c', calls)) :
    c'.ref = c.ref ∧ c'.received.length = c.received.length + a.delivers := by
  cases a with
  | pull =>
      obtain ⟨href, hreceived⟩ := pull_frame c
      obtain rfl : c.pull.1 = c' := congrArg Prod.fst (Option.some.inj hact)
      exact ⟨href, congrArg List.length hreceived⟩
  | ret =>
      obtain ⟨href, hreceived⟩ := ret_frame c
      obtain rfl : c.ret.1 = c' := congrArg Prod.fst (Option.some.inj hact)
      exact ⟨href, congrArg List.length hreceived⟩
  | abort =>
      obtain ⟨href, hreceived⟩ := abort_frame c
      obtain rfl : c.abort.1 = c' := congrArg Prod.fst (Option.some.inj hact)
      exact ⟨href, congrArg List.length hreceived⟩
  | resume =>
      rw [Consumer.act, Consumer.resume] at hact
      split at hact
      · cases hact
        exact ⟨rfl, rfl⟩
      · cases hact
        exact ⟨rfl, rfl⟩
      · cases hact
  | deliver =>
      rw [Consumer.act, Consumer.deliver] at hact
      split at hact
      · next e hphase =>
          obtain ⟨href, hreceived⟩ := delivered_frame
            { c with received := c.received ++ [e], requests := c.requests.tail }
          rw [Option.some.inj hact] at href hreceived
          refine ⟨href, (congrArg List.length hreceived).trans ?_⟩
          rw [List.length_append]
          rfl
      · cases hact
  | unwind =>
      rw [Consumer.act, Consumer.unwind] at hact
      split at hact
      · cases hact
        exact ⟨rfl, rfl⟩
      · cases hact

/-- The frame of an event on the bus. -/
theorem hear_frame (e : BrokerEvent) (ref : Text) (n : ℕ) (c : Consumer) :
    ((Consumer.hear e ref)^[n] c).ref = c.ref ∧
      ((Consumer.hear e ref)^[n] c).received = c.received := by
  induction n with
  | zero => exact ⟨rfl, rfl⟩
  | succ n ih =>
      rw [Function.iterate_succ_apply', Consumer.hear]
      split
      · exact ih
      · rw [Consumer.onEvent]
        split <;> exact ih

/-- How many listeners of a consumer its own calls leave. -/
theorem count_apply_self (i : ℕ) (calls : List BusCall) (listeners : List ℕ) :
    (calls.foldl (BusCall.apply i) listeners).count i =
      calls.foldl BusCall.count (listeners.count i) := by
  induction calls generalizing listeners with
  | nil => rfl
  | cons call calls ih =>
      rw [List.foldl_cons, List.foldl_cons, ih]
      cases call with
      | on => rw [BusCall.apply, List.count_append, List.count_singleton_self, BusCall.count]
      | off => rw [BusCall.apply, List.count_erase_self, BusCall.count]

/-- The listeners of the others stay. -/
theorem count_apply_of_ne {i j : ℕ} (hne : j ≠ i) (calls : List BusCall) (listeners : List ℕ) :
    (calls.foldl (BusCall.apply i) listeners).count j = listeners.count j := by
  induction calls generalizing listeners with
  | nil => rfl
  | cons call calls ih =>
      rw [List.foldl_cons, ih]
      cases call with
      | on => simp [BusCall.apply, Ne.symm hne]
      | off => rw [BusCall.apply, List.count_erase_of_ne hne]

/-- A consumer hears an event once for each of its listeners. -/
theorem getElem?_emit (s : Bus) (e : BrokerEvent) (ref : Text) (j : ℕ) :
    (emit s e ref).consumers[j]? =
      (s.consumers[j]?).map (Consumer.hear e ref)^[s.listeners.count j] := by
  have hfold : ∀ (listeners : List ℕ) (cs : List Consumer),
      (listeners.foldl (fun cs i => cs.modify i (Consumer.hear e ref)) cs)[j]? =
        (cs[j]?).map (Consumer.hear e ref)^[listeners.count j] := by
    intro listeners
    induction listeners with
    | nil =>
        intro cs
        exact Option.map_id'.symm
    | cons i listeners ih =>
        intro cs
        rw [List.foldl_cons, ih, List.getElem?_modify]
        cases cs[j]? with
        | none => rfl
        | some c =>
            by_cases hij : i = j
            · simp [hij]
            · simp [hij, List.count_cons_of_ne hij]
  exact hfold _ _

/-- Every consumer is sound, with the number of its listeners on the bus; and a consumer that is
not there yet has none. -/
structure BusSound (s : Bus) (H : ℕ → Text → Heard) : Prop where
  sound : ∀ i c, s.consumers[i]? = some c → Sound (s.listeners.count i) c (H i c.ref)
  fresh : ∀ i, s.consumers.length ≤ i → s.listeners.count i = 0 ∧ ∀ ref, H i ref = {}

/-- A new consumer is sound, and has heard nothing. -/
theorem busSound_stream {s : Bus} {H : ℕ → Text → Heard} (hs : BusSound s H) (ref : Text) :
    BusSound { s with consumers := s.consumers ++ [{ ref }] } H where
  sound i c hc := by
    rcases lt_trichotomy i s.consumers.length with hlt | heq | hgt
    · rw [List.getElem?_append_left hlt] at hc
      exact hs.sound i c hc
    · obtain ⟨hcount, hheard⟩ := hs.fresh i heq.ge
      rw [heq, List.getElem?_concat_length] at hc
      rw [← Option.some.inj hc, hcount, hheard]
      exact sound_new ref
    · rw [List.getElem?_eq_none (by simpa using hgt)] at hc
      cases hc
  fresh i hi := by
    rw [List.length_append] at hi
    exact hs.fresh i (by omega)

theorem busSound_emit {s : Bus} {H : ℕ → Text → Heard} (hs : BusSound s H) (e : BrokerEvent)
    (ref : Text) : BusSound (emit s e ref) fun i ref' => (H i ref').afterEmit ref' e ref where
  sound i c hc := by
    rw [getElem?_emit] at hc
    obtain ⟨d, hd, rfl⟩ := Option.map_eq_some_iff.mp hc
    rw [(hear_frame e ref _ d).1]
    exact sound_hear (hs.sound i d hd) e ref
  fresh i hi := by
    have hlength : (emit s e ref).consumers.length ≤ i ↔ s.consumers.length ≤ i := by
      rw [← List.getElem?_eq_none_iff, ← List.getElem?_eq_none_iff, getElem?_emit,
        Option.map_eq_none_iff]
    obtain ⟨hcount, hheard⟩ := hs.fresh i (hlength.mp hi)
    refine ⟨hcount, fun ref' => ?_⟩
    -- a consumer that is not there yet has not been pulled
    rw [hheard, Heard.afterEmit]
    exact if_neg fun h => by cases h.2.1

/-- An act of one consumer, with the calls it makes, leaves the others as they are. -/
theorem busSound_act {s : Bus} {H : ℕ → Text → Heard} (hs : BusSound s H) {j : ℕ} {a : Act}
    {c c' : Consumer} {calls : List BusCall} (hc : s.consumers[j]? = some c)
    (hact : c.act a = some (c', calls)) :
    BusSound
      { consumers := s.consumers.set j c'
        listeners := calls.foldl (BusCall.apply j) s.listeners }
      fun i ref => if j = i then (H i ref).afterAct a else H i ref where
  sound i d hd := by
    by_cases hij : i = j
    · subst hij
      rw [List.getElem?_set_self (List.getElem?_eq_some_iff.mp hc).1] at hd
      obtain rfl := Option.some.inj hd
      rw [count_apply_self, (act_frame hact).1, if_pos rfl]
      exact sound_act (hs.sound i c hc) hact
    · rw [List.getElem?_set_ne (Ne.symm hij)] at hd
      rw [count_apply_of_ne hij, if_neg (Ne.symm hij)]
      exact hs.sound i d hd
  fresh i hi := by
    rw [List.length_set] at hi
    have hj : j < s.consumers.length := (List.getElem?_eq_some_iff.mp hc).1
    have hij : i ≠ j := by omega
    obtain ⟨hcount, hheard⟩ := hs.fresh i hi
    rw [count_apply_of_ne hij]
    refine ⟨hcount, fun ref => ?_⟩
    rw [if_neg (Ne.symm hij), hheard]

/-- **The step lemma.** -/
theorem busSound_step {s s' : Bus} {H : ℕ → Text → Heard} {e : Event} (hs : BusSound s H)
    (hstep : step s e = some s') : BusSound s' fun i ref => (H i ref).after i ref e := by
  cases e with
  | stream ref =>
      cases hstep
      exact busSound_stream hs ref
  | emit e ref =>
      cases hstep
      exact busSound_emit hs e ref
  | act j a =>
      obtain ⟨c, hc, hact⟩ := Option.bind_eq_some_iff.mp hstep
      obtain ⟨⟨c', calls⟩, hcalls, rfl⟩ := Option.map_eq_some_iff.mp hact
      exact busSound_act hs hc hcalls

/-- **The run lemma.** -/
theorem busSound_run {s s' : Bus} {H : ℕ → Text → Heard} {es : List Event} (hs : BusSound s H)
    (hrun : run step s es = some s') :
    BusSound s' fun i ref => es.foldl (Heard.after i ref) (H i ref) := by
  induction es generalizing s H with
  | nil =>
      cases hrun
      exact hs
  | cons e es ih =>
      obtain ⟨t, ht, hrest⟩ := (run_cons step).mp hrun
      exact ih (busSound_step hs ht) hrest

theorem busSound_of_run {s : Bus} {es : List Event} (hrun : run step {} es = some s) :
    BusSound s fun i ref => heard i ref es := by
  apply @busSound_run {} s (fun _ _ => {})
  · constructor
    · intro i c hc
      cases hc
    · exact fun i _ => ⟨rfl, fun _ => rfl⟩
  · exact hrun

/-! ## A consumer that keeps pulling -/

/-- How many values an event hands to a consumer. -/
def Event.delivers (i : ℕ) : Event → ℕ
  | .act j a => if j = i then a.delivers else 0
  | _ => 0

/-- How many values a consumer is handed in a run. -/
def deliveries (i : ℕ) (es : List Event) : ℕ := (es.map (Event.delivers i)).sum

theorem getElem?_step {s s' : Bus} {e : Event} (hstep : step s e = some s') {i : ℕ} {c : Consumer}
    (hc : s.consumers[i]? = some c) : ∃ c', s'.consumers[i]? = some c' ∧ c'.ref = c.ref ∧
      c'.received.length = c.received.length + e.delivers i := by
  have hi : i < s.consumers.length := (List.getElem?_eq_some_iff.mp hc).1
  cases e with
  | stream ref =>
      cases hstep
      exact ⟨c, (List.getElem?_append_left hi).trans hc, rfl, rfl⟩
  | emit e ref =>
      cases hstep
      obtain ⟨href, hreceived⟩ := hear_frame e ref (s.listeners.count i) c
      exact ⟨_, by rw [getElem?_emit, hc]; rfl, href, congrArg List.length hreceived⟩
  | act j a =>
      obtain ⟨d, hd, hact⟩ := Option.bind_eq_some_iff.mp hstep
      obtain ⟨⟨d', calls⟩, hdcalls, rfl⟩ := Option.map_eq_some_iff.mp hact
      by_cases hij : j = i
      · subst hij
        rw [hc] at hd
        obtain rfl := Option.some.inj hd
        obtain ⟨href, hreceived⟩ := act_frame hdcalls
        refine ⟨d', List.getElem?_set_self hi, href, ?_⟩
        show _ = _ + if j = j then a.delivers else 0
        rw [if_pos rfl, hreceived]
      · refine ⟨c, (List.getElem?_set_ne hij).trans hc, rfl, ?_⟩
        show _ = _ + if j = i then a.delivers else 0
        rw [if_neg hij]
        rfl

theorem getElem?_run {s s' : Bus} {es : List Event} (hrun : run step s es = some s') {i : ℕ}
    {c : Consumer} (hc : s.consumers[i]? = some c) : ∃ c', s'.consumers[i]? = some c' ∧
      c'.ref = c.ref ∧ c'.received.length = c.received.length + deliveries i es := by
  induction es generalizing s c with
  | nil =>
      cases hrun
      exact ⟨c, hc, rfl, rfl⟩
  | cons e es ih =>
      obtain ⟨t, ht, hrest⟩ := (run_cons step).mp hrun
      obtain ⟨d, hd, href, hreceived⟩ := getElem?_step ht hc
      obtain ⟨c', hc', href', hreceived'⟩ := ih hrest hd
      refine ⟨c', hc', href'.trans href, ?_⟩
      rw [hreceived', hreceived, deliveries, deliveries, List.map_cons, List.sum_cons, add_assoc]

/-- What a consumer does that keeps pulling. -/
inductive Act.Pulls : Act → Prop
  | pull : Pulls .pull
  | resume : Pulls .resume
  | deliver : Pulls .deliver

/-- A consumer by itself. -/
def Consumer.after (c : Consumer) (a : Act) : Option Consumer := (c.act a).map Prod.fst

/-- What a consumer can do by itself it can do on the bus. -/
theorem run_lift {i : ℕ} {acts : List Act} {c c' : Consumer} {s : Bus}
    (hc : s.consumers[i]? = some c) (hrun : run Consumer.after c acts = some c') :
    ∃ s', run step s (acts.map (.act i)) = some s' ∧ s'.consumers[i]? = some c' := by
  induction acts generalizing c s with
  | nil =>
      cases hrun
      exact ⟨s, rfl, hc⟩
  | cons a acts ih =>
      obtain ⟨d, hd, hrest⟩ := (run_cons _).mp hrun
      obtain ⟨⟨d', calls⟩, hact, rfl⟩ := Option.map_eq_some_iff.mp hd
      have hi : i < s.consumers.length := (List.getElem?_eq_some_iff.mp hc).1
      let t : Bus :=
        { consumers := s.consumers.set i d'
          listeners := calls.foldl (BusCall.apply i) s.listeners }
      have hstep : step s (.act i a) = some t := by
        rw [step, hc, Option.bind_some, hact]
        rfl
      have hd' : t.consumers[i]? = some d' := List.getElem?_set_self hi
      obtain ⟨s', hs', hc'⟩ := ih hd' hrest
      exact ⟨s', (run_cons step).mpr ⟨t, hstep, hs'⟩, hc'⟩

theorem loop_of_cons {c : Consumer} {e : BrokerEvent} {queue : List BrokerEvent}
    (haborted : ¬ c.aborted) (hqueue : c.queue = e :: queue) :
    c.loop = ({ c with phase := .yielding e, queue }, []) := by
  rw [Consumer.loop, if_neg haborted, hqueue]

theorem delivered_of_nil {c : Consumer} (hrequests : c.requests = []) :
    c.delivered = ({ c with phase := .suspended }, []) := by
  rw [Consumer.delivered, hrequests]

theorem delivered_of_next {c : Consumer} {requests : List Request}
    (hrequests : c.requests = .next :: requests) : c.delivered = c.loop := by
  rw [Consumer.delivered, hrequests]

/-- An act of a consumer that keeps pulling. -/
def Consumer.Pulled (c d : Consumer) : Prop := ∃ a, Act.Pulls a ∧ c.after a = some d

theorem after_deliver {c : Consumer} {e : BrokerEvent} (hphase : c.phase = .yielding e) :
    c.after .deliver = some ({ c with
      received := c.received ++ [e]
      requests := c.requests.tail } : Consumer).delivered.1 := by
  rw [Consumer.after, Consumer.act, Consumer.deliver, hphase]
  rfl

/-- A value arrives, and the first of the queue is on its way: the next pull is there
already or comes now. -/
theorem next_yielding {c : Consumer} {e e' : BrokerEvent} {queue : List BrokerEvent}
    (hphase : c.phase = .yielding e) (hqueue : c.queue = e' :: queue) (haborted : ¬ c.aborted)
    (hret : .ret ∉ c.requests) :
    ∃ d, Relation.ReflTransGen Consumer.Pulled c d ∧ d.phase = .yielding e' ∧ d.queue = queue ∧
      ¬ d.aborted ∧ .ret ∉ d.requests ∧ d.received = c.received ++ [e] := by
  let d : Consumer :=
    { c with
      received := c.received ++ [e]
      requests := c.requests.tail }
  have hdeliver : c.after .deliver = some d.delivered.1 := after_deliver hphase
  cases hrequests : c.requests.tail with
  | nil =>
      have hsuspended : d.delivered.1 = { d with phase := .suspended } :=
        congrArg Prod.fst (delivered_of_nil hrequests)
      let d' : Consumer :=
        { d with
          phase := .yielding e'
          queue := queue
          requests := [.next] }
      have hpull : d.delivered.1.after .pull = some d' := by
        rw [hsuspended]
        have hloop := @loop_of_cons { d with phase := .suspended, requests := [.next] } e'
          queue haborted hqueue
        exact congrArg (fun r => some (Prod.fst r)) hloop
      refine ⟨d', ?_, rfl, rfl, haborted, by simp [d'], rfl⟩
      exact .head ⟨.deliver, .deliver, hdeliver⟩ (.single ⟨.pull, .pull, hpull⟩)
  | cons request requests =>
      cases request with
      | ret =>
          have hmem : Request.ret ∈ c.requests.tail := hrequests ▸ List.mem_cons_self
          exact absurd (List.mem_of_mem_tail hmem) hret
      | next =>
          have hnext : d.delivered.1 = { d with phase := .yielding e', queue := queue } := by
            have hdelivered := @delivered_of_next d _ hrequests
            rw [hdelivered, @loop_of_cons d e' queue haborted hqueue]
          rw [hnext] at hdeliver
          refine ⟨_, .single ⟨.deliver, .deliver, hdeliver⟩, rfl, rfl, haborted, ?_, rfl⟩
          exact fun hmem => hret (List.mem_of_mem_tail hmem)

/-- A value that is on its way arrives, and with further pulls what is queued. -/
theorem drain_yielding {queue : List BrokerEvent} {c : Consumer} {e : BrokerEvent}
    (hphase : c.phase = .yielding e) (hqueue : c.queue = queue) (haborted : ¬ c.aborted)
    (hret : .ret ∉ c.requests) :
    ∃ c', Relation.ReflTransGen Consumer.Pulled c c' ∧
      c'.received = c.received ++ e :: queue := by
  induction queue generalizing c e with
  | nil =>
      refine ⟨_, .single ⟨.deliver, .deliver, after_deliver hphase⟩, ?_⟩
      rw [Consumer.delivered]
      split
      · rfl
      · exact loop_received _
      · rfl
  | cons e' queue ih =>
      obtain ⟨d, hd, hphase', hqueue', haborted', hret', hreceived'⟩ :=
        next_yielding hphase hqueue haborted hret
      obtain ⟨c', hc', hreceived⟩ := ih hphase' hqueue' haborted' hret'
      refine ⟨c', hd.trans hc', ?_⟩
      rw [hreceived, hreceived', List.append_assoc]
      rfl

/-- A live consumer that asks for no return receives what is pending, once it has pulled
often enough. -/
theorem drain {n : ℕ} {c : Consumer} {h : Heard} (hs : Sound n c h) (hlive : c.live)
    (hreturning : c.phase ≠ .returning) (hret : .ret ∉ c.requests) :
    ∃ c', Relation.ReflTransGen Consumer.Pulled c c' ∧
      c'.received = c.received ++ c.pending := by
  have hactive : c.phase.active := (Bool.and_eq_true_iff.mp hlive).1
  have haborted : ¬ c.aborted := by simpa using (Bool.and_eq_true_iff.mp hlive).2
  -- after one act the next value is on its way
  have hafter : ∀ {d : Consumer} {e : BrokerEvent}, c.Pulled d → d.phase = .yielding e →
      ¬ d.aborted → .ret ∉ d.requests → d.received = c.received → c.pending = e :: d.queue →
      ∃ c', Relation.ReflTransGen Consumer.Pulled c c' ∧
        c'.received = c.received ++ c.pending := by
    intro d e hd hphase haborted' hret' hreceived hpending
    obtain ⟨c', hc', hreceived'⟩ := drain_yielding hphase rfl haborted' hret'
    refine ⟨c', .head hd hc', ?_⟩
    rw [hreceived', hreceived, hpending]
  cases hphase : c.phase with
  | notStarted =>
      rw [hphase] at hactive
      cases hactive
  | awaiting =>
      refine ⟨c, .refl, ?_⟩
      rw [Consumer.pending, hphase, (hs.awaiting hphase).1]
      exact (List.append_nil _).symm
  | resolved ev =>
      cases ev with
      | none => exact absurd (hs.resolved hphase) haborted
      | some e =>
          have hresume : c.after .resume = some { c with phase := .yielding e } := by
            rw [Consumer.after, Consumer.act, Consumer.resume, hphase]
            rfl
          refine hafter ⟨.resume, .resume, hresume⟩ rfl haborted hret rfl ?_
          rw [Consumer.pending, hphase]
          rfl
  | yielding e =>
      obtain ⟨c', hc', hreceived⟩ := drain_yielding hphase rfl haborted hret
      refine ⟨c', hc', ?_⟩
      rw [hreceived, Consumer.pending, hphase]
      rfl
  | suspended =>
      cases hqueue : c.queue with
      | nil =>
          refine ⟨c, .refl, ?_⟩
          rw [Consumer.pending, hphase, hqueue]
          exact (List.append_nil _).symm
      | cons e queue =>
          have hpull : c.after .pull =
              some { c with phase := .yielding e, queue, requests := [.next] } := by
            have hloop := @loop_of_cons { c with requests := [.next] } e queue haborted hqueue
            rw [Consumer.after, Consumer.act, Consumer.pull, hphase]
            exact congrArg (fun r => some (Prod.fst r)) hloop
          refine hafter ⟨.pull, .pull, hpull⟩ rfl haborted (by simp) rfl ?_
          rw [Consumer.pending, hphase, hqueue]
          rfl
  | returning => exact absurd hphase hreturning
  | done =>
      rw [hphase] at hactive
      cases hactive

theorem afterEmit_prefix (h : Heard) (ref : Text) (e : BrokerEvent) (ref' : Text) :
    h.events <+: (h.afterEmit ref e ref').events := by
  rw [Heard.afterEmit]
  split
  · exact List.prefix_append _ _
  · exact List.prefix_rfl

/-- What has been emitted for a consumer stays emitted. -/
theorem heard_prefix (i : ℕ) (ref : Text) (es fs : List Event) :
    (heard i ref es).events <+: (heard i ref (es ++ fs)).events := by
  induction fs using List.reverseRecOn with
  | nil => rw [List.append_nil]
  | append_singleton fs e ih =>
      have hlast : heard i ref (es ++ (fs ++ [e])) = (heard i ref (es ++ fs)).after i ref e := by
        rw [heard, ← List.append_assoc, List.foldl_append]
        rfl
      rw [hlast]
      refine ih.trans ?_
      cases e with
      | stream ref' => exact List.prefix_rfl
      | emit e ref' => exact afterEmit_prefix _ _ _ _
      | act j a =>
          show _ <+: (if j = i then _ else _ : Heard).events
          split
          · cases a <;> exact List.prefix_rfl
          · exact List.prefix_rfl

/-! ## The contract of `stream` -/

/-- **The streams deliver.**  In every run, each consumer has received a prefix of what has
been emitted for its reference from its first pull to its abort, and all of it whenever
it waits; what has been emitted is received after as many deliveries, which a consumer
that keeps pulling gets; and a consumer that is at its end or aborted has no listener. -/
theorem streams_deliver {es : List Event} {s : Bus} (hrun : run step {} es = some s) {i : ℕ}
    {c : Consumer} (hc : s.consumers[i]? = some c) :
    c.received <+: (heard i c.ref es).events ∧
    (c.phase = .awaiting → c.received = (heard i c.ref es).events) ∧
    (c.live → ∀ fs s' c', run step s fs = some s' → s'.consumers[i]? = some c' →
      c.pending.length ≤ deliveries i fs → (heard i c.ref es).events <+: c'.received) ∧
    (c.live → c.phase ≠ .returning → .ret ∉ c.requests →
      ∃ (acts : List Act) (s' : Bus) (c' : Consumer),
      (∀ a ∈ acts, Act.Pulls a) ∧ run step s (acts.map (.act i)) = some s' ∧
      s'.consumers[i]? = some c' ∧ c'.received = (heard i c.ref es).events) ∧
    (c.phase = .done ∨ c.aborted → i ∉ s.listeners) := by
  have hs := (busSound_of_run hrun).sound i c hc
  refine ⟨(List.prefix_append _ _).trans hs.received, ?_, ?_, ?_, ?_⟩
  · intro hphase
    obtain ⟨hqueue, haborted⟩ := hs.awaiting hphase
    have hexact := hs.exact (by simp [Consumer.live, hphase, haborted, Phase.active])
    rw [Consumer.pending, hphase, hqueue] at hexact
    exact (List.append_nil _).symm.trans hexact
  · intro hlive fs s' c' hfs hc' hlength
    obtain ⟨d, hd, href, hreceived⟩ := getElem?_run hfs hc
    obtain rfl : d = c' := Option.some.inj (hd.symm.trans hc')
    have hs' := (busSound_of_run ((run_append step).mpr ⟨s, hrun, hfs⟩)).sound i d hc'
    have hprefix : d.received <+: (heard i c.ref (es ++ fs)).events :=
      href ▸ (List.prefix_append _ _).trans hs'.received
    have hgrows := heard_prefix i c.ref es fs
    refine List.prefix_of_prefix_length_le hgrows hprefix ?_
    rw [← hs.exact hlive, List.length_append, hreceived]
    omega
  · intro hlive hreturning hret
    obtain ⟨c', hpulled, hreceived⟩ := drain hs hlive hreturning hret
    obtain ⟨acts, hacts, hc'⟩ := exists_run_iff_reflTransGen.mpr hpulled
    obtain ⟨s', hs', hc''⟩ := run_lift hc hc'
    exact ⟨acts, s', c', hacts, hs', hc'', hreceived.trans (hs.exact hlive)⟩
  · intro hend
    have hdead : c.live = false := by
      rcases hend with hphase | haborted
      · rw [Consumer.live, hphase]
        rfl
      · simp [Consumer.live, haborted]
    have hcount := hs.listening
    rw [hdead] at hcount
    exact List.count_eq_zero.mp hcount

/-- Two events of an order. -/
def sampleEvent : BrokerEvent := .orderState "7" "pending"

def laterEvent : BrokerEvent := .orderState "7" "filled"

/-- A consumer waits, an event arrives and is delivered, and another one arrives. -/
def sampleRun : List Event :=
  [.stream "mt5-Demo-1", .act 0 .pull, .emit sampleEvent "mt5-Demo-1", .act 0 .resume,
    .act 0 .deliver, .emit laterEvent "mt5-Demo-1"]

/-- The consumer has the first event, and gets the second one when it goes on. -/
theorem sample_delivered : ∃ s c, run step {} sampleRun = some s ∧ s.consumers[0]? = some c ∧
    c.received = [sampleEvent] ∧ c.received <+: (heard 0 c.ref sampleRun).events ∧
    (c.phase = .awaiting → c.received = (heard 0 c.ref sampleRun).events) ∧
    (∀ fs s' c', run step s fs = some s' → s'.consumers[0]? = some c' →
      c.pending.length ≤ deliveries 0 fs → [sampleEvent, laterEvent] <+: c'.received) ∧
    (∃ (acts : List Act) (s' : Bus) (c' : Consumer), (∀ a ∈ acts, Act.Pulls a) ∧
      run step s (acts.map (.act 0)) = some s' ∧ s'.consumers[0]? = some c' ∧
      c'.received = [sampleEvent, laterEvent]) ∧
    (c.phase = .done ∨ c.aborted → 0 ∉ s.listeners) := by
  obtain ⟨hfirst, hwaits, hlater, hpulled, hends⟩ := @streams_deliver sampleRun _ rfl 0 _ rfl
  exact ⟨_, _, rfl, rfl, rfl, hfirst, hwaits, hlater rfl, hpulled rfl nofun nofun, hends⟩

end AkronSlot.Slot.EventBus
