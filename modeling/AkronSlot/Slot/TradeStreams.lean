import AkronSlot.Slot.EventStreams
import AkronSlot.Slot.FillNetting

/-!
# What the streams are told of an order

`openTrade` and `closeTrade` tell the subscribers that an order is pending when the
response to their command is processed.  Fills and order states come in event frames on
another connection, and nothing waits for the response: an order that the broker fills at
once is filled first and pending afterwards.

A step of the connector puts its events on the bus, where the consumers of `stream` hear
them; `numberText` is the text of a number.

## Trails

What a subscriber has received and what is on its way to it are one sequence, its trail:
consuming moves the border between the two and leaves the sequence as it is (`act_trail`), and
an event of the bus is added at its end (`emit_trail`). So the order in which a subscriber is
told things is settled when the events are emitted, however slowly it reads, and the question
comes down to one step of the connector: does it say `pending` of an order that has been
executed already?

## Main Definitions

* `Trade`, `TradeStreams`, `step`
* `Executes`, `SaysPending`, `InOrder`
* `Timely` — no subscriber has been told of a fill of the order

## Main Results

* `trailsInOrder_step`, `trailsInOrder_iff`
* `received_inOrder`
-/

namespace AkronSlot.Slot

open Wire Systems EventBus

/-- The two calls that tell the subscribers of their order. -/
inductive Trade where
  | openTrade (order : NewOrder)
  | closeTrade (positionId : Text) (qty : Option JsNumber)

/-- What a call makes of the answer to its command. -/
def Trade.result (rec : AccountRecord) (clientOrderId : Uuid) (r : CommandResult) :
    Trade → OrderResult
  | .openTrade order => Slot.openTrade (fun _ _ => r) (some rec) clientOrderId order
  | .closeTrade positionId qty =>
      Slot.closeTrade (fun _ _ => r) (some rec) clientOrderId positionId qty

/-- A call that has dispatched its command. It holds the record it has found, and its reference,
until the response is processed. -/
structure OpenCall where
  ref : Text
  account : AccountRecord
  clientOrderId : Uuid
  trade : Trade
  settled : Bool := false

/-- The connector, the consumers of its bus, and the calls. The connector puts on the bus what
events tell, and the calls what they have opened. -/
structure TradeStreams where
  connector : Mt5Connector := Mt5Connector.initial
  streams : Bus := {}
  calls : List OpenCall := []

/-- What a subscriber has received and what is on its way to it. -/
def EventBus.Consumer.trail (c : Consumer) : List BrokerEvent := c.received ++ c.pending

namespace TradeStreams

/-- What can happen next. An event frame meets the accounts of its time. That a call is answered
and that an event frame comes are independent of each other, which is the point. -/
inductive Event where
  | connector (rows : List AccountRow) (e : Mt5Connector.Event)
  | trade (ref : Text) (clientOrderId : Uuid) (trade : Trade)
  /-- The command of a call is answered. -/
  | respond (j : ℕ) (r : CommandResult)
  | stream (ref : Text)
  | act (i : ℕ) (a : Act)

/-- The listeners of the bus are called with what the connector has emitted. -/
def hear (streams : Bus) (emitted : List (BrokerEvent × Text)) : Bus :=
  emitted.foldl (fun b e => emit b e.1 e.2) streams

/-- The connector goes on. -/
def advance (s : TradeStreams) (connector : Mt5Connector) : TradeStreams :=
  { s with
    connector
    streams := hear s.streams (connector.bus.drop s.connector.bus.length) }

section Steps

variable (numberText : Numeral → Text)

/-- The order that a call tells the subscribers of when its command is answered. -/
def pendingOrder (call : OpenCall) (r : CommandResult) : Option Text :=
  match call.trade.result call.account call.clientOrderId r with
  | .placed _ brokerOrderId => some (stringOf numberText brokerOrderId)
  | .failed _ => none

/-- A call goes on after its command. -/
def settle (s : TradeStreams) (call : OpenCall) (r : CommandResult) : TradeStreams :=
  match pendingOrder numberText call r with
  | some id => s.advance (s.connector.emitToBus (.orderState id "pending") call.ref)
  | none => s

/-- The slot takes a step.  Without a record under its reference a call fails at once. -/
def step (s : TradeStreams) : Event → Option TradeStreams
  | .connector rows e => (s.connector.step numberText rows e).map s.advance
  | .trade ref clientOrderId trade =>
      match s.connector.accounts.get ref with
      | none => some s
      | some rec =>
          some { s with
            calls := s.calls ++
              [{ ref, account := rec.toAccountRecord, clientOrderId, trade }] }
  | .respond j r =>
      (s.calls[j]?).bind fun call =>
        if call.settled then none
        else
          let s := { s with calls := s.calls.set j { call with settled := true } }
          some (s.settle numberText call r)
  | .stream ref => (EventBus.step s.streams (.stream ref)).map fun streams => { s with streams }
  | .act i a => (EventBus.step s.streams (.act i a)).map fun streams => { s with streams }

end Steps

/-! ## What is said of an order -/

/-- The event says that the order has been executed. -/
def Executes (id : Text) : BrokerEvent → Prop
  | .fill data => data.brokerOrderId = id
  | .orderState orderId status => orderId = id ∧ status = "filled".toList
  | .account _ => False

/-- The event says that the order is pending. -/
def SaysPending (id : Text) : BrokerEvent → Prop
  | .orderState orderId status => orderId = id ∧ status = "pending".toList
  | _ => False

/-- No order is pending after it has been executed. It is a property of the list that a subscriber
has received, whoever put the events on the bus. -/
def InOrder (events : List BrokerEvent) : Prop :=
  events.Pairwise fun f e => ∀ id, Executes id f → ¬ SaysPending id e

/-- No subscriber of the reference has been told, or will be, that the order has been executed.
Those who subscribe later are told nothing of what was before. -/
def Untold (s : TradeStreams) (ref id : Text) : Prop :=
  ∀ c ∈ s.streams.consumers, c.live → c.ref = ref → ∀ f ∈ c.trail, ¬ Executes id f

/-- The order that an event frame is about. -/
def stateId (data : OrderStateData) : Text := (data.brokerOrderId.or data.orderId).getD []

/-- The order that an event frame says is pending, and under which reference. -/
def framePending (rows : List AccountRow) : Frame → Option (Text × Text)
  | .orderState data _ =>
      if data.status = "pending".toList then
        (fallbackAccount rows).map fun account => (accountRef "mt5" account, stateId data)
      else none
  | _ => none

section Timely

variable (numberText : Numeral → Text)

/-- The order that a step says is pending, and under which reference. -/
def pendingSaid (s : TradeStreams) : Event → Option (Text × Text)
  | .respond j r =>
      (s.calls[j]?).bind fun call =>
        (pendingOrder numberText call r).map fun id => (call.ref, id)
  | .connector rows (.frame f _) => framePending rows f
  | _ => none

/-- A step that says nothing late: the order it says is pending has not been executed, as
far as the subscribers are told. -/
def Timely (s : TradeStreams) (e : Event) : Prop :=
  ∀ ref id, s.pendingSaid numberText e = some (ref, id) → s.Untold ref id

end Timely

/-! ## What a step makes of the trails -/

/-- Every subscriber is told of its orders in order. -/
def TrailsInOrder (s : TradeStreams) : Prop := ∀ c ∈ s.streams.consumers, InOrder c.trail

/-- The head of the loop passes on the queue. -/
theorem loop_trail (c : Consumer) : c.loop.1.trail = c.received ++ c.queue := by
  rw [Consumer.loop]
  split
  · rfl
  · split
    · next hqueue => rw [hqueue]; rfl
    · next hqueue => rw [hqueue]; rfl

theorem trail_of_idle {c : Consumer} (hflight : c.phase.inFlight = []) :
    c.trail = c.received ++ c.queue := by
  rw [Consumer.trail, Consumer.pending, hflight, List.nil_append]

theorem trail_of_inFlight {c c' : Consumer} (hreceived : c'.received = c.received)
    (hqueue : c'.queue = c.queue) (hflight : c'.phase.inFlight = c.phase.inFlight) :
    c'.trail = c.trail := by
  rw [Consumer.trail, Consumer.trail, Consumer.pending, Consumer.pending, hreceived, hqueue,
    hflight]

theorem pull_trail (c : Consumer) : c.pull.1.trail = c.trail := by
  rw [Consumer.pull]
  split
  · next hphase => exact (loop_trail _).trans (trail_of_idle (by rw [hphase]; rfl)).symm
  · next hphase => exact (loop_trail _).trans (trail_of_idle (by rw [hphase]; rfl)).symm
  · rfl
  · rfl

theorem ret_trail (c : Consumer) : c.ret.1.trail = c.trail := by
  rw [Consumer.ret]
  split
  · next hphase => exact trail_of_inFlight rfl rfl (by rw [hphase]; rfl)
  · next hphase => exact trail_of_inFlight rfl rfl (by rw [hphase]; rfl)
  · rfl
  · rfl

theorem abort_trail (c : Consumer) : c.abort.1.trail = c.trail := by
  rw [Consumer.abort]
  split
  · rfl
  · split
    · rw [Consumer.onAbort]
      split
      · next hphase =>
          have hphase : c.phase = .awaiting := hphase
          exact trail_of_inFlight rfl rfl (by rw [hphase]; rfl)
      · rfl
    · rfl

theorem resume_trail {c c' : Consumer} {calls : List BusCall}
    (hact : c.resume = some (c', calls)) : c'.trail = c.trail := by
  rw [Consumer.resume] at hact
  split at hact
  · next hphase =>
      cases hact
      exact trail_of_inFlight rfl rfl (by rw [hphase]; rfl)
  · next hphase =>
      cases hact
      exact trail_of_inFlight rfl rfl (by rw [hphase]; rfl)
  · cases hact

/-- A delivery hands over the value that is on its way. -/
theorem deliver_trail {c c' : Consumer} {calls : List BusCall}
    (hact : c.deliver = some (c', calls)) : c'.trail = c.trail := by
  rw [Consumer.deliver] at hact
  split at hact
  · next e hphase =>
      have hhanded : c.trail = (c.received ++ [e]) ++ c.queue := by
        rw [Consumer.trail, Consumer.pending, hphase, List.append_assoc]
        rfl
      have hdelivered := Option.some.inj hact
      rw [hhanded]
      rw [Consumer.delivered] at hdelivered
      split at hdelivered
      · cases hdelivered
        rfl
      · rw [← loop_trail { c with
          received := c.received ++ [e]
          requests := c.requests.tail }, hdelivered]
      · cases hdelivered
        rfl
  · cases hact

theorem unwind_trail {c c' : Consumer} {calls : List BusCall}
    (hact : c.unwind = some (c', calls)) : c'.trail = c.trail := by
  rw [Consumer.unwind] at hact
  split at hact
  · next hphase =>
      cases hact
      exact trail_of_inFlight rfl rfl (by rw [hphase]; rfl)
  · cases hact

/-- **An act of a consumer leaves its trail as it is.** -/
theorem act_trail {c c' : Consumer} {a : Act} {calls : List BusCall}
    (hact : c.act a = some (c', calls)) : c'.trail = c.trail := by
  cases a with
  | pull =>
      have hpull : c.pull = (c', calls) := Option.some.inj hact
      rw [← pull_trail c, hpull]
  | ret =>
      have hret : c.ret = (c', calls) := Option.some.inj hact
      rw [← ret_trail c, hret]
  | abort =>
      have habort : c.abort = (c', calls) := Option.some.inj hact
      rw [← abort_trail c, habort]
  | resume => exact resume_trail hact
  | deliver => exact deliver_trail hact
  | unwind => exact unwind_trail hact

/-- A consumer gets what it hears last. -/
theorem onEvent_trail {c : Consumer} (e : BrokerEvent)
    (hawaiting : c.phase = .awaiting → c.queue = []) : (c.onEvent e).trail = c.trail ++ [e] := by
  rw [Consumer.onEvent]
  split
  · next hphase =>
      -- the resolver of the waiting pull gets the event, and the queue is empty
      have hidle : c.trail = c.received ++ c.queue := trail_of_idle (by rw [hphase]; rfl)
      rw [hidle, hawaiting hphase, List.append_nil]
      simp [Consumer.trail, Consumer.pending, Phase.inFlight]
  · simp [Consumer.trail, Consumer.pending]

/-- What an event adds to the trail of a consumer. -/
def heardBy (e : BrokerEvent) (ref : Text) (c : Consumer) : List BrokerEvent :=
  if c.live ∧ c.ref = ref then [e] else []

/-- **The subscribers of its reference get an event last.** -/
theorem emit_trail {b : Bus} {H : ℕ → Text → Heard} (hb : BusSound b H) (e : BrokerEvent)
    (ref : Text) (i : ℕ) :
    ((emit b e ref).consumers[i]?).map Consumer.trail =
      (b.consumers[i]?).map fun c => c.trail ++ heardBy e ref c := by
  rw [getElem?_emit, Option.map_map]
  cases hc : b.consumers[i]? with
  | none => rfl
  | some c =>
      have hsound := hb.sound i c hc
      have hgets := onEvent_trail e fun hphase => (hsound.awaiting hphase).1
      rw [Option.map_some, Option.map_some, Function.comp_apply, hsound.listening, heardBy]
      cases hlive : c.live with
      | false => simp
      | true =>
          by_cases href : ref = c.ref
          · simp [Consumer.hear, href, hgets]
          · simp [Consumer.hear, href, Ne.symm href]

/-! ## What a step says -/

/-- What a step says of pending orders is said by one event under one reference. -/
def SaidBy (said : Option (Text × Text)) (e : BrokerEvent) (ref : Text) : Prop :=
  ∀ ref' id, said = some (ref', id) ↔ ref' = ref ∧ SaysPending id e

/-- The bus after a step that says what it says of pending orders. -/
def Tells (said : Option (Text × Text)) (bus bus' : List (BrokerEvent × Text)) : Prop :=
  bus' = bus ∧ said = none ∨ ∃ e ref, bus' = bus ++ [(e, ref)] ∧ SaidBy said e ref

theorem saidBy_none {e : BrokerEvent} (h : ∀ id, ¬ SaysPending id e) (ref : Text) :
    SaidBy none e ref := fun ref' id => by simp [h id]

section Steps

variable {numberText : Numeral → Text} {rows : List AccountRow}

theorem tells_onAccount (s : Mt5Connector) (ref : Text) (data : Option (List (Text × Json))) :
    Tells none s.bus (s.onAccount ref data).bus := by
  cases data with
  | none => exact .inl ⟨rfl, rfl⟩
  | some data =>
      rw [Mt5Connector.bus_onAccount]
      cases Mt5Connector.accountNotice data with
      | none => exact .inl ⟨List.append_nil _, rfl⟩
      | some notice => exact .inr ⟨.account notice, ref, rfl, saidBy_none (fun _ => id) ref⟩

theorem tells_frame (s : Mt5Connector) (f : Frame) (now : ℚ) :
    Tells (framePending rows f) s.bus (s.tcpEvent numberText rows f now).bus := by
  cases f with
  | fill data ts =>
      unfold Mt5Connector.tcpEvent
      dsimp only
      cases resolveAccount rows ((Frame.fill data ts).loginText numberText) with
      | none => exact .inl ⟨rfl, rfl⟩
      | some account => exact .inr ⟨_, accountRef "mt5" account, rfl, saidBy_none (fun _ => id) _⟩
  | orderState data ts =>
      -- an order state carries no login
      have hresolve : resolveAccount rows ((Frame.orderState data ts).loginText numberText) =
          fallbackAccount rows := rfl
      unfold Mt5Connector.tcpEvent framePending
      dsimp only
      rw [hresolve]
      cases fallbackAccount rows with
      | none => exact .inl ⟨rfl, ite_self _⟩
      | some account =>
          refine .inr ⟨.orderState (stateId data) data.status, accountRef "mt5" account, rfl, ?_⟩
          intro ref id
          simp only [Option.map_some, Option.ite_none_right_eq_some, Option.some.injEq,
            Prod.mk.injEq, SaysPending]
          constructor
          · rintro ⟨hpending, rfl, rfl⟩
            exact ⟨rfl, rfl, hpending⟩
          · rintro ⟨rfl, rfl, hpending⟩
            exact ⟨hpending, rfl, rfl⟩
  | position data ts =>
      unfold Mt5Connector.tcpEvent
      dsimp only
      cases resolveAccount rows ((Frame.position data ts).loginText numberText) with
      | none => exact .inl ⟨rfl, rfl⟩
      | some account => exact .inl ⟨rfl, rfl⟩
  | account data ts =>
      unfold Mt5Connector.tcpEvent
      dsimp only
      cases resolveAccount rows ((Frame.account data ts).loginText numberText) with
      | none => exact .inl ⟨rfl, rfl⟩
      | some account => exact tells_onAccount s _ data
  | startup ts => exact .inl ⟨rfl, rfl⟩
  | response id ok result error => exact .inl ⟨rfl, rfl⟩

/-- What a step of the connector puts on the bus. -/
theorem tells_connector {s : TradeStreams} {c : Mt5Connector} {e : Mt5Connector.Event}
    (h : s.connector.step numberText rows e = some c) :
    Tells (s.pendingSaid numberText (.connector rows e)) s.connector.bus c.bus := by
  have hconnect : ∀ {j : ℕ} {returns : ConnectCall → Bool},
      s.connector.onConnect j returns = some c → Tells none s.connector.bus c.bus := by
    intro j returns hcall
    obtain ⟨call, -, hcall⟩ := Option.bind_eq_some_iff.mp hcall
    obtain ⟨-, hcalled⟩ := Option.ite_none_left_eq_some.mp hcall
    obtain rfl := Option.some.inj hcalled
    exact .inl ⟨rfl, rfl⟩
  cases e with
  | connect creds =>
      obtain rfl := Option.some.inj h
      exact .inr ⟨.account .login, refFor creds, rfl, saidBy_none (fun _ => id) _⟩
  | slept j => exact hconnect h
  | timedOut j => exact hconnect h
  | disconnect ref =>
      obtain rfl := Option.some.inj h
      refine .inl ⟨?_, rfl⟩
      rw [Mt5Connector.disconnect]
      split <;> rfl
  | loggedOut j =>
      obtain ⟨ref, -, rfl⟩ := Option.map_eq_some_iff.mp h
      exact .inr ⟨.account .logout, ref, rfl, saidBy_none (fun _ => id) _⟩
  | frame f now =>
      obtain rfl := Option.some.inj h
      exact tells_frame s.connector f now

/-- What the answer to a command puts on the bus. -/
theorem tells_pending (s : Mt5Connector) (id ref : Text) :
    Tells (some (ref, id)) s.bus (s.emitToBus (.orderState id "pending") ref).bus := by
  refine .inr ⟨.orderState id "pending", ref, rfl, fun ref' id' => ?_⟩
  rw [Option.some.injEq, Prod.mk.injEq]
  constructor
  · rintro ⟨rfl, rfl⟩
    exact ⟨rfl, rfl, rfl⟩
  · rintro ⟨rfl, rfl, -⟩
    exact ⟨rfl, rfl⟩

end Steps

/-! ## What a step does to the streams -/

/-- What a step does to the consumers: nothing, one event of the bus that says what the step says,
a new consumer, or an act of one of them. -/
inductive Effect (said : Option (Text × Text)) (b b' : Bus) : Prop where
  | quiet (hsaid : said = none) (hsame : b' = b)
  | told (e : BrokerEvent) (ref : Text) (hsaid : SaidBy said e ref) (hemit : b' = emit b e ref)
  | stream (ref : Text) (hsaid : said = none) (hstep : EventBus.step b (.stream ref) = some b')
  | act (i : ℕ) (a : Act) (hsaid : said = none) (hstep : EventBus.step b (.act i a) = some b')

theorem Effect.advance {s : TradeStreams} {connector : Mt5Connector}
    {said : Option (Text × Text)} (h : Tells said s.connector.bus connector.bus) :
    Effect said s.streams (s.advance connector).streams := by
  rw [TradeStreams.advance]
  obtain ⟨hbus, hsaid⟩ | ⟨e, ref, hbus, hsaid⟩ := h
  · exact .quiet hsaid (by rw [hbus, List.drop_length]; rfl)
  · exact .told e ref hsaid (by rw [hbus, List.drop_left]; rfl)

theorem step_effect {numberText : Numeral → Text} {s s' : TradeStreams} {e : Event}
    (h : s.step numberText e = some s') :
    Effect (s.pendingSaid numberText e) s.streams s'.streams := by
  cases e with
  | connector rows e =>
      obtain ⟨connector, hstep, rfl⟩ := Option.map_eq_some_iff.mp h
      exact .advance (tells_connector hstep)
  | trade ref clientOrderId trade =>
      rw [step] at h
      split at h
      · obtain rfl := Option.some.inj h
        exact .quiet rfl rfl
      · obtain rfl := Option.some.inj h
        exact .quiet rfl rfl
  | respond j r =>
      obtain ⟨call, hcall, hrest⟩ := Option.bind_eq_some_iff.mp h
      obtain ⟨-, hsettle⟩ := Option.ite_none_left_eq_some.mp hrest
      obtain rfl := Option.some.inj hsettle
      rw [pendingSaid, hcall, Option.bind_some, settle]
      cases pendingOrder numberText call r with
      | none => exact .quiet rfl rfl
      | some id => exact .advance (tells_pending s.connector id call.ref)
  | stream ref =>
      obtain rfl := Option.some.inj h
      exact .stream ref rfl rfl
  | act i a =>
      obtain ⟨streams, hstep, rfl⟩ := Option.map_eq_some_iff.mp h
      exact .act i a rfl hstep

/-! ## Runs -/

theorem inOrder_concat {events : List BrokerEvent} {e : BrokerEvent} :
    InOrder (events ++ [e]) ↔
      InOrder events ∧ ∀ f ∈ events, ∀ id, Executes id f → ¬ SaysPending id e := by
  simp [InOrder, List.pairwise_append]

/-- The consumers and what has been emitted for them belong together. -/
def Overheard (s : TradeStreams) : Prop := ∃ H, BusSound s.streams H

theorem overheard_step {numberText : Numeral → Text} {s s' : TradeStreams} {e : Event}
    (hs : s.Overheard) (h : s.step numberText e = some s') : s'.Overheard := by
  obtain ⟨H, hH⟩ := hs
  cases step_effect h with
  | quiet hsaid hsame => exact ⟨H, hsame ▸ hH⟩
  | told e ref hsaid hemit =>
      have hstep : EventBus.step s.streams (.emit e ref) = some s'.streams :=
        congrArg some hemit.symm
      exact ⟨_, busSound_step hH hstep⟩
  | stream ref hsaid hstep => exact ⟨_, busSound_step hH hstep⟩
  | act i a hsaid hstep => exact ⟨_, busSound_step hH hstep⟩

theorem mem_trails {b : Bus} {P : List BrokerEvent → Prop} :
    (∀ c ∈ b.consumers, P c.trail) ↔
      ∀ (i : ℕ) (trail : List BrokerEvent),
        (b.consumers[i]?).map Consumer.trail = some trail → P trail := by
  constructor
  · intro h i trail htrail
    obtain ⟨c, hc, rfl⟩ := Option.map_eq_some_iff.mp htrail
    exact h c (List.mem_of_getElem? hc)
  · intro h c hc
    obtain ⟨i, hi⟩ := List.mem_iff_getElem?.mp hc
    exact h i c.trail (by rw [hi]; rfl)

/-- **An act leaves all trails as they are.** -/
theorem act_trails {b b' : Bus} {i : ℕ} {a : Act} (h : EventBus.step b (.act i a) = some b')
    (j : ℕ) : (b'.consumers[j]?).map Consumer.trail = (b.consumers[j]?).map Consumer.trail := by
  obtain ⟨c, hc, hact⟩ := Option.bind_eq_some_iff.mp h
  obtain ⟨⟨c', calls⟩, hcalls, rfl⟩ := Option.map_eq_some_iff.mp hact
  have hi : i < b.consumers.length := (List.getElem?_eq_some_iff.mp hc).1
  by_cases hij : i = j
  · subst hij
    rw [List.getElem?_set_self hi, hc]
    exact congrArg some (act_trail hcalls)
  · rw [List.getElem?_set_ne hij]

/-- The event of a step comes in order exactly if no subscriber has been told otherwise. -/
theorem trailsInOrder_emit {s : TradeStreams} {b : Bus} {said : Option (Text × Text)}
    {e : BrokerEvent} {ref : Text} (hs : s.Overheard) (hsaid : SaidBy said e ref)
    (hemit : b = emit s.streams e ref) :
    (∀ c ∈ b.consumers, InOrder c.trail) ↔
      s.TrailsInOrder ∧ ∀ ref id, said = some (ref, id) → s.Untold ref id := by
  obtain ⟨H, hH⟩ := hs
  have htrails : (∀ c ∈ b.consumers, InOrder c.trail) ↔
      ∀ c ∈ s.streams.consumers, InOrder (c.trail ++ heardBy e ref c) := by
    rw [mem_trails, hemit]
    simp only [emit_trail hH]
    constructor
    · intro h c hc
      obtain ⟨i, hi⟩ := List.mem_iff_getElem?.mp hc
      exact h i _ (by rw [hi]; rfl)
    · intro h i trail htrail
      obtain ⟨c, hc, rfl⟩ := Option.map_eq_some_iff.mp htrail
      exact h c (List.mem_of_getElem? hc)
  -- a consumer that does not hear the event keeps its trail
  have hconsumer : ∀ c : Consumer, InOrder (c.trail ++ heardBy e ref c) ↔ InOrder c.trail ∧
      (c.live → c.ref = ref → ∀ f ∈ c.trail, ∀ id, Executes id f → ¬ SaysPending id e) := by
    intro c
    rw [heardBy]
    split
    · next hhears => rw [inOrder_concat]; simp [hhears]
    · next hdeaf =>
        rw [List.append_nil, iff_self_and]
        exact fun _ hlive href => absurd ⟨hlive, href⟩ hdeaf
  rw [htrails]
  constructor
  · intro h
    refine ⟨fun c hc => ((hconsumer c).mp (h c hc)).1, ?_⟩
    intro ref' id hpending c hc hlive href f hf hexecutes
    obtain ⟨rfl, hsays⟩ := (hsaid ref' id).mp hpending
    exact ((hconsumer c).mp (h c hc)).2 hlive href f hf id hexecutes hsays
  · rintro ⟨hinOrder, huntold⟩ c hc
    refine (hconsumer c).mpr ⟨hinOrder c hc, fun hlive href f hf id hexecutes hsays => ?_⟩
    exact huntold ref id ((hsaid ref id).mpr ⟨rfl, hsays⟩) c hc hlive href f hf hexecutes

/-- **The step lemma.** -/
theorem trailsInOrder_step {numberText : Numeral → Text} {s s' : TradeStreams} {e : Event}
    (hs : s.Overheard) (h : s.step numberText e = some s') :
    s'.TrailsInOrder ↔ s.TrailsInOrder ∧ s.Timely numberText e := by
  have hnone : s.pendingSaid numberText e = none → s.Timely numberText e :=
    fun hsaid ref id hpending => by simp [hsaid] at hpending
  cases step_effect h with
  | quiet hsaid hsame =>
      rw [TrailsInOrder, hsame]
      exact (and_iff_left (hnone hsaid)).symm
  | told e ref hsaid hemit => exact trailsInOrder_emit hs hsaid hemit
  | stream ref hsaid hstep =>
      have hconsumers : s'.streams.consumers =
          s.streams.consumers ++ [({ ref := ref } : Consumer)] := by
        rw [← Option.some.inj hstep]
      rw [and_iff_left (hnone hsaid), TrailsInOrder, hconsumers, List.forall_mem_append]
      exact and_iff_left (List.forall_mem_singleton.mpr List.Pairwise.nil)
  | act i a hsaid hstep =>
      rw [and_iff_left (hnone hsaid), TrailsInOrder, TrailsInOrder, mem_trails, mem_trails]
      simp only [act_trails hstep]

/-- **The run lemma**: every subscriber is told of its orders in order exactly if every
step of the run says nothing late. -/
theorem trailsInOrder_iff {numberText : Numeral → Text} {es : List Event} {s : TradeStreams}
    (hrun : run (step numberText) {} es = some s) :
    s.TrailsInOrder ↔ Along (step numberText) (Timely numberText) {} es := by
  have hinitial : Overheard {} := ⟨_, @busSound_of_run {} [] rfl⟩
  rw [run_along_iff_of_invariant (fun _ _ _ hs h => overheard_step hs h)
    (fun _ _ _ hs h => trailsInOrder_step hs h) hinitial hrun, and_iff_right_iff_imp]
  intro _ c hc
  cases hc

/-- **No subscriber receives a pending order after an execution of it**, in every run whose steps
say nothing late. `openTrade` announces the order when its command has been answered, and by then
the terminal may have reported the execution. -/
theorem received_inOrder {numberText : Numeral → Text} {es : List Event} {s : TradeStreams}
    (hrun : run (step numberText) {} es = some s)
    (htimely : Along (step numberText) (Timely numberText) {} es) :
    ∀ c ∈ s.streams.consumers, InOrder c.received := by
  intro c hc
  have htrail : InOrder c.trail := (trailsInOrder_iff hrun).mpr htimely c hc
  exact htrail.sublist (List.sublist_append_left _ _)

/-! ## A market order -/

/-- A fill frame is handled under the reference of the fallback row. -/
theorem step_fill {numberText : Numeral → Text} {rows : List AccountRow} {a : AccountRow}
    (h : fallbackAccount rows = some a) (s : TradeStreams) (data : FillData)
    (ts : Option Numeral) (now : ℚ) :
    s.step numberText (.connector rows (.frame (.fill data ts) now)) =
      some (s.advance
        (s.connector.handleEventAt (accountRef "mt5" a) now (.fill data ts))) := by
  have hresolve : resolveAccount rows ((Frame.fill data ts).loginText numberText) = some a := h
  unfold step Mt5Connector.step Mt5Connector.tcpEvent
  dsimp only
  rw [hresolve]
  rfl

/-- The answer of the terminal to the command of an order. -/
def answerOf (id : Text) : CommandResult :=
  ⟨true, some (.obj [("order_id", .str id), ("broker_order_id", .str id)]), none⟩

/-- An account is connected, a subscriber waits for its events, and an order is placed. -/
def orderPlaced : List Event :=
  [.connector [] (.connect ⟨"Demo", "5001"⟩), .stream "mt5-Demo-5001", .act 0 .pull,
    .trade "mt5-Demo-5001" sampleId (.openTrade (marketOrder .buy).toNewOrder)]

/-- The state after these steps. -/
def afterPlaced : TradeStreams := (run (step Numeral.text) {} orderPlaced).getD {}

theorem run_orderPlaced : run (step Numeral.text) {} orderPlaced = some afterPlaced := rfl

/-- The fill of the order arrives. -/
def fillArrives : Event :=
  .connector sampleDeps.accounts (.frame (.fill sampleFill none) 0)

/-- What the fill makes of a state. -/
def filled (s : TradeStreams) : TradeStreams :=
  s.advance (s.connector.handleEventAt "mt5-Demo-5001" 0 (.fill sampleFill none))

theorem step_fillArrives (s : TradeStreams) :
    s.step Numeral.text fillArrives = some s.filled :=
  step_fill sampleDeps_fallback s sampleFill none 0

/-- The subscriber takes what it is told, and asks for more. -/
def takes : List Event := [.act 0 .resume, .act 0 .deliver, .act 0 .pull]

/-- What the subscriber hears of the fill. -/
def fillHeard : BrokerEvent :=
  .fill ⟨"42", "EURUSD", (Numeral.ofNat 2).value, (Numeral.ofNat 1).value, 0⟩

/-- What it hears of the answer. -/
def pendingHeard : BrokerEvent := .orderState "42" "pending"

/-- The order is answered before its fill arrives. -/
def answerFirst : List Event :=
  orderPlaced ++ (.respond 0 (answerOf "42") :: takes ++ fillArrives :: takes)

/-- The fill arrives before the order is answered. -/
def fillFirst : List Event :=
  orderPlaced ++ (fillArrives :: takes ++ .respond 0 (answerOf "42") :: takes)

theorem run_answerFirst : ∃ s, run (step Numeral.text) {} answerFirst = some s ∧
    s.streams.consumers.map (fun c => (c.received, c.pending)) =
      [([pendingHeard, fillHeard], [])] := by
  have hanswered : run (step Numeral.text) afterPlaced
      (.respond 0 (answerOf "42") :: takes) = some _ := rfl
  exact ⟨_, (run_append _).mpr ⟨afterPlaced, run_orderPlaced, (run_append _).mpr
    ⟨_, hanswered, (run_cons _).mpr ⟨_, step_fillArrives _, rfl⟩⟩⟩, rfl⟩

theorem run_fillFirst : ∃ s, run (step Numeral.text) {} fillFirst = some s ∧
    s.streams.consumers.map (fun c => (c.received, c.pending)) =
      [([fillHeard, pendingHeard], [])] := by
  have hanswered : run (step Numeral.text) afterPlaced.filled
      (takes ++ .respond 0 (answerOf "42") :: takes) = some _ := rfl
  exact ⟨_, (run_append _).mpr ⟨afterPlaced, run_orderPlaced,
    (run_cons _).mpr ⟨afterPlaced.filled, step_fillArrives _, hanswered⟩⟩, rfl⟩

/-- The subscriber receives the order and its fill in order. -/
theorem answerFirst_inOrder : ∃ s, run (step Numeral.text) {} answerFirst = some s ∧
    s.streams.consumers.map Consumer.received = [[pendingHeard, fillHeard]] ∧
      ∀ c ∈ s.streams.consumers, InOrder c.received := by
  obtain ⟨s, hrun, hconsumers⟩ := run_answerFirst
  obtain ⟨c, hc, htaken⟩ := List.map_eq_singleton_iff.mp hconsumers
  obtain ⟨hreceived, hpending⟩ := Prod.mk.inj htaken
  have hpair : InOrder [pendingHeard, fillHeard] :=
    List.pairwise_pair.mpr fun id hexecutes hpending => hpending
  have htrails : s.TrailsInOrder := by
    intro d hd
    rw [hc, List.mem_singleton] at hd
    rw [hd, Consumer.trail, hreceived, hpending]
    exact hpair
  refine ⟨s, hrun, by rw [hc]; exact congrArg (fun l => [l]) hreceived, ?_⟩
  exact received_inOrder hrun ((trailsInOrder_iff hrun).mp htrails)

/-- **A pending order that has been filled**: the order is filled before it is answered. -/
theorem fillFirst_outOfOrder : ∃ s, run (step Numeral.text) {} fillFirst = some s ∧
    ∃ c ∈ s.streams.consumers, c.received = [fillHeard, pendingHeard] ∧
      ¬ InOrder c.received := by
  obtain ⟨s, hrun, hconsumers⟩ := run_fillFirst
  obtain ⟨c, hc, htaken⟩ := List.map_eq_singleton_iff.mp hconsumers
  have hreceived : c.received = [fillHeard, pendingHeard] := (Prod.mk.inj htaken).1
  refine ⟨s, hrun, c, by rw [hc]; exact List.mem_singleton_self c, hreceived, fun hinOrder => ?_⟩
  rw [hreceived] at hinOrder
  exact List.pairwise_pair.mp hinOrder "42" rfl ⟨rfl, rfl⟩

end TradeStreams

end AkronSlot.Slot
