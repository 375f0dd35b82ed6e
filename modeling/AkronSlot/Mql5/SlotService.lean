import AkronSlot.Mql5.ArrayLoops
import AkronSlot.Mql5.ClientArrays
import AkronSlot.Mql5.Events
import AkronSlot.Mql5.SendFrame
import AkronSlot.Systems.Toggles

/-!
# The service (`SlotService.mq5`)

`OnStart`, `OnTimer` and `OnTradeTransaction` over the globals of the service: the event socket,
the command server, the time of the last poll and the connection state that was reported last.

Every poll pushes a snapshot.  Whether the terminal is connected is reported when it has
changed, and noted as reported before the frame is sent: a frame that is lost is not sent again.

## The connection state

`g_lastConnected` starts as false, and `OnTimer` compares it with the terminal's state at every
poll. It is set before `SendFrame` is called, whose result is dropped. The reports therefore
alternate whether or not they reach the slot, and a lost one is made up for by no later one:
`Reported` counts them, the ones that failed among them.

## Runs

A run is a list of calls of the two handlers with what the calls they make report. The first
event socket is opened by `OnStart`, before the first poll; a timer that finds no socket and
cannot open one returns and polls nothing, clients included.

## Main Definitions

* `EventFrame` — what `SendFrame` is called with
* `SlotService`, `onStart`, `onTimer`, `step`
* `reports`, `pollTimes`

## Main Results

* `sends_step`
* `reported_of_run`
-/

namespace AkronSlot.Mql5

open Wire Systems

/-! ## Frames -/

/-- A frame of the event socket. -/
inductive EventFrame where
  | startup (now : ℤ)
  | state (r : Readings)
  | account (connected : Bool) (a : AccountInfo)
  | trade (line : Text)

namespace EventFrame

/-- The text that `SendFrame` is called with. -/
def text : EventFrame → Text
  | startup now =>
      objectText [("type", rawString "event"), ("kind", rawString "startup"), ("ts", timeToMs now)]
  | state r =>
      objectText [("type", rawString "event"), ("kind", rawString "state"),
        ("ts", timeToMs r.timeCurrent), ("data", r.buildStateJson)]
  | account connected a =>
      objectText [("type", rawString "event"), ("kind", rawString "account"),
        ("data", objectText [("logged_in", boolText connected),
          ("login", rawString (integerToString a.login)),
          ("server", rawString (jsonEscape a.server)), ("balance", doubleToString a.balance 2),
          ("equity", doubleToString a.equity 2)])]
  | trade line => line

/-- What a frame says of the connection to the broker. -/
def connection : EventFrame → Option Bool
  | account connected _ => some connected
  | _ => none

/-- The time of a snapshot. -/
def pollTime : EventFrame → Option ℤ
  | state r => some r.timeCurrent
  | _ => none

end EventFrame

/-! ## The service -/

/-- The globals, with the event sockets so far, the newest one first, and the calls of
`SendFrame` with what they returned. -/
structure SlotService where
  sockets : List CmdSocket := []
  server : ClientArrays := { listening := false }
  lastPollTime : ℤ := 0
  lastConnected : Bool := false
  sends : List (EventFrame × Bool) := []

/-- What the calls of `OnStart` report: those of `WSAStartup` and `connect`, of `send` for the
startup frame, and whether the attempts to bind the command port succeed. -/
structure Start where
  wsa : Bool
  connects : Bool
  startupSend : SendResults
  binds : ℕ → Bool
  now : ℤ

/-- What the calls of `OnTimer` report. -/
structure Tick where
  connects : Bool
  poll : PollCalls
  readings : Readings
  connected : Bool
  account : AccountInfo
  stateSend : SendResults
  accountSend : SendResults

namespace SlotService

/-- `g_cmdSock != INVALID_SOCKET`. -/
def isOpen (s : SlotService) : Bool := s.sockets.head?.any (·.isOpen)

/-- `ConnectToSlot`. -/
def connectToSlot (s : SlotService) (connects : Bool) : SlotService :=
  let sockets := s.sockets.modifyHead CmdSocket.close
  { s with sockets := if connects then {} :: sockets else sockets }

/-- `SendFrame`. -/
def sendFrame (s : SlotService) (f : EventFrame) (results : SendResults) : SlotService :=
  match s.sockets with
  | [] => { s with sends := s.sends ++ [(f, false)] }
  | k :: ks =>
      let (ok, k') := Mql5.sendFrame results k f.text
      { s with sockets := k' :: ks, sends := s.sends ++ [(f, ok)] }

/-- The attempts of `OnStart` to start the command server. -/
def bindLoop (binds : ℕ → Bool) : Bool := (List.range 10).any binds

/-- `OnStart`, if it does not return `INIT_FAILED`. It goes on without a socket and without a
command server, since a timer makes up for the first and nothing for the second. -/
def onStart (c : Start) : Option SlotService :=
  if c.wsa then
    let s := (({} : SlotService).connectToSlot c.connects).sendFrame (.startup c.now) c.startupSend
    some { s with server := { listening := bindLoop c.binds }, lastPollTime := c.now }
  else none

/-- The snapshot of a poll. -/
def pushState (s : SlotService) (t : Tick) : SlotService :=
  { s with lastPollTime := t.readings.timeCurrent }.sendFrame (.state t.readings) t.stateSend

/-- The connection state is noted and reported. The note comes first, and nothing takes it back
when the frame is lost. -/
def pushAccount (s : SlotService) (t : Tick) : SlotService :=
  { s with lastConnected := t.connected }.sendFrame (.account t.connected t.account) t.accountSend

/-- A poll. -/
def push (s : SlotService) (t : Tick) : SlotService :=
  let s := s.pushState t
  if t.connected ≠ s.lastConnected then s.pushAccount t else s

/-- The event socket at the beginning of `OnTimer`: the one that is open, or a new one if
`connect` succeeds. -/
def ensureSocket (s : SlotService) (t : Tick) : SlotService :=
  if s.isOpen then s else s.connectToSlot t.connects

/-- What can happen: the timer goes off, or the terminal reports a trade transaction. Both run to
their end before the next one. -/
inductive Event where
  | timer (t : Tick)
  | trade (now : ℤ) (trans : MqlTradeTransaction) (results : SendResults)

section Step

variable (pollSeconds : ℤ)

/-- `TimeCurrent() - g_lastPollTime >= PollSeconds`. -/
def pollDue (s : SlotService) (t : Tick) : Bool :=
  pollSeconds ≤ t.readings.timeCurrent - s.lastPollTime

/-- `OnTimer`. -/
def onTimer (s : SlotService) (t : Tick) : Option SlotService :=
  let s := s.ensureSocket t
  if s.isOpen then
    (s.server.step t.poll).map fun server =>
      let s := { s with server }
      if s.pollDue pollSeconds t then s.push t else s
  else some s

/-- `OnTradeTransaction`. -/
def tradeTransaction (s : SlotService) (now : ℤ) (trans : MqlTradeTransaction)
    (results : SendResults) : SlotService :=
  match onTradeTransaction now trans with
  | none => s
  | some line => s.sendFrame (.trade line) results

/-- A call of a handler. -/
def step (s : SlotService) : Event → Option SlotService
  | .timer t => s.onTimer pollSeconds t
  | .trade now deal results => some (s.tradeTransaction now deal results)

/-- What a call reads of the connection to the broker. A timer that finds no socket, or that is
too early, reads nothing. -/
def polled (s : SlotService) : Event → Option Bool
  | .timer t =>
      if (s.ensureSocket t).isOpen && s.pollDue pollSeconds t then some t.connected else none
  | .trade _ _ _ => none

end Step

/-- The reports of the connection to the broker: what they say, and whether they were sent. Oldest
first. -/
def reports (s : SlotService) : List (Bool × Bool) :=
  s.sends.filterMap fun e => e.1.connection.map fun b => (b, e.2)

/-- The times of the snapshots. -/
def pollTimes (s : SlotService) : List ℤ := s.sends.filterMap fun e => e.1.pollTime

/-! ## What the calls leave alone -/

section Frame

variable (s : SlotService)

@[simp] theorem connectToSlot_sends (connects : Bool) :
    (s.connectToSlot connects).sends = s.sends := rfl

@[simp] theorem connectToSlot_lastPollTime (connects : Bool) :
    (s.connectToSlot connects).lastPollTime = s.lastPollTime := rfl

@[simp] theorem connectToSlot_lastConnected (connects : Bool) :
    (s.connectToSlot connects).lastConnected = s.lastConnected := rfl

/-- One call of `SendFrame`. -/
theorem sends_sendFrame (f : EventFrame) (results : SendResults) :
    ∃ ok, (s.sendFrame f results).sends = s.sends ++ [(f, ok)] := by
  unfold sendFrame
  cases s.sockets with
  | nil => exact ⟨_, rfl⟩
  | cons k ks => exact ⟨_, rfl⟩

@[simp] theorem sendFrame_lastPollTime (f : EventFrame) (results : SendResults) :
    (s.sendFrame f results).lastPollTime = s.lastPollTime := by
  unfold sendFrame
  cases s.sockets <;> rfl

@[simp] theorem sendFrame_lastConnected (f : EventFrame) (results : SendResults) :
    (s.sendFrame f results).lastConnected = s.lastConnected := by
  unfold sendFrame
  cases s.sockets <;> rfl

@[simp] theorem ensureSocket_sends (t : Tick) : (s.ensureSocket t).sends = s.sends := by
  unfold ensureSocket
  split <;> simp

@[simp] theorem ensureSocket_lastPollTime (t : Tick) :
    (s.ensureSocket t).lastPollTime = s.lastPollTime := by
  unfold ensureSocket
  split <;> simp

@[simp] theorem ensureSocket_lastConnected (t : Tick) :
    (s.ensureSocket t).lastConnected = s.lastConnected := by
  unfold ensureSocket
  split <;> simp

end Frame

/-- What `push` hands to `SendFrame`. -/
theorem sends_push (s : SlotService) (t : Tick) :
    (s.push t).lastPollTime = t.readings.timeCurrent ∧ (s.push t).lastConnected = t.connected ∧
      ∃ ok, if t.connected = s.lastConnected
        then (s.push t).sends = s.sends ++ [(.state t.readings, ok)]
        else ∃ ok', (s.push t).sends =
          s.sends ++ [(.state t.readings, ok), (.account t.connected t.account, ok')] := by
  obtain ⟨ok, hstate⟩ : ∃ ok, (s.pushState t).sends = s.sends ++ [(.state t.readings, ok)] :=
    sends_sendFrame _ _ _
  have htime : (s.pushState t).lastPollTime = t.readings.timeCurrent := by simp [pushState]
  have hconnected : (s.pushState t).lastConnected = s.lastConnected := by simp [pushState]
  unfold push
  dsimp only
  rw [hconnected]
  by_cases h : t.connected = s.lastConnected
  · rw [if_neg (not_not_intro h)]
    exact ⟨htime, hconnected.trans h.symm, ok, by rwa [if_pos h]⟩
  · obtain ⟨ok', haccount⟩ : ∃ ok', ((s.pushState t).pushAccount t).sends =
        (s.pushState t).sends ++ [(.account t.connected t.account, ok')] := sends_sendFrame _ _ _
    rw [if_pos h]
    refine ⟨by simpa [pushAccount] using htime, by simp [pushAccount], ok, ?_⟩
    rw [if_neg h]
    exact ⟨ok', by rw [haccount, hstate, List.append_assoc]; rfl⟩

/-- **What a call of a handler hands to `SendFrame`.** -/
inductive Sent (pollSeconds : ℤ) (s : SlotService) : Event → SlotService → Prop
  /-- Nothing. -/
  | quiet {e : Event} {s' : SlotService} (hpolled : s.polled pollSeconds e = none)
      (hsends : s'.sends = s.sends) (htime : s'.lastPollTime = s.lastPollTime)
      (hconnected : s'.lastConnected = s.lastConnected) : Sent pollSeconds s e s'
  /-- The line of a trade transaction. -/
  | line {now : ℤ} {trans : MqlTradeTransaction} {results : SendResults} {line : Text}
      {s' : SlotService} {ok : Bool} (hline : onTradeTransaction now trans = some line)
      (hsends : s'.sends = s.sends ++ [(.trade line, ok)])
      (htime : s'.lastPollTime = s.lastPollTime)
      (hconnected : s'.lastConnected = s.lastConnected) :
      Sent pollSeconds s (.trade now trans results) s'
  /-- A snapshot, of a connection state that has not changed. -/
  | same {t : Tick} {s' : SlotService} {ok : Bool} (hdue : s.pollDue pollSeconds t = true)
      (hpolled : s.polled pollSeconds (.timer t) = some t.connected)
      (hsame : t.connected = s.lastConnected)
      (hsends : s'.sends = s.sends ++ [(.state t.readings, ok)])
      (htime : s'.lastPollTime = t.readings.timeCurrent)
      (hconnected : s'.lastConnected = t.connected) : Sent pollSeconds s (.timer t) s'
  /-- A snapshot, and the connection state. -/
  | changed {t : Tick} {s' : SlotService} {ok ok' : Bool} (hdue : s.pollDue pollSeconds t = true)
      (hpolled : s.polled pollSeconds (.timer t) = some t.connected)
      (hchanged : t.connected ≠ s.lastConnected)
      (hsends : s'.sends =
        s.sends ++ [(.state t.readings, ok), (.account t.connected t.account, ok')])
      (htime : s'.lastPollTime = t.readings.timeCurrent)
      (hconnected : s'.lastConnected = t.connected) : Sent pollSeconds s (.timer t) s'

/-- **The step lemma.** -/
theorem sends_step {pollSeconds : ℤ} {s s' : SlotService} {e : Event}
    (h : s.step pollSeconds e = some s') : Sent pollSeconds s e s' := by
  cases e with
  | trade now trans results =>
      obtain rfl := Option.some.inj h
      unfold tradeTransaction
      cases hline : onTradeTransaction now trans with
      | none => exact .quiet rfl rfl rfl rfl
      | some line =>
          obtain ⟨ok, hsends⟩ := sends_sendFrame s (.trade line) results
          exact .line hline hsends (by simp) (by simp)
  | timer t =>
      have htimer : s.onTimer pollSeconds t = some s' := h
      unfold onTimer at htimer
      dsimp only at htimer
      have hdueSame : (s.ensureSocket t).pollDue pollSeconds t = s.pollDue pollSeconds t := by
        simp [pollDue]
      cases hopen : (s.ensureSocket t).isOpen with
      | false =>
          rw [hopen] at htimer
          obtain rfl := Option.some.inj htimer
          refine .quiet ?_ (by simp) (by simp) (by simp)
          simp [polled, hopen]
      | true =>
          rw [hopen, if_pos rfl] at htimer
          obtain ⟨server, -, rfl⟩ := Option.map_eq_some_iff.mp htimer
          have hserver : { s.ensureSocket t with server }.pollDue pollSeconds t =
              s.pollDue pollSeconds t := hdueSame
          rw [hserver]
          cases hdue : s.pollDue pollSeconds t with
          | false =>
              refine .quiet ?_ (by simp) (by simp) (by simp)
              simp [polled, hdue]
          | true =>
              have hpolled : s.polled pollSeconds (.timer t) = some t.connected := by
                simp [polled, hopen, hdue]
              obtain ⟨htime, hconnected, ok, hsends⟩ :=
                sends_push { s.ensureSocket t with server } t
              rw [show ({ s.ensureSocket t with server } : SlotService).lastConnected =
                s.lastConnected from s.ensureSocket_lastConnected t,
                show ({ s.ensureSocket t with server } : SlotService).sends = s.sends from
                  s.ensureSocket_sends t] at hsends
              rw [if_pos rfl]
              by_cases hsame : t.connected = s.lastConnected
              · rw [if_pos hsame] at hsends
                exact .same hdue hpolled hsame hsends htime hconnected
              · rw [if_neg hsame] at hsends
                obtain ⟨ok', hsends⟩ := hsends
                exact .changed hdue hpolled hsame hsends htime hconnected

/-! ## Runs -/

/-- What the calls of `SendFrame` have reported. It is the invariant of a run, and it is stated of
the calls and not of what has arrived, since a call that fails counts as well. -/
structure Reported (pollSeconds began : ℤ) (s : SlotService) : Prop where
  /-- Every report is of a change, the first one is that there is a connection. -/
  alternating : Toggles.Alternating false s.reports
  current : Toggles.current false s.reports = s.lastConnected
  /-- The snapshots are `PollSeconds` apart. -/
  spaced : List.IsChain (fun t u => pollSeconds ≤ u - t) (began :: s.pollTimes)
  latest : (began :: s.pollTimes).getLast? = some s.lastPollTime

section Reported

variable {pollSeconds began : ℤ} {s s' : SlotService}

/-- A frame that is no report and no snapshot changes nothing. -/
theorem Reported.other (h : Reported pollSeconds began s) {f : EventFrame} {ok : Bool}
    (hconnection : f.connection = none) (htime : f.pollTime = none)
    (hsends : s'.sends = s.sends ++ [(f, ok)]) (hpoll : s'.lastPollTime = s.lastPollTime)
    (hconnected : s'.lastConnected = s.lastConnected) : Reported pollSeconds began s' := by
  have hreports : s'.reports = s.reports := by simp [reports, hsends, hconnection]
  have htimes : s'.pollTimes = s.pollTimes := by simp [pollTimes, hsends, htime]
  refine ⟨?_, ?_, ?_, ?_⟩
  · rw [hreports]
    exact h.alternating
  · rw [hreports, hconnected]
    exact h.current
  · rw [htimes]
    exact h.spaced
  · rw [htimes, hpoll]
    exact h.latest

/-- A snapshot that is due. -/
theorem Reported.times (h : Reported pollSeconds began s) {t : Tick}
    (hdue : s.pollDue pollSeconds t = true)
    (htimes : s'.pollTimes = s.pollTimes ++ [t.readings.timeCurrent])
    (hpoll : s'.lastPollTime = t.readings.timeCurrent) :
    List.IsChain (fun t u => pollSeconds ≤ u - t) (began :: s'.pollTimes) ∧
      (began :: s'.pollTimes).getLast? = some s'.lastPollTime := by
  rw [htimes, hpoll, ← List.cons_append, List.isChain_append, h.latest, List.getLast?_concat]
  refine ⟨⟨h.spaced, List.isChain_singleton _, ?_⟩, rfl⟩
  simpa using of_decide_eq_true hdue

theorem reported_step {e : Event} (h : Reported pollSeconds began s)
    (hstep : s.step pollSeconds e = some s') : Reported pollSeconds began s' := by
  cases sends_step hstep with
  | quiet _ hsends htime hconnected =>
      have hreports : s'.reports = s.reports := by simp [reports, hsends]
      have htimes : s'.pollTimes = s.pollTimes := by simp [pollTimes, hsends]
      refine ⟨?_, ?_, ?_, ?_⟩
      · rw [hreports]
        exact h.alternating
      · rw [hreports, hconnected]
        exact h.current
      · rw [htimes]
        exact h.spaced
      · rw [htimes, htime]
        exact h.latest
  | line _ hsends htime hconnected => exact h.other rfl rfl hsends htime hconnected
  | same hdue _ hsame hsends htime hconnected =>
      have hreports : s'.reports = s.reports := by
        simp [reports, hsends, EventFrame.connection]
      obtain ⟨hspaced, hlatest⟩ := h.times hdue
        (by simp [pollTimes, hsends, EventFrame.pollTime]) htime
      refine ⟨?_, ?_, hspaced, hlatest⟩
      · rw [hreports]
        exact h.alternating
      · rw [hreports, hconnected, hsame]
        exact h.current
  | @changed t _ ok ok' hdue _ hchanged hsends htime hconnected =>
      have hreports : s'.reports = s.reports ++ [(t.connected, ok')] := by
        simp [reports, hsends, EventFrame.connection]
      obtain ⟨hspaced, hlatest⟩ := h.times hdue
        (by simp [pollTimes, hsends, EventFrame.pollTime]) htime
      refine ⟨?_, ?_, hspaced, hlatest⟩
      · rw [hreports, Toggles.alternating_concat, h.current]
        exact ⟨h.alternating, hchanged.symm⟩
      · rw [hreports, Toggles.current_concat, hconnected]

/-- What `OnStart` sends. -/
theorem sends_onStart {c : Start} (h : onStart c = some s) :
    ∃ ok, s.sends = [(.startup c.now, ok)] ∧ s.lastPollTime = c.now ∧ s.lastConnected = false := by
  obtain ⟨-, h⟩ := Option.ite_none_right_eq_some.mp h
  obtain rfl := Option.some.inj h
  obtain ⟨ok, hsends⟩ := sends_sendFrame (({} : SlotService).connectToSlot c.connects)
    (.startup c.now) c.startupSend
  exact ⟨ok, hsends, rfl, by simp⟩

theorem reported_start {c : Start} (h : onStart c = some s) : Reported pollSeconds c.now s := by
  obtain ⟨ok, hsends, htime, hconnected⟩ := sends_onStart h
  have hreports : s.reports = [] := by simp [reports, hsends, EventFrame.connection]
  have htimes : s.pollTimes = [] := by simp [pollTimes, hsends, EventFrame.pollTime]
  refine ⟨?_, ?_, ?_, ?_⟩
  · rw [hreports]
    exact Toggles.alternating_nil
  · rw [hreports, hconnected, Toggles.current_nil]
  · rw [htimes]
    exact List.isChain_singleton _
  · rw [htimes, htime]
    rfl

/-- The connection state that is noted as reported is the one that was polled last. -/
theorem lastConnected_step {e : Event} (h : s.step pollSeconds e = some s') :
    s'.lastConnected = (s.polled pollSeconds e).getD s.lastConnected := by
  cases sends_step h with
  | quiet hpolled _ _ hconnected => rw [hpolled, hconnected]; rfl
  | line _ _ _ hconnected => exact hconnected
  | same _ hpolled _ _ _ hconnected => rw [hpolled, hconnected]; rfl
  | changed _ hpolled _ _ _ hconnected => rw [hpolled, hconnected]; rfl

/-- The step lemma along a run. -/
theorem reported_run {c : Start} {s₀ : SlotService} {es : List Event}
    (hstart : onStart c = some s₀) (hrun : run (step pollSeconds) s₀ es = some s) :
    Reported pollSeconds c.now s :=
  run_invariant (fun _ _ _ h hstep => reported_step h hstep) (reported_start hstart) hrun

end Reported

/-- **What the service has reported after a run**: the reports alternate, starting with a
connection; the last one is of what was polled last; those that were sent say it too exactly if
an even number of reports has failed since one was sent; and the snapshots are `PollSeconds`
apart. -/
theorem reported_of_run {pollSeconds : ℤ} {c : Start} {s₀ s : SlotService} {es : List Event}
    (hstart : onStart c = some s₀) (hrun : run (step pollSeconds) s₀ es = some s) :
    Reported pollSeconds c.now s ∧
      (∀ b, s.lastConnected = b ↔
        LastWrote (step pollSeconds) (polled pollSeconds) s₀ es b ∨
          (Unwritten (step pollSeconds) (polled pollSeconds) s₀ es ∧ false = b)) ∧
      (Toggles.told false s.reports = s.lastConnected ↔ Even (Toggles.missed s.reports)) := by
  have hreported : Reported pollSeconds c.now s := reported_run hstart hrun
  obtain ⟨-, -, -, hbegin⟩ := sends_onStart hstart
  refine ⟨hreported, fun b => ?_, ?_⟩
  · rw [← hbegin]
    exact @register_eq_iff _ _ _ (step pollSeconds) (polled pollSeconds) SlotService.lastConnected
      (fun _ _ _ h => lastConnected_step h) _ _ _ hrun b
  · rw [← hreported.current]
    exact Toggles.told_eq_current_iff hreported.alternating

/-! ## A report that is lost -/

/-- Every line has bytes. -/
theorem length_lineBuffer_pos (json : Text) : 0 < (lineBuffer json).length := by
  obtain ⟨hle, -⟩ := length_encode (json ++ ['\n'])
  have hunits : 0 < utf16Length (json ++ ['\n']) := by
    rw [utf16Length_append]
    exact Nat.add_pos_right _ (by decide)
  rw [lineBuffer, List.length_take]
  omega

theorem pos_and_le_self {n : ℕ} (h : 0 < n) : 0 < n ∧ n ≤ n := ⟨h, le_rfl⟩

/-- `send` takes all that it is offered. -/
def takesAll : SendResults := fun _ offered =>
  if h : 0 < offered then some ⟨offered, pos_and_le_self h⟩ else none

@[simp] theorem sendFrame_takesAll (wire : Bytes) (json : Text) :
    Mql5.sendFrame takesAll ⟨true, wire⟩ json = (true, ⟨true, wire ++ lineBuffer json⟩) := by
  have hbuf := length_lineBuffer_pos json
  have hfirst : takesAll 0 ((lineBuffer json).length - 0) =
      some ⟨(lineBuffer json).length - 0, hbuf, le_rfl⟩ := dif_pos hbuf
  have hall : accepted takesAll (lineBuffer json).length 0 0 =
      some [(lineBuffer json).length] := by
    rw [accepted, if_pos hbuf, hfirst]
    dsimp only
    rw [accepted, if_neg (by omega)]
    rfl
  rw [Mql5.sendFrame, if_pos rfl, sendLoop_of_some hall]
  simp

/-- Each call of `send` fails. -/
def fails : SendResults := fun _ _ => none

@[simp] theorem sendFrame_fails (wire : Bytes) (json : Text) :
    Mql5.sendFrame fails ⟨true, wire⟩ json = (false, ⟨false, wire⟩) := by
  rw [Mql5.sendFrame, if_pos rfl, sendLoop, if_pos (length_lineBuffer_pos json)]
  rfl

/-- A terminal at some time, connected or not, whose account frame is sent or not. -/
def sampleTick (now : ℤ) (connected : Bool) (accountSend : SendResults) : Tick where
  connects := true
  poll := ClientArrays.pairCalls [] (.error 10035) (.error 10035)
  readings := { Readings.withGap with timeCurrent := now }
  connected := connected
  account := Readings.withGap.account
  stateSend := takesAll
  accountSend := accountSend

def sampleStart : Start := ⟨true, true, takesAll, fun _ => true, 0⟩

/-- The broker goes away, and the frame that says so is lost. -/
theorem sample_run : ∃ s₀ s, onStart sampleStart = some s₀ ∧
    run (step 1) s₀ [.timer (sampleTick 1 true takesAll), .timer (sampleTick 2 false fails)] =
      some s ∧
    s.lastConnected = false ∧ s.reports = [(true, true), (false, false)] ∧
      s.sends.map Prod.fst = [.startup 0, .state { Readings.withGap with timeCurrent := 1 },
        .account true Readings.withGap.account, .state { Readings.withGap with timeCurrent := 2 },
        .account false Readings.withGap.account] := by
  obtain ⟨s₀, hstart⟩ : ∃ s₀, onStart sampleStart = some s₀ := ⟨_, rfl⟩
  refine ⟨s₀, ?_⟩
  rw [exists_and_left]
  refine ⟨hstart, ?_⟩
  obtain rfl := Option.some.inj hstart
  have hbound : bindLoop (fun _ => true) = true := by decide
  have hpoll : ClientArrays.step {} (ClientArrays.pairCalls [] (.error 10035) (.error 10035)) =
      some {} := rfl
  simp [run, step, onTimer, ensureSocket, isOpen, sampleStart, sampleTick, hbound, connectToSlot,
    sendFrame, hpoll, pollDue, push, pushState, pushAccount, reports, EventFrame.connection]

/-- The last report that was sent still says that there is a connection. -/
theorem lost_report : ∃ s₀ s, onStart sampleStart = some s₀ ∧
    run (step 1) s₀ [.timer (sampleTick 1 true takesAll), .timer (sampleTick 2 false fails)] =
      some s ∧
    s.lastConnected = false ∧ Toggles.told false s.reports = true ∧
      ¬ Even (Toggles.missed s.reports) := by
  obtain ⟨s₀, s, hstart, hrun, hconnected, hreports, -⟩ := sample_run
  have htold : Toggles.told false s.reports = true := by
    rw [hreports]
    rfl
  refine ⟨s₀, s, hstart, hrun, hconnected, htold, ?_⟩
  rw [← (reported_of_run hstart hrun).2.2, htold, hconnected]
  decide

end SlotService

end AkronSlot.Mql5
