import AkronSlot.Slot.CommandClient
import AkronSlot.Systems.Runs
import AkronSlot.Wire.Utf8

/-!
# The command client over time (`Mt5CommandClient`)

`CommandClient` says what the client writes and how it reads one line.  This
module is the object itself: the socket it holds, the sockets it has held, the
one receive buffer, the map of pending commands and the timer that reconnects.
A run of it is any interleaving of calls of `dispatch`, of what the sockets
emit, of timers and of `destroy`.

Node's part is in the guards of `step`: a socket emits 'error' at most once,
then 'close' once and nothing afterwards, and it delivers no data once it is
destroyed.  A call of `dispatch` is suspended in `ensureConnected` until the
socket is there or its second is over; between the check and the executor of the
promise anything may happen.  The id of a call is that of no earlier call, as
`randomUUID` makes it.  How long timers run is left out.

## Numbers instead of references

Handlers of the source close over their socket, and entries of `pending` over their promise.
Here a socket and a call are their numbers in lists that only grow, and every event names the
one it is about. A guard of `step` says when Node can emit the event; a handler is then a
function of the whole client, so that a handler of an old socket can be seen to touch what
belongs to a new one.

## Main Definitions

* `Socket`, `Call`, `Calls` — the parts of the state
* `Mt5CommandClient` with `connect`, `scheduleReconnect`, `onError`, `onData`,
  `onClose`, `destroy`
* `Event`, `step`
-/

namespace AkronSlot.Slot

open Wire Systems

/-! ## Sockets -/

/-- A socket made by `connect`: what was written to it, the chunks it has
delivered, the frames its 'data' handler has passed to `dispatchFrame`, and the
flag `connectFailed` of its handlers.  `found` is what the receive buffer held
when it was made. -/
structure Socket where
  found : Text := []
  written : List Text := []
  received : List Bytes := []
  frames : List Text := []
  connected : Bool := false
  connectFailed : Bool := false
  destroyed : Bool := false
  closed : Bool := false
  deriving DecidableEq

namespace Socket

/-- A socket that has neither errored nor closed. -/
def Alive (k : Socket) : Bool := !k.connectFailed && !k.closed

/-- A socket that is up: neither errored nor closed nor destroyed. -/
def Up (k : Socket) : Bool := k.Alive && !k.destroyed

/-- A socket that can deliver data. -/
def Live (k : Socket) : Bool := k.connected && k.Up

theorem up_of_live {k : Socket} (h : k.Live = true) : k.Up = true := by
  simp only [Live, Bool.and_eq_true] at h
  exact h.2

theorem alive_of_up {k : Socket} (h : k.Up = true) : k.Alive = true := by
  simp only [Up, Bool.and_eq_true] at h
  exact h.1

def write (k : Socket) (frame : Text) : Socket := { k with written := k.written ++ [frame] }

/-- The socket delivers a chunk, and its handler hands on some frames. -/
def deliver (k : Socket) (chunk : Bytes) (frames : List Text) : Socket :=
  { k with received := k.received ++ [chunk], frames := k.frames ++ frames }

/-- The socket emits 'error', and its handler destroys it. -/
def fail (k : Socket) : Socket := { k with connectFailed := true, destroyed := true }

def destroy (k : Socket) : Socket := { k with destroyed := true }

/-- The bytes that the socket has delivered. -/
def stream (k : Socket) : Bytes := k.received.flatten

end Socket

/-! ## Calls of `dispatch` -/

/-- How far a call of `dispatch` has come. The stages follow the `await` of the source: what is
between two of them runs in one turn. -/
inductive Stage where
  /-- It waits in `ensureConnected`. -/
  | waiting
  /-- `ensureConnected` has returned. -/
  | ready
  /-- The executor of its promise has run. -/
  | begun
  /-- It threw before there was a promise. -/
  | refused
  deriving DecidableEq

/-- A call of `dispatch`: the frame to write, its timer, whether the frame was
passed to `write` and the callback of that is still to come, and what its promise
is settled with. -/
structure Call where
  id : Uuid
  frame : Text
  stage : Stage := .waiting
  timer : Bool := false
  written : Bool := false
  callback : Bool := false
  outcome : Option (Except Text (Option Json)) := none

namespace Call

/-- Resolve or reject the promise; only the first time counts. -/
def settle (c : Call) (outcome : Except Text (Option Json)) : Call :=
  { c with outcome := c.outcome.or (some outcome) }

def clearTimeout (c : Call) : Call := { c with timer := false }

/-- `p.reject` of an entry. -/
def reject (c : Call) (message : Text) : Call := c.clearTimeout.settle (.error message)

/-- The call throws before it makes a promise. -/
def refuse (c : Call) (message : Text) : Call :=
  { c with stage := .refused, outcome := some (.error message) }

/-- The executor sets the timer and writes the frame.  Without a socket the write
throws, which rejects the promise. -/
def execute (c : Call) (socket : Bool) : Call :=
  if socket then { c with stage := .begun, timer := true, written := true, callback := true }
  else
    { c with stage := .begun, timer := true }.settle
      (.error "Cannot read properties of null (reading 'write')")

/-- The callback of the write. -/
def callBack (c : Call) (error : Option Text) : Call :=
  match error with
  | none => { c with callback := false }
  | some message => { c with callback := false }.reject message

end Call

/-- The calls made, oldest first, and the map `pending` from ids to calls. A call is never
forgotten, so that what it was settled with can be asked after it has left the map. -/
structure Calls where
  made : List Call := []
  pending : List (Text × ℕ) := []

mutual

/-- Whether `String(v)` has a value: the string of an object that has a member
`toString` is a TypeError, and an array joins the strings of its elements. -/
def hasString : Json → Bool
  | .obj members => !members.any (·.1 = "toString".toList)
  | .arr elems => allHaveString elems
  | _ => true

def allHaveString : List Json → Bool
  | [] => true
  | v :: vs => hasString v && allHaveString vs

end

/-- Whether the closure `resolve` of an entry returns: it does unless the `Error` that it makes of
a refusal has no text. An error that is an object with a member `toString` is the case where it
throws. -/
def ResponseFrame.settles (r : ResponseFrame) : Bool := r.ok || r.error.all hasString

namespace Calls

def update (m : Calls) (i : ℕ) (change : Call → Call) : Calls :=
  { m with made := m.made.modify i change }

/-- `pending.delete(id)`. -/
def delete (m : Calls) (id : Text) : Calls :=
  { m with pending := m.pending.filter (·.1 ≠ id) }

/-- `pending.set(id, i)`: an entry of the same id is overwritten in its place. -/
def set (m : Calls) (id : Text) (i : ℕ) : Calls :=
  { m with
    pending :=
      if m.pending.any (·.1 = id) then m.pending.map fun e => if e.1 = id then (id, i) else e
      else m.pending ++ [(id, i)] }

/-- `dispatch` up to its first `await`. -/
def dispatch (m : Calls) (id : Uuid) (frame : Text) (destroyed : Bool) : Calls :=
  let c : Call := { id, frame }
  { m with made := m.made ++ [if destroyed then c.refuse "MT5 command client destroyed" else c] }

/-- The executor of the promise of a call. -/
def execute (m : Calls) (i : ℕ) (c : Call) (socket : Bool) : Calls :=
  (m.set c.id.text i).update i (·.execute socket)

/-- The timer of a call goes off. -/
def expire (m : Calls) (i : ℕ) (c : Call) : Calls :=
  (m.delete c.id.text).update i (·.reject "mt5_cmd_timeout")

/-- The callback of the write of a call. -/
def wrote (m : Calls) (i : ℕ) (c : Call) (error : Option Text) : Calls :=
  (if error.isSome then m.delete c.id.text else m).update i (·.callBack error)

/-- `failPending`: every entry is rejected, and the map is cleared. It does not ask which socket
an entry was written to, as there is one map for all. -/
def failAll (m : Calls) (message : Text) : Calls :=
  { m.pending.foldl (fun m e => m.update e.2 (·.reject message)) m with pending := [] }

/-- `dispatchFrame`.  There is no next state when the closure of the entry
throws: nothing catches the error, and the process ends. -/
def dispatchFrame (m : Calls) (frame : Text) : Option Calls :=
  match readResponse frame with
  | none => some m
  | some (id, r) =>
      match m.pending.find? (·.1 = id) with
      | none => some m
      | some (_, i) =>
          if r.settles then
            some ((m.delete id).update i fun c => c.clearTimeout.settle (Slot.settle r))
          else none

end Calls

/-! ## The client -/

/-- The client, with every socket it has made, oldest first; `sock` is the number
of the one it holds, `reconnects` the number of reconnect timers that run. -/
structure Mt5CommandClient where
  sockets : List Socket := []
  sock : Option ℕ := none
  recvBuf : Text := []
  calls : Calls := {}
  destroyed : Bool := false
  reconnects : ℕ := 0

namespace Mt5CommandClient

/-- `connect`. -/
def connect (s : Mt5CommandClient) : Mt5CommandClient :=
  if s.destroyed then s
  else { s with sockets := s.sockets ++ [{ found := s.recvBuf }], sock := some s.sockets.length }

/-- The constructor. -/
def initial : Mt5CommandClient := connect {}

/-- `scheduleReconnect`. -/
def scheduleReconnect (s : Mt5CommandClient) : Mt5CommandClient :=
  if s.destroyed then s else { s with reconnects := s.reconnects + 1 }

/-- `failPending`. -/
def failPending (s : Mt5CommandClient) (message : Text) : Mt5CommandClient :=
  { s with calls := s.calls.failAll message }

/-- The 'error' handler. -/
def onError (s : Mt5CommandClient) (message : Text) : Mt5CommandClient :=
  { s.failPending message with sock := none }.scheduleReconnect

/-- The 'close' handler of a socket. -/
def onClose (s : Mt5CommandClient) (k : Socket) : Mt5CommandClient :=
  if k.connectFailed || s.destroyed then s.failPending "MT5 command socket closed"
  else { s.failPending "MT5 command socket closed" with sock := none }.scheduleReconnect

/-- The length above which an unfinished line is given up. -/
def maxBuffered : ℕ := 65536

/-- The text in the receive buffer once a chunk is appended. -/
def buffered (s : Mt5CommandClient) (chunk : Bytes) : Text := s.recvBuf ++ Utf8.decode chunk

/-- The end of the 'data' handler: a line that grows too long costs the socket. The buffer keeps
what it has, and the 'close' that follows does not empty it either. -/
def dropOverflow (s : Mt5CommandClient) (c : ℕ) : Mt5CommandClient :=
  if maxBuffered < utf16Length s.recvBuf then
    { s with sockets := s.sockets.modify c Socket.destroy }
  else s

/-- The 'data' handler: every complete line leaves the buffer. -/
def onData (s : Mt5CommandClient) (c : ℕ) (chunk : Bytes) : Option Mt5CommandClient :=
  ((completeLines (s.buffered chunk)).foldlM Calls.dispatchFrame s.calls).map fun calls =>
    dropOverflow
      { s with
        sockets := s.sockets.modify c (·.deliver chunk (completeLines (s.buffered chunk)))
        recvBuf := openTail (s.buffered chunk)
        calls }
      c

/-- Whether `ensureConnected` returns. -/
def ensured (s : Mt5CommandClient) : Bool :=
  (s.sock.bind fun c => s.sockets[c]?).any fun k => !k.destroyed

/-- `this.sock!.write(frame)`. -/
def writeSock (s : Mt5CommandClient) (frame : Text) : List Socket :=
  match s.sock with
  | none => s.sockets
  | some c => s.sockets.modify c (·.write frame)

/-- `destroy`. -/
def destroy (s : Mt5CommandClient) : Mt5CommandClient :=
  { s with
    destroyed := true
    calls := s.calls.failAll "MT5 command client destroyed"
    sockets :=
      match s.sock with
      | none => s.sockets
      | some c => s.sockets.modify c Socket.destroy
    sock := none }

/-! ## Steps -/

/-- What can happen next. The callbacks of the sockets and of the timers are events with the
number of the socket or call they belong to, since those of an old socket may still come. -/
inductive Event where
  | dispatch (id : Uuid) (action : Text) (payload : Json)
  /-- `ensureConnected` returns to a call. -/
  | ensured (i : ℕ)
  /-- The second of `ensureConnected` is over. -/
  | gaveUp (i : ℕ)
  /-- The executor of the promise of a call runs. -/
  | execute (i : ℕ)
  | timeout (i : ℕ)
  | wrote (i : ℕ) (error : Option Text)
  | connected (c : ℕ)
  | error (c : ℕ) (message : Text)
  | data (c : ℕ) (chunk : Bytes)
  | close (c : ℕ)
  /-- A reconnect timer goes off. -/
  | reconnect
  | destroy

/-- A step on a call that is in a state for it. All timers, callbacks and continuations of a call
go through this, so that a step of one call is seen to leave the others alone. -/
def onCall (s : Mt5CommandClient) (i : ℕ) (allowed : Call → Bool) (change : Call → Calls) :
    Option Mt5CommandClient :=
  s.calls.made[i]?.bind fun c => if allowed c then some { s with calls := change c } else none

/-- A step on a socket that is in a state for it. -/
def onSocket (s : Mt5CommandClient) (c : ℕ) (allowed : Socket → Bool)
    (change : Socket → Option Mt5CommandClient) : Option Mt5CommandClient :=
  s.sockets[c]?.bind fun k => if allowed k then change k else none

/-- A socket changes. -/
def setSocket (s : Mt5CommandClient) (c : ℕ) (k : Socket) : Mt5CommandClient :=
  { s with sockets := s.sockets.set c k }

/-- The client takes a step. -/
def step (s : Mt5CommandClient) : Event → Option Mt5CommandClient
  | .dispatch id action payload =>
      if s.calls.made.any (·.id.text = id.text) then none
      else
        some { s with
          calls := s.calls.dispatch id (commandFrame id action payload ++ ['\n']) s.destroyed }
  | .ensured i =>
      s.onCall i (fun c => c.stage = .waiting && s.ensured) fun _ =>
        s.calls.update i ({ · with stage := .ready })
  | .gaveUp i =>
      s.onCall i (·.stage = .waiting) fun _ =>
        s.calls.update i (·.refuse "MT5 command socket not connected")
  | .execute i =>
      s.calls.made[i]?.bind fun c =>
        if c.stage = .ready then
          some { s with
            sockets := s.writeSock c.frame
            calls := s.calls.execute i c s.sock.isSome }
        else none
  | .timeout i => s.onCall i (·.timer) fun c => s.calls.expire i c
  | .wrote i error => s.onCall i (·.callback) fun c => s.calls.wrote i c error
  | .connected c =>
      s.onSocket c (fun k => k.Alive && !k.destroyed && !k.connected) fun k =>
        some (s.setSocket c { k with connected := true })
  | .error c message =>
      s.onSocket c Socket.Alive fun k => some ((s.setSocket c k.fail).onError message)
  | .data c chunk => s.onSocket c Socket.Live fun _ => s.onData c chunk
  | .close c =>
      s.onSocket c (fun k => !k.closed) fun k =>
        some ((s.setSocket c { k with closed := true }).onClose k)
  | .reconnect =>
      if s.reconnects = 0 then none else some { s with reconnects := s.reconnects - 1 }.connect
  | .destroy => some s.destroy

/-! ## What each step does -/

theorem onCall_eq_some_iff {s s' : Mt5CommandClient} {i : ℕ} {allowed : Call → Bool}
    {change : Call → Calls} :
    s.onCall i allowed change = some s' ↔ ∃ c, s.calls.made[i]? = some c ∧ allowed c = true ∧
      s' = { s with calls := change c } := by
  simp only [onCall, Option.bind_eq_some_iff, Option.ite_none_right_eq_some, Option.some.injEq]
  exact exists_congr fun c => and_congr_right fun _ => and_congr_right fun _ => eq_comm

theorem onSocket_eq_some_iff {s s' : Mt5CommandClient} {c : ℕ} {allowed : Socket → Bool}
    {change : Socket → Option Mt5CommandClient} :
    s.onSocket c allowed change = some s' ↔
      ∃ k, s.sockets[c]? = some k ∧ allowed k = true ∧ change k = some s' := by
  simp only [onSocket, Option.bind_eq_some_iff, Option.ite_none_right_eq_some]

theorem onSocket_some_iff {s s' : Mt5CommandClient} {c : ℕ} {allowed : Socket → Bool}
    {change : Socket → Mt5CommandClient} :
    s.onSocket c allowed (fun k => some (change k)) = some s' ↔
      ∃ k, s.sockets[c]? = some k ∧ allowed k = true ∧ s' = change k := by
  simp only [onSocket_eq_some_iff, Option.some.injEq]
  exact exists_congr fun k => and_congr_right fun _ => and_congr_right fun _ => eq_comm

section Inversion

variable {s s' : Mt5CommandClient} {c i : ℕ}

theorem step_dispatch {id : Uuid} {action : Text} {payload : Json} :
    s.step (.dispatch id action payload) = some s' ↔
      (∀ call ∈ s.calls.made, call.id.text ≠ id.text) ∧ s' = { s with
        calls := s.calls.dispatch id (commandFrame id action payload ++ ['\n']) s.destroyed } := by
  simp only [step, Option.ite_none_left_eq_some, Option.some.injEq, List.any_eq_true,
    decide_eq_true_eq, not_exists, not_and]
  exact and_congr_right fun _ => eq_comm

theorem step_ensured : s.step (.ensured i) = some s' ↔
    ∃ call, s.calls.made[i]? = some call ∧ (call.stage = .waiting ∧ s.ensured = true) ∧
      s' = { s with calls := s.calls.update i ({ · with stage := .ready }) } := by
  simp [step, onCall_eq_some_iff]

theorem step_gaveUp : s.step (.gaveUp i) = some s' ↔
    ∃ call, s.calls.made[i]? = some call ∧ call.stage = .waiting ∧ s' = { s with
      calls := s.calls.update i (·.refuse "MT5 command socket not connected") } := by
  simp [step, onCall_eq_some_iff]

theorem step_execute : s.step (.execute i) = some s' ↔
    ∃ call, s.calls.made[i]? = some call ∧ call.stage = .ready ∧ s' = { s with
      sockets := s.writeSock call.frame
      calls := s.calls.execute i call s.sock.isSome } := by
  simp only [step, Option.bind_eq_some_iff, Option.ite_none_right_eq_some, Option.some.injEq]
  exact exists_congr fun call => and_congr_right fun _ => and_congr_right fun _ => eq_comm

theorem step_timeout : s.step (.timeout i) = some s' ↔
    ∃ call, s.calls.made[i]? = some call ∧ call.timer = true ∧
      s' = { s with calls := s.calls.expire i call } := onCall_eq_some_iff

theorem step_wrote {error : Option Text} : s.step (.wrote i error) = some s' ↔
    ∃ call, s.calls.made[i]? = some call ∧ call.callback = true ∧
      s' = { s with calls := s.calls.wrote i call error } := onCall_eq_some_iff

theorem step_connected : s.step (.connected c) = some s' ↔
    ∃ k, s.sockets[c]? = some k ∧ (k.Alive = true ∧ k.destroyed = false ∧ k.connected = false) ∧
      s' = s.setSocket c { k with connected := true } := by
  simp [step, onSocket_some_iff, and_assoc]

theorem step_error {message : Text} : s.step (.error c message) = some s' ↔
    ∃ k, s.sockets[c]? = some k ∧ k.Alive = true ∧
      s' = (s.setSocket c k.fail).onError message := onSocket_some_iff

theorem step_data {chunk : Bytes} : s.step (.data c chunk) = some s' ↔
    ∃ k, s.sockets[c]? = some k ∧ k.Live = true ∧ s.onData c chunk = some s' :=
  onSocket_eq_some_iff

theorem step_close : s.step (.close c) = some s' ↔
    ∃ k, s.sockets[c]? = some k ∧ k.closed = false ∧
      s' = (s.setSocket c { k with closed := true }).onClose k := by
  simp [step, onSocket_some_iff]

theorem step_reconnect : s.step .reconnect = some s' ↔
    0 < s.reconnects ∧ s' = { s with reconnects := s.reconnects - 1 }.connect := by
  simp only [step, Option.ite_none_left_eq_some, Option.some.injEq]
  exact and_congr Nat.pos_iff_ne_zero.symm eq_comm

theorem step_destroy : s.step .destroy = some s' ↔ s' = s.destroy := by
  simp [step, eq_comm]

/-- The events that are about a call and no socket. -/
def Event.onCalls : Event → Bool
  | .dispatch .. | .ensured _ | .gaveUp _ | .timeout _ | .wrote .. => true
  | _ => false

/-- Such an event changes the calls and nothing else. -/
theorem step_onCalls {e : Event} (he : e.onCalls = true) (h : s.step e = some s') :
    s' = { s with calls := s'.calls } := by
  cases e with
  | dispatch id action payload =>
      obtain ⟨-, rfl⟩ := step_dispatch.mp h
      rfl
  | ensured j =>
      obtain ⟨call, -, -, rfl⟩ := step_ensured.mp h
      rfl
  | gaveUp j =>
      obtain ⟨call, -, -, rfl⟩ := step_gaveUp.mp h
      rfl
  | timeout j =>
      obtain ⟨call, -, -, rfl⟩ := step_timeout.mp h
      rfl
  | wrote j error =>
      obtain ⟨call, -, -, rfl⟩ := step_wrote.mp h
      rfl
  | _ => simp [Event.onCalls] at he

/-- What a chunk does: the lines it completes settle calls, the rest stays in the
buffer, and a socket may be destroyed. -/
theorem onData_eq_some {chunk : Bytes} (h : s.onData c chunk = some s') :
    ∃ calls, (completeLines (s.buffered chunk)).foldlM Calls.dispatchFrame s.calls = some calls ∧
      s' = dropOverflow
        { s with
          sockets := s.sockets.modify c (·.deliver chunk (completeLines (s.buffered chunk)))
          recvBuf := openTail (s.buffered chunk)
          calls }
        c := by
  obtain ⟨calls, hcalls, rfl⟩ := Option.map_eq_some_iff.mp h
  exact ⟨calls, hcalls, rfl⟩

end Inversion

/-! ## What becomes of a socket -/

/-- A socket later on: what it has delivered has only grown, by these chunks and frames, and if it
went down it stays down. It is all that later modules need to know of a step about a socket. -/
structure Grown (chunks : List Bytes) (frames : List Text) (k k' : Socket) : Prop where
  found : k'.found = k.found
  received : k'.received = k.received ++ chunks
  frames : k'.frames = k.frames ++ frames
  alive : k'.Alive = true → k.Alive = true
  destroyed : k.destroyed = true → k'.destroyed = true

theorem Grown.refl (k : Socket) : Grown [] [] k k where
  found := rfl
  received := (List.append_nil _).symm
  frames := (List.append_nil _).symm
  alive := id
  destroyed := id

theorem Grown.trans {chunks : List Bytes} {frames : List Text} {k k' k'' : Socket}
    (h : Grown chunks frames k k') (h' : Grown [] [] k' k'') : Grown chunks frames k k'' where
  found := h'.found.trans h.found
  received := by rw [h'.received, List.append_nil, h.received]
  frames := by rw [h'.frames, List.append_nil, h.frames]
  alive hk := h.alive (h'.alive hk)
  destroyed hk := h'.destroyed (h.destroyed hk)

/-- One socket of a list changes. -/
theorem exists_grown_modify (chunks : List Bytes) (frames : List Text) (f : Socket → Socket)
    (hf : ∀ k, Grown chunks frames k (f k)) {l : List Socket} (c : ℕ) {i : ℕ} {k : Socket}
    (hk : l[i]? = some k) :
    ∃ k', (l.modify c f)[i]? = some k' ∧
      Grown (if c = i then chunks else []) (if c = i then frames else []) k k' := by
  rw [List.getElem?_modify, hk]
  by_cases hi : c = i
  · subst hi
    exact ⟨f k, by simp, by simpa using hf k⟩
  · exact ⟨k, by simp [hi], by simpa [hi] using Grown.refl k⟩

/-- One socket of a list is replaced by what it has become. -/
theorem exists_grown_set {l : List Socket} {c i : ℕ} {k₀ k₁ k : Socket} (hk₀ : l[c]? = some k₀)
    (h : Grown [] [] k₀ k₁) (hk : l[i]? = some k) :
    ∃ k', (l.set c k₁)[i]? = some k' ∧ Grown [] [] k k' := by
  rw [List.getElem?_set']
  by_cases hi : c = i
  · subst hi
    obtain rfl : k₀ = k := Option.some.inj (hk₀.symm.trans hk)
    exact ⟨k₁, by simp [hk], h⟩
  · exact ⟨k, by simp [hi, hk], Grown.refl k⟩

/-- The chunks that an event delivers on a socket. -/
def Event.chunksOn (i : ℕ) : Event → List Bytes
  | .data c chunk => if c = i then [chunk] else []
  | _ => []

/-- The frames that an event makes the handler of a socket hand on. -/
def framesOn (s : Mt5CommandClient) (i : ℕ) : Event → List Text
  | .data c chunk => if c = i then completeLines (s.buffered chunk) else []
  | _ => []

theorem sockets_scheduleReconnect (s : Mt5CommandClient) :
    s.scheduleReconnect.sockets = s.sockets := by
  unfold scheduleReconnect
  split <;> rfl

theorem sockets_onClose (s : Mt5CommandClient) (k : Socket) :
    (s.onClose k).sockets = s.sockets := by
  unfold onClose
  split
  · rfl
  · exact sockets_scheduleReconnect _

section Sockets

variable {s s' : Mt5CommandClient} {i : ℕ} {k : Socket}

theorem grown_data {c : ℕ} {chunk : Bytes} (h : s.onData c chunk = some s')
    (hk : s.sockets[i]? = some k) :
    ∃ k', s'.sockets[i]? = some k' ∧
      Grown (Event.chunksOn i (.data c chunk)) (s.framesOn i (.data c chunk)) k k' := by
  obtain ⟨calls, -, rfl⟩ := onData_eq_some h
  obtain ⟨k₁, hk₁, hgrown⟩ := exists_grown_modify [chunk] (completeLines (s.buffered chunk))
    (·.deliver chunk (completeLines (s.buffered chunk)))
    (fun k => ⟨rfl, rfl, rfl, id, id⟩) c hk
  unfold dropOverflow
  split
  · obtain ⟨k₂, hk₂, hdestroyed⟩ := exists_grown_modify [] [] Socket.destroy
      (fun k => ⟨rfl, (List.append_nil _).symm, (List.append_nil _).symm, id, fun _ => rfl⟩) c hk₁
    exact ⟨k₂, hk₂, hgrown.trans (by simpa using hdestroyed)⟩
  · exact ⟨k₁, hk₁, hgrown⟩

/-- **What a step leaves of a socket.** -/
theorem step_socket {e : Event} (h : s.step e = some s') (hk : s.sockets[i]? = some k) :
    ∃ k', s'.sockets[i]? = some k' ∧ Grown (e.chunksOn i) (s.framesOn i e) k k' := by
  have happend : ∀ {l : List Text}, l = l ++ [] := (List.append_nil _).symm
  have hchunks : ∀ {l : List Bytes}, l = l ++ [] := (List.append_nil _).symm
  cases e with
  | execute j =>
      obtain ⟨call, -, -, rfl⟩ := step_execute.mp h
      show ∃ k', (s.writeSock call.frame)[i]? = some k' ∧ Grown [] [] k k'
      unfold writeSock
      split
      · exact ⟨k, hk, Grown.refl k⟩
      · next c hc =>
          -- the frame is written to the current socket alone
          have hwrite := exists_grown_modify [] []
            (·.write call.frame) (fun k => ⟨rfl, hchunks, happend, id, id⟩) c hk
          rwa [ite_self, ite_self] at hwrite
  | connected c =>
      obtain ⟨k₀, hk₀, -, rfl⟩ := step_connected.mp h
      exact exists_grown_set hk₀ ⟨rfl, hchunks, happend, id, id⟩ hk
  | error c message =>
      obtain ⟨k₀, hk₀, -, rfl⟩ := step_error.mp h
      rw [onError, sockets_scheduleReconnect]
      exact exists_grown_set hk₀
        ⟨rfl, hchunks, happend, by simp [Socket.Alive, Socket.fail], fun _ => rfl⟩ hk
  | data c chunk =>
      obtain ⟨k₀, -, -, hdata⟩ := step_data.mp h
      exact grown_data hdata hk
  | close c =>
      obtain ⟨k₀, hk₀, -, rfl⟩ := step_close.mp h
      rw [sockets_onClose]
      exact exists_grown_set hk₀ ⟨rfl, hchunks, happend, by simp [Socket.Alive], id⟩ hk
  | reconnect =>
      obtain ⟨-, rfl⟩ := step_reconnect.mp h
      refine ⟨k, ?_, Grown.refl k⟩
      unfold connect
      split
      · exact hk
      · exact (List.getElem?_append_left (List.getElem?_eq_some_iff.mp hk).1).trans hk
  | destroy =>
      obtain rfl := step_destroy.mp h
      unfold destroy
      cases s.sock with
      | none => exact ⟨k, hk, Grown.refl k⟩
      | some c =>
          have hdestroy := exists_grown_modify [] [] Socket.destroy
            (fun k => ⟨rfl, hchunks, happend, id, fun _ => rfl⟩) c hk
          rwa [ite_self, ite_self] at hdestroy
  | _ =>
      rw [step_onCalls rfl h]
      exact ⟨k, hk, Grown.refl k⟩

end Sockets

/-- What an event leaves in the receive buffer. -/
def recvBufAfter (s : Mt5CommandClient) : Event → Text
  | .data _ chunk => openTail (s.buffered chunk)
  | _ => s.recvBuf

theorem step_recvBuf {s s' : Mt5CommandClient} {e : Event} (h : s.step e = some s') :
    s'.recvBuf = s.recvBufAfter e := by
  have hschedule : ∀ t : Mt5CommandClient, t.scheduleReconnect.recvBuf = t.recvBuf := by
    intro t
    unfold scheduleReconnect
    split <;> rfl
  cases e with
  | execute j =>
      obtain ⟨call, -, -, rfl⟩ := step_execute.mp h
      rfl
  | connected c =>
      obtain ⟨k, -, -, rfl⟩ := step_connected.mp h
      rfl
  | error c message =>
      obtain ⟨k, -, -, rfl⟩ := step_error.mp h
      exact hschedule _
  | data c chunk =>
      obtain ⟨k, -, -, hdata⟩ := step_data.mp h
      obtain ⟨calls, -, rfl⟩ := onData_eq_some hdata
      unfold dropOverflow
      split <;> rfl
  | close c =>
      obtain ⟨k, -, -, rfl⟩ := step_close.mp h
      unfold onClose
      split
      · rfl
      · exact hschedule _
  | reconnect =>
      obtain ⟨-, rfl⟩ := step_reconnect.mp h
      unfold connect
      split <;> rfl
  | destroy =>
      obtain rfl := step_destroy.mp h
      rfl
  | _ =>
      rw [step_onCalls rfl h]
      rfl

end Mt5CommandClient

end AkronSlot.Slot
