import AkronSlot.Slot.CommandClient
import AkronSlot.Slot.Frames
import AkronSlot.Systems.Runs
import AkronSlot.Wire.JsonRoundTrip
import AkronSlot.Wire.Utf8

/-!
# The TCP server (`mt5-tcp-server.ts`) and the sockets it accepts

`Mt5TcpServer` keeps one socket, one receive buffer and one map of pending
commands for all connections.  Its handlers do not say which socket they run
for; a run of the server is any interleaving of what the publishers, the
sockets and the rest of the program do.

A socket delivers the bytes of its publisher in order until it is destroyed;
what is in flight then is discarded.  A destroyed socket emits 'close' once, at
any later time.  A socket that the server does not destroy goes down only after
its publisher has closed its end.

## Both ends of a connection

A connection has two ends that know different things: the publisher what it has sent, the socket
what has been delivered. `Conn` has both and what is in flight between them, so that a promise
to a publisher can be stated, and not only one about the handlers.

## Effects

`step` follows the source handler by handler. Nearly every later proof needs less than that:
which fields an event can touch. `Effect` says it once for all events, and the modules on
connections, streams and publishers start from there.

## Main Definitions

* `Conn` — a connection, seen from both ends
* `Commands` — the pending commands and the promises made for them
* `Mt5TcpServer` with `handleConnection`, `onData`, `onClose`, `dispatchCommand`
* `Event`, `step`
-/

namespace AkronSlot.Slot

open Wire Systems

/-- `RECV_BUF_MAX`. -/
def recvBufMax : ℕ := 65536

/-! ## Connections -/

/-- A connection: what its publisher has sent, the chunks that its socket has delivered, and what
is under way. The flags say which end is still there. -/
structure Conn where
  sent : Bytes := []
  received : List Bytes := []
  inFlight : Bytes := []
  ended : Bool := false
  destroyed : Bool := false
  closed : Bool := false
  deriving DecidableEq

namespace Conn

/-- The publisher writes.  A destroyed socket delivers nothing more. -/
def send (k : Conn) (bytes : Bytes) : Conn :=
  { k with
    sent := k.sent ++ bytes
    inFlight := if k.destroyed then k.inFlight else k.inFlight ++ bytes }

/-- The publisher closes its end. -/
def finish (k : Conn) : Conn := { k with ended := true }

/-- The socket delivers a chunk. -/
def deliver (k : Conn) (chunk : Bytes) : Conn :=
  { k with received := k.received ++ [chunk], inFlight := k.inFlight.drop chunk.length }

/-- `sock.destroy()`. -/
def destroy (k : Conn) : Conn := { k with destroyed := true, inFlight := [] }

/-- The socket emits 'close'. -/
def close (k : Conn) : Conn := { k with closed := true }

/-- The bytes that the socket has delivered. -/
def stream (k : Conn) : Bytes := k.received.flatten

end Conn

/-! ## Commands -/

/-- An entry of `pending`: the promise it settles and the connection that the
command was written to. -/
structure PendingCommand where
  promise : ℕ
  conn : ℕ
  deriving DecidableEq

/-- The commands that were written to the event socket.  A promise is named by
the number of promises made before it; `settled` is what became of them. -/
structure Commands where
  pending : List (Text × PendingCommand) := []
  timers : List (ℕ × Text) := []
  writes : List (ℕ × Text) := []
  promises : ℕ := 0
  settled : List (ℕ × Except Text CommandResult) := []

namespace Commands

/-- Resolve or reject a promise; only the first time counts. -/
def settle (m : Commands) (promise : ℕ) (outcome : Except Text CommandResult) : Commands :=
  if m.settled.any (·.1 = promise) then m
  else { m with settled := m.settled ++ [(promise, outcome)] }

def clearTimeout (m : Commands) (promise : ℕ) : Commands :=
  { m with timers := m.timers.filter (·.1 ≠ promise) }

/-- `pending.delete(id)`. -/
def delete (m : Commands) (id : Text) : Commands :=
  { m with pending := m.pending.filter (·.1 ≠ id) }

/-- `pending.set(id, p)`: an entry of the same id is overwritten in its place. -/
def set (m : Commands) (id : Text) (p : PendingCommand) : Commands :=
  { m with
    pending :=
      if m.pending.any (·.1 = id) then m.pending.map fun e => if e.1 = id then (id, p) else e
      else m.pending ++ [(id, p)] }

/-- A command is written to a connection: its entry, its timer and its write. -/
def write (m : Commands) (id : Text) (conn : ℕ) : Commands :=
  { m.set id ⟨m.promises, conn⟩ with
    timers := m.timers ++ [(m.promises, id)]
    writes := m.writes ++ [(m.promises, id)]
    promises := m.promises + 1 }

/-- A command is refused at once. -/
def refuse (m : Commands) (message : Text) : Commands :=
  { m with promises := m.promises + 1 }.settle m.promises (.error message)

/-- The response to a command, if one with this id is pending. -/
def respond (m : Commands) (id : Text) (r : CommandResult) : Commands :=
  match m.pending.find? (·.1 = id) with
  | none => m
  | some (_, p) => ((m.clearTimeout p.promise).delete id).settle p.promise (.ok r)

/-- Fail every pending command. -/
def failAll (m : Commands) (error : Text) : Commands :=
  { m.pending.foldl
      (fun m e => (m.clearTimeout e.2.promise).settle e.2.promise (.ok ⟨false, none, some error⟩)) m
    with pending := [] }

/-- The timer of a promise goes off. -/
def expire (m : Commands) (promise : ℕ) (id : Text) : Commands :=
  ((m.clearTimeout promise).delete id).settle promise (.ok ⟨false, none, some "mt5_timeout"⟩)

/-- The callback of a write, with an error if the write failed. -/
def written (m : Commands) (promise : ℕ) (id : Text) (error : Option Text) : Commands :=
  let m := { m with writes := m.writes.filter (·.1 ≠ promise) }
  match error with
  | none => m
  | some message => ((m.clearTimeout promise).delete id).settle promise (.error message)

end Commands

/-! ## The server -/

/-- A value passed to `dispatch`: the line it was parsed from, and the connection whose 'data'
handler ran. The source keeps no such log; it is what claims about frames are about. -/
structure Dispatched where
  conn : ℕ
  line : Text
  value : Json

/-- The server with the connections it has accepted, oldest first, the values it
has passed to `dispatch` and the frames it has passed to `handleEvent`. -/
structure Mt5TcpServer where
  conns : List Conn := []
  sock : Option ℕ := none
  recvBuf : Text := []
  commands : Commands := {}
  cmdClient : Bool := false
  listening : Bool := true
  dispatched : List Dispatched := []
  events : List Frame := []

namespace Mt5TcpServer

/-- Destroy the socket that the server holds, if it holds one. -/
def destroySock (s : Mt5TcpServer) : Mt5TcpServer :=
  match s.sock with
  | none => s
  | some c => { s with conns := s.conns.modify c Conn.destroy }

/-- `handleConnection`. -/
def handleConnection (s : Mt5TcpServer) : Mt5TcpServer :=
  { s with
    conns := s.destroySock.conns ++ [{}]
    sock := some s.conns.length
    recvBuf := [] }

/-- `dispatch`. -/
def dispatch (s : Mt5TcpServer) (v : Json) : Mt5TcpServer :=
  match anyFrame v with
  | none => s
  | some (.response id ok result error) =>
      { s with commands := s.commands.respond id ⟨ok, result, error⟩ }
  | some frame => { s with events := s.events ++ [frame] }

/-- Note a value that is passed to `dispatch`. -/
def note (s : Mt5TcpServer) (d : Dispatched) : Mt5TcpServer :=
  { s with dispatched := s.dispatched ++ [d] }

/-- One turn of the loop of `onData`: a line that is no JSON is logged. -/
def takeLine (c : ℕ) (s : Mt5TcpServer) (line : Text) : Mt5TcpServer :=
  match Json.parse line with
  | none => s
  | some v => (s.note ⟨c, line, v⟩).dispatch v

/-- The text in the receive buffer once a chunk is appended. -/
def buffered (s : Mt5TcpServer) (chunk : Bytes) : Text := s.recvBuf ++ Utf8.decode chunk

/-- The loop of `onData`: every complete line leaves the buffer. -/
def takeLines (s : Mt5TcpServer) (c : ℕ) (chunk : Bytes) : Mt5TcpServer :=
  (completeLines (s.buffered chunk)).foldl (takeLine c)
    { s with recvBuf := openTail (s.buffered chunk) }

/-- The overflow check of `onData`. -/
def dropOverflow (s : Mt5TcpServer) : Mt5TcpServer :=
  if recvBufMax < utf16Length s.recvBuf then { s with recvBuf := [] } else s

/-- `onData`, as the handler of a connection. -/
def onData (s : Mt5TcpServer) (c : ℕ) (chunk : Bytes) : Mt5TcpServer :=
  (s.takeLines c chunk).dropOverflow

/-- `onClose`. It clears `this.sock` and fails the pending commands whichever connection has
closed. -/
def onClose (s : Mt5TcpServer) : Mt5TcpServer :=
  { s with sock := none, commands := s.commands.failAll "mt5_disconnected" }

/-- `isConnected`. -/
def isConnected (s : Mt5TcpServer) : Bool :=
  (s.sock.bind fun c => s.conns[c]?).any fun k => !k.destroyed

/-- `dispatchCommand`.  With a command client the server keeps nothing of the
command. -/
def dispatchCommand (s : Mt5TcpServer) (id : Text) : Mt5TcpServer :=
  if s.cmdClient then s
  else
    match s.sock with
    | none => { s with commands := s.commands.refuse "MT5 socket not connected" }
    | some c =>
        if s.isConnected then { s with commands := s.commands.write id c }
        else { s with commands := s.commands.refuse "MT5 socket not connected" }

/-- `stop`. -/
def stop (s : Mt5TcpServer) : Mt5TcpServer :=
  { s.destroySock with
    commands := s.commands.failAll "mt5_server_stopping"
    listening := false }

/-! ## What the handlers leave alone -/

section Frame

variable (s : Mt5TcpServer)

@[simp] theorem destroySock_sock : s.destroySock.sock = s.sock := by
  unfold destroySock
  split <;> rfl

@[simp] theorem destroySock_length : s.destroySock.conns.length = s.conns.length := by
  unfold destroySock
  split <;> simp

@[simp] theorem destroySock_recvBuf : s.destroySock.recvBuf = s.recvBuf := by
  unfold destroySock
  split <;> rfl

@[simp] theorem destroySock_dispatched : s.destroySock.dispatched = s.dispatched := by
  unfold destroySock
  split <;> rfl

@[simp] theorem dispatch_conns (v : Json) : (s.dispatch v).conns = s.conns := by
  unfold dispatch
  split <;> rfl

@[simp] theorem dispatch_sock (v : Json) : (s.dispatch v).sock = s.sock := by
  unfold dispatch
  split <;> rfl

@[simp] theorem dispatch_recvBuf (v : Json) : (s.dispatch v).recvBuf = s.recvBuf := by
  unfold dispatch
  split <;> rfl

@[simp] theorem dispatch_dispatched (v : Json) : (s.dispatch v).dispatched = s.dispatched := by
  unfold dispatch
  split <;> rfl

end Frame

/-- The lines that `onData` passes to `dispatch` for a connection. -/
def parsed (c : ℕ) (lines : List Text) : List Dispatched :=
  lines.filterMap fun l => (Json.parse l).map fun v => ⟨c, l, v⟩

/-- What the loop of `onData` leaves alone, and what it adds. -/
theorem foldl_takeLine (c : ℕ) (lines : List Text) (s : Mt5TcpServer) :
    (lines.foldl (takeLine c) s).conns = s.conns ∧
      (lines.foldl (takeLine c) s).sock = s.sock ∧
      (lines.foldl (takeLine c) s).recvBuf = s.recvBuf ∧
      (lines.foldl (takeLine c) s).dispatched = s.dispatched ++ parsed c lines := by
  induction lines generalizing s with
  | nil => simp [parsed]
  | cons l lines ih =>
      obtain ⟨hconns, hsock, hbuf, hdispatched⟩ := ih (takeLine c s l)
      rw [List.foldl_cons, hconns, hsock, hbuf, hdispatched]
      cases hl : Json.parse l with
      | none => simp [takeLine, parsed, hl]
      | some v => simp [takeLine, parsed, hl, note]

section OnData

variable (s : Mt5TcpServer) (c : ℕ) (chunk : Bytes)

@[simp] theorem dropOverflow_conns : s.dropOverflow.conns = s.conns := by
  unfold dropOverflow
  split <;> rfl

@[simp] theorem dropOverflow_sock : s.dropOverflow.sock = s.sock := by
  unfold dropOverflow
  split <;> rfl

@[simp] theorem dropOverflow_dispatched : s.dropOverflow.dispatched = s.dispatched := by
  unfold dropOverflow
  split <;> rfl

@[simp] theorem onData_conns : (s.onData c chunk).conns = s.conns := by
  simp [onData, takeLines, foldl_takeLine]

@[simp] theorem onData_sock : (s.onData c chunk).sock = s.sock := by
  simp [onData, takeLines, foldl_takeLine]

theorem onData_dispatched : (s.onData c chunk).dispatched =
    s.dispatched ++ parsed c (completeLines (s.buffered chunk)) := by
  simp [onData, takeLines, foldl_takeLine]

/-- The buffer keeps the open tail, unless that is too long. -/
theorem onData_recvBuf : (s.onData c chunk).recvBuf =
    if recvBufMax < utf16Length (openTail (s.buffered chunk)) then []
    else openTail (s.buffered chunk) := by
  have hbuf : (s.takeLines c chunk).recvBuf = openTail (s.buffered chunk) := by
    simp [takeLines, foldl_takeLine]
  rw [onData, dropOverflow, hbuf]
  split
  · rfl
  · exact hbuf

end OnData

/-! ## Frames on the wire -/

/-- The bytes of a frame. -/
def frameBytes (v : Json) : Bytes := Utf8.encode (v.print ++ ['\n'])

theorem decode_frameBytes (v : Json) : Utf8.decode (frameBytes v) = v.print ++ ['\n'] :=
  Utf8.decode_encode _

theorem frameBytes_ne_nil (v : Json) : frameBytes v ≠ [] := by
  simp [frameBytes, Utf8.encode_append, Utf8.encode_newline]

/-- A frame that arrives in one chunk is the only line of an empty buffer. -/
theorem lines_frameBytes {s : Mt5TcpServer} (h : s.recvBuf = []) (c : ℕ) (v : Json) :
    parsed c (completeLines (s.buffered (frameBytes v))) = [⟨c, v.print, v⟩] ∧
      openTail (s.buffered (frameBytes v)) = [] := by
  have hbuffered : s.buffered (frameBytes v) = v.print ++ '\n' :: [] := by
    rw [buffered, h, decode_frameBytes, List.nil_append]
  have hno := Json.newline_notMem_print v
  rw [hbuffered, completeLines_line hno, openTail_line hno]
  simp [parsed, Json.parse_print]

/-! ## Steps -/

/-- What can happen next. A publisher and the server each see their end of a connection, so that a
close on one side and its event on the other are two steps, with others between them. -/
inductive Event where
  /-- A publisher connects and the server accepts it. -/
  | connect
  /-- A publisher writes to its connection and the write succeeds. -/
  | send (c : ℕ) (bytes : Bytes)
  /-- A publisher, or the system for it, closes its end. -/
  | finish (c : ℕ)
  /-- A socket emits 'data'. -/
  | data (c : ℕ) (chunk : Bytes)
  /-- A socket goes down after its publisher has closed its end. -/
  | hangUp (c : ℕ)
  /-- A socket emits 'close'. -/
  | close (c : ℕ)
  | dispatchCommand (id : Text)
  | timeout (promise : ℕ)
  | written (promise : ℕ) (error : Option Text)
  | setCommandClient
  | stop
  deriving DecidableEq

/-- A connection changes, if it is in a state that allows it. The guards are Node's: nothing is
delivered on a destroyed socket, and 'close' comes once. -/
def onConn (s : Mt5TcpServer) (c : ℕ) (allowed : Conn → Bool) (change : Conn → Conn) :
    Option Mt5TcpServer :=
  s.conns[c]?.bind fun k =>
    if allowed k then some { s with conns := s.conns.set c (change k) } else none

/-- The system takes a step. -/
def step (s : Mt5TcpServer) : Event → Option Mt5TcpServer
  | .connect => if s.listening then some s.handleConnection else none
  | .send c bytes => s.onConn c (fun k => !k.ended) (·.send bytes)
  | .finish c => s.onConn c (fun k => !k.ended) Conn.finish
  | .data c chunk =>
      (s.onConn c (fun k => !k.destroyed && !chunk.isEmpty && chunk.isPrefixOf k.inFlight)
        (·.deliver chunk)).map (·.onData c chunk)
  | .hangUp c => s.onConn c (fun k => k.ended && !k.destroyed) Conn.destroy
  | .close c => (s.onConn c (fun k => k.destroyed && !k.closed) Conn.close).map onClose
  | .dispatchCommand id => some (s.dispatchCommand id)
  | .timeout promise =>
      (s.commands.timers.find? (·.1 = promise)).map fun t =>
        { s with commands := s.commands.expire promise t.2 }
  | .written promise error =>
      (s.commands.writes.find? (·.1 = promise)).map fun w =>
        { s with commands := s.commands.written promise w.2 error }
  | .setCommandClient => some { s with cmdClient := true }
  | .stop => some s.stop

/-! ## What each step does -/

theorem onConn_eq_some_iff {s s' : Mt5TcpServer} {c : ℕ} {allowed : Conn → Bool}
    {change : Conn → Conn} :
    s.onConn c allowed change = some s' ↔ ∃ k, s.conns[c]? = some k ∧ allowed k = true ∧
      s' = { s with conns := s.conns.set c (change k) } := by
  simp only [onConn, Option.bind_eq_some_iff, Option.ite_none_right_eq_some, Option.some.injEq]
  exact exists_congr fun k => and_congr_right fun _ => and_congr_right fun _ => eq_comm

section Inversion

variable {s s' : Mt5TcpServer} {c : ℕ}

theorem step_connect :
    s.step .connect = some s' ↔ s.listening = true ∧ s' = s.handleConnection := by
  simp only [step, Option.ite_none_right_eq_some, Option.some.injEq]
  exact and_congr_right fun _ => eq_comm

theorem step_send {bytes : Bytes} : s.step (.send c bytes) = some s' ↔
    ∃ k, s.conns[c]? = some k ∧ k.ended = false ∧
      s' = { s with conns := s.conns.set c (k.send bytes) } := by
  simp [step, onConn_eq_some_iff]

theorem step_finish : s.step (.finish c) = some s' ↔
    ∃ k, s.conns[c]? = some k ∧ k.ended = false ∧
      s' = { s with conns := s.conns.set c k.finish } := by
  simp [step, onConn_eq_some_iff]

theorem step_data {chunk : Bytes} : s.step (.data c chunk) = some s' ↔
    ∃ k, s.conns[c]? = some k ∧ k.destroyed = false ∧ chunk ≠ [] ∧ chunk <+: k.inFlight ∧
      s' = { s with conns := s.conns.set c (k.deliver chunk) }.onData c chunk := by
  simp only [step, Option.map_eq_some_iff, onConn_eq_some_iff]
  constructor
  · rintro ⟨t, ⟨k, hk, hallowed, rfl⟩, rfl⟩
    simp only [Bool.and_eq_true, Bool.not_eq_true', List.isPrefixOf_iff_prefix] at hallowed
    exact ⟨k, hk, hallowed.1.1, by simpa using hallowed.1.2, hallowed.2, rfl⟩
  · rintro ⟨k, hk, hlive, hne, hstart, rfl⟩
    exact ⟨_, ⟨k, hk, by simp [hlive, hne, hstart], rfl⟩, rfl⟩

theorem step_hangUp : s.step (.hangUp c) = some s' ↔
    ∃ k, s.conns[c]? = some k ∧ k.ended = true ∧ k.destroyed = false ∧
      s' = { s with conns := s.conns.set c k.destroy } := by
  simp [step, onConn_eq_some_iff, and_assoc]

theorem step_close : s.step (.close c) = some s' ↔
    ∃ k, s.conns[c]? = some k ∧ k.destroyed = true ∧ k.closed = false ∧
      s' = { s with conns := s.conns.set c k.close }.onClose := by
  simp only [step, Option.map_eq_some_iff, onConn_eq_some_iff]
  constructor
  · rintro ⟨t, ⟨k, hk, hallowed, rfl⟩, rfl⟩
    simp only [Bool.and_eq_true, Bool.not_eq_true'] at hallowed
    exact ⟨k, hk, hallowed.1, hallowed.2, rfl⟩
  · rintro ⟨k, hk, hdestroyed, hclosed, rfl⟩
    exact ⟨_, ⟨k, hk, by simp [hdestroyed, hclosed], rfl⟩, rfl⟩

end Inversion

/-- The events that are about commands and their promises. -/
def Event.isCommand : Event → Bool
  | .dispatchCommand _ | .timeout _ | .written _ _ | .setCommandClient => true
  | _ => false

/-- Commands touch neither the connections nor what arrives on them. -/
theorem step_command {s s' : Mt5TcpServer} {e : Event} (he : e.isCommand = true)
    (h : s.step e = some s') :
    s'.conns = s.conns ∧ s'.sock = s.sock ∧ s'.recvBuf = s.recvBuf ∧
      s'.dispatched = s.dispatched := by
  cases e with
  | dispatchCommand id =>
      obtain rfl : s.dispatchCommand id = s' := by simpa [step] using h
      unfold dispatchCommand
      split
      · simp
      · split
        · simp
        · split <;> simp
  | timeout promise =>
      obtain ⟨t, -, rfl⟩ := Option.map_eq_some_iff.mp h
      simp
  | written promise error =>
      obtain ⟨w, -, rfl⟩ := Option.map_eq_some_iff.mp h
      simp
  | setCommandClient =>
      obtain rfl : { s with cmdClient := true } = s' := by simpa [step] using h
      simp
  | _ => simp [Event.isCommand] at he

/-- What an event makes of the connection with a given number. -/
def connAfter (s : Mt5TcpServer) (e : Event) (i : ℕ) (k : Conn) : Conn :=
  match e with
  | .connect | .stop => if s.sock = some i then k.destroy else k
  | .send c bytes => if c = i then k.send bytes else k
  | .finish c => if c = i then k.finish else k
  | .data c chunk => if c = i then k.deliver chunk else k
  | .hangUp c => if c = i then k.destroy else k
  | .close c => if c = i then k.close else k
  | _ => k

/-- The chunks that an event delivers on a connection. -/
def Event.chunksOn (i : ℕ) : Event → List Bytes
  | .data c chunk => if c = i then [chunk] else []
  | _ => []

theorem connAfter_received (s : Mt5TcpServer) (e : Event) (i : ℕ) (k : Conn) :
    (s.connAfter e i k).received = k.received ++ e.chunksOn i := by
  cases e <;> simp only [connAfter, Event.chunksOn, List.append_nil] <;> split <;>
    simp [Conn.send, Conn.finish, Conn.deliver, Conn.destroy, Conn.close]

theorem connAfter_closed (s : Mt5TcpServer) (e : Event) (i : ℕ) (k : Conn) :
    (s.connAfter e i k).closed = (k.closed || decide (e = .close i)) := by
  cases e <;> simp only [connAfter] <;> (try split) <;>
    simp_all [Conn.send, Conn.finish, Conn.deliver, Conn.destroy, Conn.close]

/-- A destroyed socket stays destroyed. -/
theorem connAfter_destroyed (s : Mt5TcpServer) (e : Event) (i : ℕ) {k : Conn}
    (h : k.destroyed = true) : (s.connAfter e i k).destroyed = true := by
  cases e <;> simp only [connAfter] <;> (try split) <;>
    simp [Conn.send, Conn.finish, Conn.deliver, Conn.destroy, Conn.close, h]

theorem getElem?_destroySock (s : Mt5TcpServer) (i : ℕ) :
    s.destroySock.conns[i]? =
      s.conns[i]?.map fun k => if s.sock = some i then k.destroy else k := by
  unfold destroySock
  split
  · next h => simp [h]
  · next c h => simp [h, List.getElem?_modify]

theorem getElem?_set_of_getElem? {s : Mt5TcpServer} {c : ℕ} {k : Conn} (hk : s.conns[c]? = some k)
    (change : Conn → Conn) (i : ℕ) :
    (s.conns.set c (change k))[i]? = s.conns[i]?.map fun k => if c = i then change k else k := by
  rw [List.getElem?_set']
  by_cases hi : c = i
  · subst hi
    simp [hk]
  · simp [hi]

/-- What an event leaves in `this.sock`. -/
def sockAfter (s : Mt5TcpServer) : Event → Option ℕ
  | .connect => some s.conns.length
  | .close _ => none
  | _ => s.sock

/-- **What a step does**, apart from what `onData` does with a chunk: only
`connect` adds a connection, only `connect` and `close` change `this.sock`, only
`connect` and `data` touch the receive buffer, and only `data` passes frames on. -/
structure Effect (s : Mt5TcpServer) (e : Event) (s' : Mt5TcpServer) : Prop where
  conns : ∀ i < s.conns.length, s'.conns[i]? = s.conns[i]?.map (s.connAfter e i)
  length : s'.conns.length = if e = .connect then s.conns.length + 1 else s.conns.length
  sock : s'.sock = s.sockAfter e
  recvBuf : (∀ c chunk, e ≠ .data c chunk) →
    s'.recvBuf = if e = .connect then [] else s.recvBuf
  dispatched : (∀ c chunk, e ≠ .data c chunk) → s'.dispatched = s.dispatched

/-- An event that changes one connection and nothing else. -/
theorem effect_of_set {s : Mt5TcpServer} {e : Event} {c : ℕ} {k : Conn} (change : Conn → Conn)
    (hk : s.conns[c]? = some k)
    (hafter : ∀ i, s.connAfter e i = fun k => if c = i then change k else k)
    (hconnect : e ≠ .connect) (hsock : s.sockAfter e = s.sock) :
    Effect s e { s with conns := s.conns.set c (change k) } where
  conns i _ := by rw [hafter i, ← getElem?_set_of_getElem? hk change i]
  length := by simp [hconnect]
  sock := hsock.symm
  recvBuf _ := by simp [hconnect]
  dispatched _ := rfl

theorem step_effect {s s' : Mt5TcpServer} {e : Event} (h : s.step e = some s') :
    Effect s e s' := by
  cases e with
  | connect =>
      obtain ⟨-, rfl⟩ := step_connect.mp h
      refine ⟨fun i hi => ?_, by simp [handleConnection], rfl, fun _ => rfl, fun _ => rfl⟩
      -- the socket before is destroyed, and the new one comes last
      have hi' : i < s.destroySock.conns.length := by simpa using hi
      simp only [handleConnection, List.getElem?_append_left hi', getElem?_destroySock]
      rfl
  | send c bytes =>
      obtain ⟨k, hk, -, rfl⟩ := step_send.mp h
      exact effect_of_set (e := .send c bytes) (·.send bytes) hk (fun _ => rfl) (by simp) rfl
  | finish c =>
      obtain ⟨k, hk, -, rfl⟩ := step_finish.mp h
      exact effect_of_set (e := .finish c) Conn.finish hk (fun _ => rfl) (by simp) rfl
  | data c chunk =>
      obtain ⟨k, hk, -, -, -, rfl⟩ := step_data.mp h
      refine ⟨fun i _ => ?_, by simp, by simp [sockAfter], fun hno => absurd rfl (hno c chunk),
        fun hno => absurd rfl (hno c chunk)⟩
      rw [onData_conns]
      exact getElem?_set_of_getElem? hk (·.deliver chunk) i
  | hangUp c =>
      obtain ⟨k, hk, -, -, rfl⟩ := step_hangUp.mp h
      exact effect_of_set (e := .hangUp c) Conn.destroy hk (fun _ => rfl) (by simp) rfl
  | close c =>
      obtain ⟨k, hk, -, -, rfl⟩ := step_close.mp h
      exact ⟨fun i _ => getElem?_set_of_getElem? hk Conn.close i, by simp [onClose], rfl,
        fun _ => rfl, fun _ => rfl⟩
  | stop =>
      obtain rfl : s.stop = s' := Option.some.inj h
      exact ⟨fun i _ => getElem?_destroySock s i, destroySock_length s, destroySock_sock s,
        fun _ => destroySock_recvBuf s, fun _ => destroySock_dispatched s⟩
  | _ =>
      obtain ⟨hconns, hsock, hbuf, hdispatched⟩ := step_command rfl h
      refine ⟨fun i _ => ?_, by simp [hconns], hsock, fun _ => by simpa using hbuf,
        fun _ => hdispatched⟩
      rw [hconns]
      exact (congrFun Option.map_id _).symm

/-- The connection that `connect` adds. -/
theorem step_new {s s' : Mt5TcpServer} (h : s.step .connect = some s') :
    s'.conns[s.conns.length]? = some {} := by
  obtain ⟨-, rfl⟩ := step_connect.mp h
  have hlast : (s.destroySock.conns ++ [({} : Conn)])[s.destroySock.conns.length]? = some {} := by
    simp
  rwa [destroySock_length] at hlast

/-- A connection that is there after a step is an old one or the one that
`connect` adds. -/
theorem conn_before {s s' : Mt5TcpServer} {e : Event} (h : s.step e = some s') {i : ℕ} {k' : Conn}
    (hk' : s'.conns[i]? = some k') :
    (∃ k, s.conns[i]? = some k ∧ k' = s.connAfter e i k) ∨
      (e = .connect ∧ i = s.conns.length ∧ k' = {}) := by
  have heffect := step_effect h
  have hi : i < s'.conns.length := (List.getElem?_eq_some_iff.mp hk').1
  by_cases hold : i < s.conns.length
  · rw [heffect.conns i hold] at hk'
    obtain ⟨k, hk, rfl⟩ := Option.map_eq_some_iff.mp hk'
    exact .inl ⟨k, hk, rfl⟩
  · rw [heffect.length] at hi
    split at hi
    · next hconnect =>
        subst hconnect
        obtain rfl : i = s.conns.length := by omega
        exact .inr ⟨rfl, rfl, (Option.some.inj ((step_new h).symm.trans hk')).symm⟩
    · exact absurd hi hold

/-- Bytes in flight can arrive, and what becomes of them. -/
theorem exists_step_data {s : Mt5TcpServer} {c : ℕ} {k : Conn} {chunk : Bytes}
    (hk : s.conns[c]? = some k) (hlive : k.destroyed = false) (hne : chunk ≠ [])
    (hflight : chunk <+: k.inFlight) :
    ∃ s', s.step (.data c chunk) = some s' ∧ s'.conns = s.conns.set c (k.deliver chunk) ∧
      s'.dispatched = s.dispatched ++ parsed c (completeLines (s.buffered chunk)) ∧
      s'.recvBuf = if recvBufMax < utf16Length (openTail (s.buffered chunk)) then []
        else openTail (s.buffered chunk) :=
  ⟨_, step_data.mpr ⟨k, hk, hlive, hne, hflight, rfl⟩, onData_conns _ _ _,
    onData_dispatched _ _ _, onData_recvBuf _ _ _⟩

end Mt5TcpServer

end AkronSlot.Slot
