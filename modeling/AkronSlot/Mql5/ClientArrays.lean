import AkronSlot.Mql5.CommandServer
import AkronSlot.Mql5.JsonField
import AkronSlot.Mql5.Trade
import AkronSlot.Systems.Arrays

/-!
# The client arrays of the command server

`g_cmdClients` and `g_cmdClientBufs` are two arrays, and `CmdClientRemove` shifts
both while the receive loop of `PollCommandServer` counts down over them.  Here the
arrays stand for themselves, and beside them is what the calls of the server did on
each connection; `CommandServer` has the client and its buffer in one place.

What the terminal and the broker are like when a frame is handled is the poll's
matter: it says it for each line of each chunk.

## Arrays and clients

`CommandServer` keeps a client and its buffer in one place, so that removing one cannot mix them
up. `Holds` says that the arrays are such a list, split in two, and `poll_holds` that a poll
keeps it so: the shift of `CmdClientRemove` moves both arrays by the same places, and the loop
counts down, so that what it shifts it has already been at.

## What is owed to a connection

A connection keeps what it has received, the lines that were handled and what was sent. `Served`
relates the three, and it names the poll, the line and the response of every answer: an answer
is not only some text, but what `HandleCommandAndRespond` gave in a poll of this run for that
line.

## Main Definitions

* `ClientArrays`, `PollCalls`, `ClientArrays.pollCommandServer`
* `CmdConn`, `CmdConn.Served` — a connection and what is owed to it

## Main Results

* `ClientArrays.poll_holds` — the arrays are polled as the clients are
* `ClientArrays.served_of_run`
-/

namespace AkronSlot.Mql5

open Wire Wire.Utf8 Systems

/-- A connection that the server has taken on: what `recv` has brought, the frames that were
handled and what `send` was called with. It stays in the list when it is closed, so that a run can
be judged at its end. -/
structure CmdConn where
  sock : ℕ
  received : Bytes := []
  handled : List Text := []
  sent : List Bytes := []
  isOpen : Bool := true

/-- What the calls of one poll report, what the handlers find for a line of the chunk
of a socket, and what lies behind the array of the response to it. -/
structure PollCalls where
  accepted : ℕ → Accepted
  received : ℕ → Received
  terminal : ℕ → ℕ → Terminal
  queries : ℕ → ℕ → QueryHandlers
  codePage : CodePage := asciiPage
  behind : ℕ → ℕ → ℕ → UInt8 := fun _ _ _ => 0

/-- The arrays, and the connections so far, oldest first. -/
structure ClientArrays where
  listening : Bool := true
  cmdClients : List ℕ := []
  cmdClientBufs : List Text := []
  conns : List CmdConn := []

/-- The response to a line of the chunk of a socket. -/
def PollCalls.response (p : PollCalls) (cli : ℕ) (line : Text × ℕ) : Text :=
  (handleCommandAndRespond (p.terminal cli line.2) (p.queries cli line.2) (jsonField line.1)).1

/-- The bytes that `send` is called with for the response to a line. -/
def PollCalls.sent (p : PollCalls) (cli : ℕ) (line : Text × ℕ) : Bytes :=
  sentBytes p.codePage (p.behind cli line.2) (p.response cli line)

/-- What is sent for a line.  An empty response is not. -/
def PollCalls.answer (p : PollCalls) (cli : ℕ) (line : Text × ℕ) : Option Bytes :=
  if p.response cli line = [] then none else some (p.sent cli line)

/-- The answers to the lines of a chunk. -/
def PollCalls.answers (p : PollCalls) (cli : ℕ) (lines : List Text) : List Bytes :=
  lines.zipIdx.filterMap (p.answer cli)

namespace ClientArrays

/-- The open connection on a socket changes. -/
def onConn (s : ClientArrays) (cli : ℕ) (change : CmdConn → CmdConn) : ClientArrays :=
  { s with
    conns := s.conns.map fun k => if k.isOpen && k.sock = cli then change k else k }

/-- `closesocket`. -/
def closesocket (s : ClientArrays) (cli : ℕ) : ClientArrays :=
  s.onConn cli fun k => { k with isOpen := false }

/-- `CmdClientRemove`: both arrays are shifted from the index on and cut by one. An index that is
not in the array changes nothing. -/
def cmdClientRemove (s : ClientArrays) (idx : ℕ) : ClientArrays :=
  let n := s.cmdClients.length
  if n ≤ idx then s
  else
    { s with
      cmdClients := arrayResize (shiftFrom s.cmdClients idx (n - 1 - idx)) (n - 1) 0
      cmdClientBufs := arrayResize (shiftFrom s.cmdClientBufs idx (n - 1 - idx)) (n - 1) [] }

/-- A client is put behind the others. -/
def addClient (s : ClientArrays) (cli : ℕ) : ClientArrays :=
  let idx := s.cmdClients.length
  { s with
    cmdClients := (arrayResize s.cmdClients (idx + 1) 0).set idx cli
    cmdClientBufs := (arrayResize s.cmdClientBufs (idx + 1) []).set idx []
    conns := s.conns ++ [{ sock := cli }] }

/-- A socket that `accept` reports: it is closed when there are clients enough. -/
def takeClient (s : ClientArrays) (cli : ℕ) : ClientArrays :=
  if maxCmdClients ≤ s.cmdClients.length then s.closesocket cli else s.addClient cli

/-- The accept loop, from its `i`-th round on; `n` rounds are left. -/
def acceptLoop (p : PollCalls) : ℕ → ℕ → ClientArrays → ClientArrays
  | 0, _, s => s
  | n + 1, i, s =>
      match p.accepted i with
      | .error _ => s
      | .client cli => acceptLoop p n (i + 1) (s.takeClient cli)

/-- `accept` reports no socket that is open. -/
def fresh (p : PollCalls) : ℕ → ℕ → ClientArrays → Bool
  | 0, _, _ => true
  | n + 1, i, s =>
      match p.accepted i with
      | .error _ => true
      | .client cli => !s.cmdClients.contains cli && fresh p n (i + 1) (s.takeClient cli)

/-- The clients of a poll are accepted. -/
def accept (s : ClientArrays) (p : PollCalls) : ClientArrays := acceptLoop p maxCmdClients 0 s

/-- The socket of a client is closed and the client removed. -/
def dropClient (s : ClientArrays) (i cli : ℕ) : ClientArrays :=
  (s.closesocket cli).cmdClientRemove i

/-- The receive loop from `n == 0` on. -/
def receiveBytes (p : PollCalls) (s : ClientArrays) (i cli : ℕ) (chunk : Bytes) : ClientArrays :=
  if chunk = [] then s.dropClient i cli
  else
    match s.cmdClientBufs[i]? with
    | none => s
    | some buf =>
        let text := buf ++ decode chunk
        let s' :=
          { s with cmdClientBufs := s.cmdClientBufs.set i (openTail text) }.onConn cli fun k =>
            { k with
              received := k.received ++ chunk
              handled := k.handled ++ completeLines text
              sent := k.sent ++ p.answers cli (completeLines text) }
        if recvBufMax < utf16Length (openTail text) then s'.dropClient i cli else s'

/-- One round of the receive loop. A chunk is taken only when `recv` reports bytes; a peer that
has closed and an error other than the two that only say that nothing is there drop the client. -/
def receive (p : PollCalls) (s : ClientArrays) (i : ℕ) : ClientArrays :=
  match s.cmdClients[i]? with
  | none => s
  | some cli =>
      match p.received cli with
      | .error code => if wouldBlock code then s.receiveBytes p i cli [] else s.dropClient i cli
      | .bytes chunk => s.receiveBytes p i cli chunk

/-- The receive loop, downwards from the client before the `n`-th. -/
def receiveLoop (p : PollCalls) : ℕ → ClientArrays → ClientArrays
  | 0, s => s
  | n + 1, s => receiveLoop p n (s.receive p n)

/-- `PollCommandServer`. -/
def pollCommandServer (s : ClientArrays) (p : PollCalls) : ClientArrays :=
  if s.listening then receiveLoop p (s.accept p).cmdClients.length (s.accept p) else s

/-- A poll. The system does not give out a socket that is open, so a poll in which `accept`
reports one cannot happen. -/
def step (s : ClientArrays) (p : PollCalls) : Option ClientArrays :=
  if fresh p maxCmdClients 0 s then some (s.pollCommandServer p) else none

/-! ## The arrays and the clients -/

/-- The arrays hold these clients, each at one place of both. The order is that of the index,
which a removal keeps. -/
structure Holds (s : ClientArrays) (cs : List Client) : Prop where
  socks : s.cmdClients = cs.map Client.sock
  bufs : s.cmdClientBufs = cs.map Client.buf

theorem Holds.lengths {s : ClientArrays} {cs : List Client} (h : Holds s cs) :
    s.cmdClients.length = cs.length ∧ s.cmdClientBufs.length = cs.length := by
  rw [h.socks, h.bufs, List.length_map, List.length_map]
  exact ⟨rfl, rfl⟩

@[simp] theorem onConn_holds {s : ClientArrays} {cli : ℕ} {change : CmdConn → CmdConn}
    {cs : List Client} : Holds (s.onConn cli change) cs ↔ Holds s cs :=
  ⟨fun h => ⟨h.socks, h.bufs⟩, fun h => ⟨h.socks, h.bufs⟩⟩

/-- **`CmdClientRemove` removes a client from both arrays.** -/
theorem cmdClientRemove_holds {s : ClientArrays} {front rest : List Client} {c : Client}
    (h : Holds s (front ++ c :: rest)) :
    Holds (s.cmdClientRemove front.length) (front ++ rest) := by
  have hlength := h.lengths.1
  have hone : ∀ {α : Type} (f : Client → α) (fill : α),
      arrayResize (shiftFrom ((front ++ c :: rest).map f) front.length rest.length)
        (front ++ rest).length fill = (front ++ rest).map f := by
    intro α f fill
    have htake := take_shiftFrom (front.map f) (f c) (rest.map f)
    simp only [List.length_map, ← List.map_append, ← List.map_cons] at htake
    rw [arrayResize_le (by rw [length_shiftFrom]; simp), htake]
  have hrounds : (front ++ c :: rest).length - 1 - front.length = rest.length := by
    simp only [List.length_append, List.length_cons]
    omega
  have hless : (front ++ c :: rest).length - 1 = (front ++ rest).length := by
    simp only [List.length_append, List.length_cons]
    omega
  have hinside : ¬ (front ++ c :: rest).length ≤ front.length := by
    simp only [List.length_append, List.length_cons]
    omega
  unfold cmdClientRemove
  dsimp only
  rw [hlength, if_neg hinside, hrounds, hless, h.socks, h.bufs]
  exact ⟨hone Client.sock 0, hone Client.buf []⟩

theorem addClient_holds {s : ClientArrays} {cs : List Client} (h : Holds s cs) (cli : ℕ) :
    Holds (s.addClient cli) (cs ++ [{ sock := cli }]) := by
  have hbufs : s.cmdClients.length = s.cmdClientBufs.length := h.lengths.1.trans h.lengths.2.symm
  constructor
  · show (arrayResize s.cmdClients (s.cmdClients.length + 1) 0).set s.cmdClients.length cli = _
    rw [set_arrayResize, h.socks, List.map_append]
    rfl
  · show (arrayResize s.cmdClientBufs (s.cmdClients.length + 1) []).set s.cmdClients.length [] = _
    rw [hbufs, set_arrayResize, h.bufs, List.map_append]
    rfl

/-! ## A round of the receive loop -/

end ClientArrays

/-- A poll as `CommandServer` sees it; what is sent plays no part there. -/
def PollCalls.toPoll (p : PollCalls) : Poll where
  accepted := p.accepted
  received := p.received
  respond _ := []

/-- What a round makes of the connection of its client. -/
def PollCalls.serve (p : PollCalls) (c : Client) (k : CmdConn) : CmdConn :=
  match p.received c.sock with
  | .error _ => { k with isOpen := false }
  | .bytes chunk =>
      if chunk = [] then { k with isOpen := false }
      else
        { k with
          received := k.received ++ chunk
          handled := k.handled ++ completeLines (CommandServer.buffered c chunk)
          sent := k.sent ++ p.answers c.sock (completeLines (CommandServer.buffered c chunk))
          isOpen := k.isOpen && decide
            (utf16Length (openTail (CommandServer.buffered c chunk)) ≤ recvBufMax) }

namespace ClientArrays

/-- Two changes of one connection. -/
theorem onConn_onConn (s : ClientArrays) (cli : ℕ) {f g : CmdConn → CmdConn}
    (hf : ∀ k, (f k).isOpen = k.isOpen ∧ (f k).sock = k.sock) :
    ((s.onConn cli f).onConn cli g).conns = (s.onConn cli (g ∘ f)).conns := by
  simp only [onConn, List.map_map]
  refine List.map_congr_left fun k _ => ?_
  by_cases hk : k.isOpen = true ∧ k.sock = cli
  · simp [hk, hf k]
  · simp [hk]

theorem cmdClientRemove_conns (s : ClientArrays) (i : ℕ) :
    (s.cmdClientRemove i).conns = s.conns := by
  unfold cmdClientRemove
  dsimp only
  split <;> rfl

/-- **One round**: the client at its place, and no other, is what `after` makes of it,
and its connection what `serve` makes of it. -/
theorem receive_holds (p : PollCalls) {s : ClientArrays} {front rest : List Client} {c : Client}
    (h : Holds s (front ++ c :: rest)) :
    Holds (s.receive p front.length)
        (front ++ ((CommandServer.after p.toPoll c).toList ++ rest)) ∧
      (s.receive p front.length).conns = (s.onConn c.sock (p.serve c)).conns := by
  have hsock : s.cmdClients[front.length]? = some c.sock := by simp [h.socks]
  have hbuf : s.cmdClientBufs[front.length]? = some c.buf := by simp [h.bufs]
  have hclosed : Holds (s.dropClient front.length c.sock) (front ++ rest) :=
    cmdClientRemove_holds (onConn_holds.mpr h)
  have hclosedConns : (s.dropClient front.length c.sock).conns =
      (s.onConn c.sock fun k => { k with isOpen := false }).conns :=
    cmdClientRemove_conns _ _
  have hreceived : p.toPoll.received c.sock = p.received c.sock := rfl
  unfold receive CommandServer.after PollCalls.serve
  rw [hsock, hreceived]
  dsimp only
  cases p.received c.sock with
  | error code =>
      dsimp only
      split
      · rw [receiveBytes, if_pos rfl]
        exact ⟨hclosed, hclosedConns⟩
      · exact ⟨hclosed, hclosedConns⟩
  | bytes chunk =>
      unfold receiveBytes
      rw [hbuf]
      dsimp only
      by_cases hnil : chunk = []
      · simp only [hnil, if_true, true_or]
        exact ⟨hclosed, hclosedConns⟩
      · have hset : Holds { s with
            cmdClientBufs := s.cmdClientBufs.set front.length
              (openTail (c.buf ++ decode chunk)) }
            (front ++ { c with buf := openTail (c.buf ++ decode chunk) } :: rest) := by
          refine ⟨by simp [h.socks], ?_⟩
          show s.cmdClientBufs.set front.length _ = _
          rw [h.bufs, List.map_append, List.map_cons, ← List.length_map (f := Client.buf),
            List.set_append_right _ _ le_rfl]
          simp
        by_cases hlong : recvBufMax < utf16Length (openTail (CommandServer.buffered c chunk))
        · have hlong' : recvBufMax < utf16Length (openTail (c.buf ++ decode chunk)) := hlong
          simp only [hnil, hlong, hlong', if_true, if_false, or_true]
          refine ⟨cmdClientRemove_holds (onConn_holds.mpr (onConn_holds.mpr hset)), ?_⟩
          rw [dropClient, cmdClientRemove_conns, closesocket, onConn_onConn]
          · have hshort : ¬ utf16Length (openTail (CommandServer.buffered c chunk)) ≤ recvBufMax :=
              not_le.mpr hlong
            simp only [hshort, decide_false, Bool.and_false]
            rfl
          · exact fun k => ⟨rfl, rfl⟩
        · have hlong' : ¬ recvBufMax < utf16Length (openTail (c.buf ++ decode chunk)) := hlong
          have hshort : utf16Length (openTail (CommandServer.buffered c chunk)) ≤ recvBufMax :=
            not_lt.mp hlong
          simp only [hnil, hlong, hlong', if_false, or_self]
          refine ⟨onConn_holds.mpr hset, ?_⟩
          simp only [hshort, decide_true, Bool.and_true]
          rfl

/-- **The receive loop** leaves of the clients what `after` makes of them. -/
theorem receiveLoop_holds (p : PollCalls) {front rest : List Client} {s : ClientArrays}
    (h : Holds s (front ++ rest)) :
    Holds (receiveLoop p front.length s)
      (front.filterMap (CommandServer.after p.toPoll) ++ rest) := by
  induction front using List.reverseRecOn generalizing s rest with
  | nil => exact h
  | append_singleton front c ih =>
      rw [List.append_assoc, List.singleton_append] at h
      have hround := ih (receive_holds p h).1
      rw [List.length_append, List.length_singleton, List.filterMap_append, List.append_assoc]
      cases hc : CommandServer.after p.toPoll c <;> simpa [hc, receiveLoop] using hround

theorem acceptLoop_holds (p : PollCalls) (n i : ℕ) {s : ClientArrays} {t : CommandServer}
    (h : Holds s t.clients) :
    Holds (acceptLoop p n i s) (CommandServer.acceptLoop p.toPoll n i t).clients := by
  induction n generalizing i s t with
  | zero => exact h
  | succ n ih =>
      have haccepted : p.toPoll.accepted i = p.accepted i := rfl
      unfold acceptLoop CommandServer.acceptLoop
      rw [haccepted]
      cases p.accepted i with
      | error code => exact h
      | client cli =>
          dsimp only
          unfold takeClient
          rw [h.lengths.1]
          split
          · exact ih (i + 1) (t := t.closesocket cli) (onConn_holds.mpr h)
          · exact ih (i + 1) (addClient_holds h cli)

/-- **The arrays are polled as the clients are.** -/
theorem poll_holds {s : ClientArrays} {t : CommandServer} (h : Holds s t.clients)
    (hlistening : s.listening = t.listening) (p : PollCalls) :
    Holds (s.pollCommandServer p) (t.pollCommandServer p.toPoll).clients := by
  cases ht : t.listening with
  | false => simpa [pollCommandServer, CommandServer.pollCommandServer, hlistening, ht] using h
  | true =>
      have haccepted : Holds (s.accept p) (t.accept p.toPoll).clients :=
        acceptLoop_holds p maxCmdClients 0 h
      have hloop := @receiveLoop_holds p (t.accept p.toPoll).clients [] (s.accept p)
        (by rwa [List.append_nil])
      rw [List.append_nil] at hloop
      rw [(CommandServer.pollCommandServer_eq ht).1, pollCommandServer, hlistening, ht, if_pos rfl,
        haccepted.lengths.1]
      exact hloop

/-! ## What a client is owed -/

end ClientArrays

/-- The bytes answer a frame on a socket: they are what `send` is called with for the response
that `HandleCommandAndRespond` gives in one of these polls, where the frame is some line of the
chunk. The terminal and the queries are those of the poll at that line, and no others. -/
def Answered (ps : List PollCalls) (cli : ℕ) (frame : Text) (bytes : Bytes) : Prop :=
  ∃ p ∈ ps, ∃ n, bytes = p.sent cli (frame, n)

/-- The frames that were handled are the complete lines of what was received, and
each has one answer, given in one of the polls and sent to the same socket. -/
structure CmdConn.Served (ps : List PollCalls) (k : CmdConn) : Prop where
  handled : k.handled = completeLines (decode k.received)
  answered : List.Forall₂ (Answered ps k.sock) k.handled k.sent

/-- The client of a connection: its socket and the line that is not over. -/
def CmdConn.client (k : CmdConn) : Client := ⟨k.sock, openTail (decode k.received)⟩

/-- The bytes are ASCII. -/
def AsciiBytes (bs : Bytes) : Prop := ∀ b ∈ bs, b.toNat < 0x80

/-- Every `recv` brings ASCII bytes. -/
def PollCalls.Ascii (p : PollCalls) : Prop :=
  ∀ sock chunk, p.received sock = .bytes chunk → AsciiBytes chunk

theorem whole_of_ascii {bs : Bytes} (h : AsciiBytes bs) : Whole bs := by
  induction bs with
  | nil => rfl
  | cons b bs ih =>
      obtain ⟨hb, hrest⟩ := List.forall_mem_cons.mp h
      have hfeed : (feed none b).2 = none := by
        show (start b).2 = none
        rw [start, if_pos hb]
      show (scan (feed none b).2 bs).2 = none
      rw [hfeed]
      exact ih hrest

/-- A response is never empty. -/
theorem PollCalls.response_ne_nil (p : PollCalls) (cli : ℕ) (line : Text × ℕ) :
    p.response cli line ≠ [] :=
  List.append_ne_nil_of_right_ne_nil _ (by decide)

theorem PollCalls.answer_eq (p : PollCalls) (cli : ℕ) (line : Text × ℕ) :
    p.answer cli line = some (p.sent cli line) :=
  if_neg (p.response_ne_nil cli line)

/-- **Every line of a chunk has one answer.** -/
theorem PollCalls.answers_forall₂ {ps : List PollCalls} {p : PollCalls} (hp : p ∈ ps) (cli : ℕ)
    (lines : List Text) : List.Forall₂ (Answered ps cli) lines (p.answers cli lines) := by
  have hall : ∀ n, List.Forall₂ (Answered ps cli) lines
      ((lines.zipIdx n).filterMap (p.answer cli)) := by
    induction lines with
    | nil => exact fun n => .nil
    | cons line lines ih =>
        intro n
        rw [List.zipIdx_cons, List.filterMap_cons_some (p.answer_eq cli (line, n))]
        exact .cons ⟨p, hp, n, rfl⟩ (ih (n + 1))
  exact hall 0

namespace CmdConn

variable {ps : List PollCalls} {p : PollCalls} {k : CmdConn}

theorem serve_sock (c : Client) : (p.serve c k).sock = k.sock := by
  unfold PollCalls.serve
  split
  · rfl
  · split <;> rfl

theorem serve_ascii (hp : p.Ascii) (hk : AsciiBytes k.received) (c : Client) :
    AsciiBytes (p.serve c k).received := by
  unfold PollCalls.serve
  split
  · exact hk
  · next chunk hchunk =>
      split
      · exact hk
      · intro b hb
        rcases List.mem_append.mp hb with hb | hb
        · exact hk b hb
        · exact hp _ _ hchunk b hb

theorem buffered_client (hk : AsciiBytes k.received) (chunk : Bytes) :
    completeLines (decode (k.received ++ chunk)) =
        completeLines (decode k.received) ++
          completeLines (CommandServer.buffered k.client chunk) ∧
      openTail (decode (k.received ++ chunk)) =
        openTail (CommandServer.buffered k.client chunk) := by
  rw [decode_append (whole_of_ascii hk)]
  exact ⟨completeLines_append _ _, openTail_append _ _⟩

/-- **A round serves its client**: the complete lines of its chunk are handled and
answered. -/
theorem served_serve (hp : p ∈ ps) (hk : AsciiBytes k.received) (h : Served ps k) :
    Served ps (p.serve k.client k) := by
  unfold PollCalls.serve
  split
  · exact ⟨h.handled, h.answered⟩
  · next chunk hchunk =>
      split
      · exact ⟨h.handled, h.answered⟩
      · refine ⟨?_, List.rel_append h.answered (PollCalls.answers_forall₂ hp _ _)⟩
        show k.handled ++ _ = completeLines (decode (k.received ++ chunk))
        rw [(buffered_client hk chunk).1, h.handled]

/-- What is left of the connection is what is left of the client. -/
theorem client_serve (hk : AsciiBytes k.received) (hopen : k.isOpen = true) :
    ([p.serve k.client k].filter (·.isOpen)).map client =
      (CommandServer.after p.toPoll k.client).toList := by
  have hreceived : p.toPoll.received k.client.sock = p.received k.client.sock := rfl
  unfold PollCalls.serve CommandServer.after
  rw [hreceived]
  cases p.received k.client.sock with
  | error code => rfl
  | bytes chunk =>
      dsimp only
      by_cases hnil : chunk = []
      · simp [hnil]
      · by_cases hlong : recvBufMax <
            utf16Length (openTail (CommandServer.buffered k.client chunk))
        · simp [hnil, hlong, not_le.mpr hlong]
        · have hkept : (k.isOpen && decide (utf16Length
              (openTail (CommandServer.buffered k.client chunk)) ≤ recvBufMax)) = true := by
            simp [hopen, not_lt.mp hlong]
          rw [if_neg hnil, if_neg (by simp [hnil, hlong])]
          simp only [List.filter_singleton, hkept, cond_true, List.map_singleton,
            Option.toList_some]
          show [(⟨k.sock, openTail (decode (k.received ++ chunk))⟩ : Client)] = _
          rw [(buffered_client hk chunk).2]
          rfl

end CmdConn

/-! ## Runs -/

namespace ClientArrays

/-- What holds between two polls: the arrays hold the open connections, in the order
of their accepts, and every connection is served.  Every connection has been served by
some of the polls `ps`, which are those of the whole run. -/
structure Kept (ps : List PollCalls) (s : ClientArrays) : Prop where
  arrays : Holds s ((s.conns.filter (·.isOpen)).map CmdConn.client)
  few : s.cmdClients.length ≤ maxCmdClients
  distinct : s.cmdClients.Nodup
  served : ∀ k ∈ s.conns, k.Served ps
  ascii : ∀ k ∈ s.conns, AsciiBytes k.received

/-- The open connections after a change of one of them. -/
theorem filter_onConn (s : ClientArrays) (cli : ℕ) (change : CmdConn → CmdConn) :
    (s.onConn cli change).conns.filter (·.isOpen) =
      ((s.conns.filter (·.isOpen)).map fun k => if k.sock = cli then change k else k).filter
        (·.isOpen) := by
  simp only [onConn, Bool.and_eq_true, decide_eq_true_eq]
  induction s.conns with
  | nil => rfl
  | cons k conns ih =>
      cases hk : k.isOpen with
      | false => simpa [hk] using ih
      | true => by_cases hsock : k.sock = cli <;> simp [hk, hsock, List.filter_cons, ih]

section Round

variable {ps : List PollCalls} {s : ClientArrays} {front rest : List CmdConn} {k : CmdConn}

/-- The open connection of the client at a place. -/
theorem Kept.split (h : Kept ps s) {n : ℕ} (hn : n < s.cmdClients.length) :
    ∃ front k rest, s.conns.filter (·.isOpen) = front ++ k :: rest ∧ front.length = n := by
  have hlength : n < (s.conns.filter (·.isOpen)).length := by
    rw [h.arrays.lengths.1, List.length_map] at hn
    exact hn
  have hsplit := (List.take_append_drop n (s.conns.filter (·.isOpen))).symm
  rw [List.drop_eq_getElem_cons hlength] at hsplit
  exact ⟨_, _, _, hsplit, List.length_take_of_le hlength.le⟩

/-- The other clients have other sockets. -/
theorem Kept.sock_ne (h : Kept ps s) (hopen : s.conns.filter (·.isOpen) = front ++ k :: rest) :
    ∀ k' ∈ front ++ rest, k'.sock ≠ k.sock := by
  have hdistinct := h.distinct
  rw [h.arrays.socks, hopen, List.map_append, List.map_cons, List.map_append, List.map_cons,
    List.nodup_middle] at hdistinct
  intro k' hk' heq
  refine (List.nodup_cons.mp hdistinct).1 ?_
  rw [← List.map_append, ← List.map_append, List.map_map]
  exact List.mem_map.mpr ⟨k', hk', heq⟩

theorem Kept.eq_of_sock (h : Kept ps s) (hopen : s.conns.filter (·.isOpen) = front ++ k :: rest)
    {k' : CmdConn} (hk' : k' ∈ s.conns) (hlive : k'.isOpen = true) (hsock : k'.sock = k.sock) :
    k' = k := by
  have hin : k' ∈ front ++ k :: rest := hopen ▸ List.mem_filter.mpr ⟨hk', hlive⟩
  rcases List.mem_append.mp hin with hin | hin
  · exact absurd hsock (h.sock_ne hopen k' (List.mem_append_left _ hin))
  · rcases List.mem_cons.mp hin with rfl | hin
    · rfl
    · exact absurd hsock (h.sock_ne hopen k' (List.mem_append_right _ hin))

/-- A change of the connection leaves the others open in their order. -/
theorem Kept.filter_onConn (h : Kept ps s)
    (hopen : s.conns.filter (·.isOpen) = front ++ k :: rest) (change : CmdConn → CmdConn) :
    (s.onConn k.sock change).conns.filter (·.isOpen) =
      front ++ ([change k].filter (·.isOpen) ++ rest) := by
  have hother : ∀ k' ∈ front ++ rest, (if k'.sock = k.sock then change k' else k') = k' :=
    fun k' hk' => if_neg (h.sock_ne hopen k' hk')
  have hall : ∀ k' ∈ front ++ k :: rest, k'.isOpen = true := fun k' hk' =>
    (List.mem_filter.mp (hopen ▸ hk' : k' ∈ s.conns.filter (·.isOpen))).2
  simp only [List.forall_mem_append, List.forall_mem_cons] at hother hall
  rw [ClientArrays.filter_onConn, hopen, List.map_append, List.map_cons, if_pos rfl,
    List.map_congr_left hother.1, List.map_congr_left hother.2, List.map_id', List.map_id',
    List.filter_append, ← List.singleton_append (l := rest), List.filter_append,
    List.filter_eq_self.mpr hall.1, List.filter_eq_self.mpr hall.2.2]

/-- What is changed is the connection alone. -/
theorem Kept.mem_onConn (h : Kept ps s) (hopen : s.conns.filter (·.isOpen) = front ++ k :: rest)
    (change : CmdConn → CmdConn) {k' : CmdConn} (hk' : k' ∈ (s.onConn k.sock change).conns) :
    k' ∈ s.conns ∨ k' = change k := by
  obtain ⟨k₀, hk₀, rfl⟩ := List.mem_map.mp hk'
  split
  · next hmatch =>
      simp only [Bool.and_eq_true, decide_eq_true_eq] at hmatch
      rw [h.eq_of_sock hopen hk₀ hmatch.1 hmatch.2]
      exact .inr rfl
  · exact .inl hk₀

/-- **The step lemma for a round.** -/
theorem receive_kept {p : PollCalls} (hp : p.Ascii) (hps : p ∈ ps) (h : Kept ps s) {n : ℕ}
    (hn : n < s.cmdClients.length) :
    Kept ps (s.receive p n) ∧ n ≤ (s.receive p n).cmdClients.length := by
  obtain ⟨front, k, rest, hopen, rfl⟩ := h.split hn
  have hmem : k ∈ s.conns ∧ k.isOpen = true :=
    List.mem_filter.mp (hopen ▸ List.mem_append_right _ List.mem_cons_self)
  have harrays := h.arrays
  rw [hopen, List.map_append, List.map_cons] at harrays
  obtain ⟨hholds, hconns⟩ := receive_holds p harrays
  rw [List.length_map] at hholds hconns
  change _ = (s.onConn k.sock (p.serve k.client)).conns at hconns
  have hchanged : ∀ k' ∈ (s.receive p front.length).conns,
      k' ∈ s.conns ∨ k' = p.serve k.client k := by
    rw [hconns]
    exact fun k' hk' => h.mem_onConn hopen _ hk'
  -- the round drops the client at its place, or leaves it there
  have hsocks : ((CommandServer.after p.toPoll k.client).toList.map Client.sock).Sublist
      [k.client.sock] := by
    cases hc : CommandServer.after p.toPoll k.client with
    | none => exact List.nil_sublist _
    | some c' => simp [CommandServer.after_sock hc]
  have hsub : (s.receive p front.length).cmdClients.Sublist s.cmdClients := by
    rw [hholds.socks, harrays.socks, List.map_append, List.map_append, List.map_append,
      List.map_cons, ← List.singleton_append (x := k.client.sock)]
    exact (List.Sublist.refl _).append (hsocks.append (List.Sublist.refl _))
  refine ⟨⟨?_, hsub.length_le.trans h.few, hsub.nodup h.distinct, ?_, ?_⟩, ?_⟩
  · rw [hconns, h.filter_onConn hopen, List.map_append, List.map_append,
      CmdConn.client_serve (h.ascii k hmem.1) hmem.2]
    exact hholds
  · intro k' hk'
    rcases hchanged k' hk' with hk' | rfl
    · exact h.served k' hk'
    · exact CmdConn.served_serve hps (h.ascii k hmem.1) (h.served k hmem.1)
  · intro k' hk'
    rcases hchanged k' hk' with hk' | rfl
    · exact h.ascii k' hk'
    · exact CmdConn.serve_ascii hp (h.ascii k hmem.1) _
  · rw [hholds.lengths.1, List.length_append, List.length_map]
    exact Nat.le_add_right _ _

end Round

/-- The receive loop, from any of its rounds on. -/
theorem receiveLoop_kept {ps : List PollCalls} {p : PollCalls} (hp : p.Ascii) (hps : p ∈ ps)
    (n : ℕ) {s : ClientArrays} (h : Kept ps s) (hn : n ≤ s.cmdClients.length) :
    Kept ps (receiveLoop p n s) := by
  induction n generalizing s with
  | zero => exact h
  | succ n ih =>
      obtain ⟨hround, hleft⟩ := receive_kept hp hps h (n := n) hn
      exact ih hround hleft

/-- A socket that is not open is taken, or closed again. -/
theorem takeClient_kept {ps : List PollCalls} {s : ClientArrays} {cli : ℕ} (h : Kept ps s)
    (hcli : cli ∉ s.cmdClients) : Kept ps (s.takeClient cli) := by
  unfold takeClient
  split
  · -- no open connection is on this socket
    have hsame : s.closesocket cli = s := by
      have hconns : (s.closesocket cli).conns = s.conns := by
        refine (List.map_congr_left fun k hk => if_neg ?_).trans (List.map_id _)
        simp only [Bool.and_eq_true, decide_eq_true_eq, not_and]
        rintro hlive rfl
        refine hcli ?_
        rw [h.arrays.socks, List.map_map]
        exact List.mem_map.mpr ⟨k, List.mem_filter.mpr ⟨hk, hlive⟩, rfl⟩
      cases s
      exact congrArg (ClientArrays.mk _ _ _) hconns
    rwa [hsame]
  · next hroom =>
      have hholds := addClient_holds h.arrays cli
      have hconns : (s.addClient cli).conns = s.conns ++ [{ sock := cli }] := rfl
      have hsocks : (s.addClient cli).cmdClients = s.cmdClients ++ [cli] :=
        set_arrayResize _ _ _
      refine ⟨?_, ?_, ?_, ?_, ?_⟩
      · rw [hconns, List.filter_append, List.map_append]
        exact hholds
      · rw [hsocks, List.length_append, List.length_singleton]
        omega
      · rw [hsocks]
        exact List.nodup_append_comm.mp (List.nodup_cons.mpr ⟨hcli, h.distinct⟩)
      · rw [hconns, List.forall_mem_append, List.forall_mem_singleton]
        exact ⟨h.served, ⟨rfl, .nil⟩⟩
      · rw [hconns, List.forall_mem_append, List.forall_mem_singleton]
        exact ⟨h.ascii, fun b hb => absurd hb List.not_mem_nil⟩

theorem acceptLoop_kept {ps : List PollCalls} {p : PollCalls} (n i : ℕ) {s : ClientArrays}
    (h : Kept ps s) (hfresh : fresh p n i s = true) : Kept ps (acceptLoop p n i s) := by
  induction n generalizing i s with
  | zero => exact h
  | succ n ih =>
      unfold fresh at hfresh
      unfold acceptLoop
      cases hi : p.accepted i with
      | error code => exact h
      | client cli =>
          simp only [hi, Bool.and_eq_true, Bool.not_eq_true', List.contains_eq_mem,
            decide_eq_false_iff_not] at hfresh
          exact ih (i + 1) (takeClient_kept h hfresh.1) hfresh.2

/-- **The step lemma for a poll.** -/
theorem step_kept {ps : List PollCalls} {s s' : ClientArrays} {p : PollCalls} (hp : p.Ascii)
    (hps : p ∈ ps) (h : Kept ps s) (hstep : s.step p = some s') : Kept ps s' := by
  obtain ⟨hfresh, hs'⟩ := Option.ite_none_right_eq_some.mp hstep
  obtain rfl := Option.some.inj hs'
  unfold pollCommandServer
  split
  · exact receiveLoop_kept hp hps _ (acceptLoop_kept _ _ h hfresh) le_rfl
  · exact h

theorem kept_start (ps : List PollCalls) : Kept ps {} where
  arrays := ⟨rfl, rfl⟩
  few := Nat.zero_le _
  distinct := List.nodup_nil
  served _ hk := absurd hk List.not_mem_nil
  ascii _ hk := absurd hk List.not_mem_nil

/-- **After every run** the arrays are of one length, at most `MAX_CMD_CLIENTS`, and of
every client, until it was removed, the frames that were handled are the complete lines
of the bytes received on its socket, each with one answer on that socket.  The arrays
have the clients that are left, each with its own line that is not over. -/
theorem served_of_run {ps : List PollCalls} {s : ClientArrays} (hascii : ∀ p ∈ ps, p.Ascii)
    (hrun : run step {} ps = some s) :
    s.cmdClients.length = s.cmdClientBufs.length ∧ s.cmdClients.length ≤ maxCmdClients ∧
      (∀ k ∈ s.conns, k.Served ps) ∧
      s.cmdClients.zip s.cmdClientBufs =
        (s.conns.filter (·.isOpen)).map fun k => (k.sock, openTail (decode k.received)) := by
  have hcond : ∀ p ∈ ps, p.Ascii ∧ p ∈ ps := fun p hp => ⟨hascii p hp, hp⟩
  have h : Kept ps s :=
    @run_along_invariant _ _ _ (fun _ p => p.Ascii ∧ p ∈ ps) (Kept ps)
      (fun _ _ _ hs hp hstep => step_kept hp.1 hp.2 hs hstep) _ _ _ (kept_start ps)
      (along_of_forall hcond _) hrun
  have hlengths := h.arrays.lengths
  refine ⟨hlengths.1.trans hlengths.2.symm, h.few, h.served, ?_⟩
  rw [h.arrays.socks, h.arrays.bufs, List.zip_map', List.map_map]
  rfl

/-- A poll that brings results for the sockets 7 and 8, with a terminal that refuses
every request and answers no query. -/
def pairCalls (new : List ℕ) (first second : Received) : PollCalls where
  accepted i := (new[i]?.map Accepted.client).getD (.error 10035)
  received sock := if sock = 7 then first else second
  terminal _ _ :=
    { positions := []
      nodup_tickets := List.nodup_nil
      ticket_pos := Terminal.no_ticket_pos
      ticket_lt := Terminal.no_ticket_lt
      orderSend := fun _ => (false, ⟨0, 0, []⟩) }
  queries _ _ := ⟨fun _ => [], fun _ => [], fun _ => [], fun _ => [], fun _ => [], fun _ => [],
    fun _ => []⟩

theorem pairCalls_ascii (new : List ℕ) {first second : Bytes} (hfirst : AsciiBytes first)
    (hsecond : AsciiBytes second) : (pairCalls new (.bytes first) (.bytes second)).Ascii := by
  intro sock chunk h
  simp only [pairCalls] at h
  split at h
  · exact Received.bytes.inj h ▸ hfirst
  · exact Received.bytes.inj h ▸ hsecond

/-- The first client goes while the second one is in the middle of a line. -/
def pairRun : List PollCalls :=
  [pairCalls [7, 8] (.bytes [97]) (.bytes [98, 10, 99]), pairCalls [] (.bytes []) (.bytes [10])]

/-- The second client is served as if it had been alone. -/
theorem pair_served : ∃ s, run step {} pairRun = some s ∧
    s.cmdClients.length = s.cmdClientBufs.length ∧ s.cmdClients.length ≤ maxCmdClients ∧
      (∀ k ∈ s.conns, k.Served pairRun) ∧
      s.cmdClients.zip s.cmdClientBufs =
        (s.conns.filter (·.isOpen)).map fun k => (k.sock, openTail (decode k.received)) := by
  have hsome : (run step {} pairRun).isSome = true := by decide +kernel
  obtain ⟨s, hrun⟩ := Option.isSome_iff_exists.mp hsome
  refine ⟨s, hrun, served_of_run ?_ hrun⟩
  rw [pairRun, List.forall_mem_cons, List.forall_mem_singleton]
  exact ⟨pairCalls_ascii _ (by simp [AsciiBytes]) (by simp [AsciiBytes]),
    pairCalls_ascii _ (by simp [AsciiBytes]) (by simp [AsciiBytes])⟩

end ClientArrays

end AkronSlot.Mql5
