import AkronSlot.Mql5.CharArrays
import AkronSlot.Systems.Runs

/-!
# The command server of SlotService

`PollCommandServer` with `CmdClientRemove`: the clients of the command port, the
sockets it has closed and the bytes it has sent.  What the calls of one poll report
is the event: a result for every `accept`, and for every client the result of its
one `recv`.  A client is known by its socket; a poll in which `accept` reports a
socket that an open client has cannot happen.

What `send` is called with for a response is `sentBytes`.  It depends on the code page
of the system and on the memory behind the array of the response, which are data of the
poll like the results of the calls: of neither does the server know anything.

## One poll

The accept loop comes first and the receive loop after it, downwards. Because a removal only
moves clients that the loop has already been at, the clients before the index are as they were;
`receiveLoop_clients` is the induction that uses this, and everything after it speaks of single
clients.

`recv` that only says that nothing is there sets `n` to zero, and zero is what a peer that has
closed gives. The next test therefore drops a client that is idle. `KeepsClients` is stated from
the results of `recv`, and `keepsClients_iff` finds that a poll meets it exactly when no client
is idle.

## Main Definitions

* `CommandServer`, `Poll`, `pollCommandServer`
* `KeepsClients` — a poll drops clients for cause only, and leaves idle ones alone
* `NobodyIdle` — every client has something to report

## Main Results

* `receiveLoop_clients` — what the receive loop leaves of the clients
* `keepsClients_along_iff`
-/

namespace AkronSlot.Mql5

open Wire Wire.Utf8 Systems

/-! ## The server -/

/-- A client: its socket, and what it has sent of a line that is not over. -/
structure Client where
  sock : ℕ
  buf : Text := []
  deriving DecidableEq

/-- What `accept` reports. -/
inductive Accepted where
  | client (sock : ℕ)
  | error (code : ℕ)

/-- What `recv` reports: bytes, none of them when the peer has closed, or an error. That nothing
is there is an error too, with one of two codes. -/
inductive Received where
  | bytes (chunk : Bytes)
  | error (code : ℕ)

/-- What the calls of one poll report: `accept` for the first, second, ... time,
`recv` on a socket, and `HandleCommandAndRespond` for a frame; and what the bytes of
a response depend on besides its text. -/
structure Poll where
  accepted : ℕ → Accepted
  received : ℕ → Received
  respond : Text → Text
  codePage : CodePage := asciiPage
  behind : ℕ → Text → ℕ → UInt8 := fun _ _ _ => 0

/-- The state of the server: whether it listens, its clients in the order of their index, the
sockets it has closed and what it has sent, each with its socket. -/
structure CommandServer where
  listening : Bool := true
  clients : List Client := []
  closed : List ℕ := []
  sent : List (ℕ × Bytes) := []
  deriving DecidableEq

/-- `MAX_CMD_CLIENTS`. -/
def maxCmdClients : ℕ := 4

/-- `RECV_BUF_MAX`. -/
def recvBufMax : ℕ := 65536

/-- `err == 10035 || err == 11`. -/
def wouldBlock (code : ℕ) : Bool := code = 10035 || code = 11

namespace CommandServer

/-- After `StartCommandServer`. -/
def started : CommandServer := {}

/-- `closesocket`. -/
def closesocket (s : CommandServer) (sock : ℕ) : CommandServer :=
  { s with closed := s.closed ++ [sock] }

/-- `CmdClientRemove`: the clients after it move up. -/
def cmdClientRemove (s : CommandServer) (i : ℕ) : CommandServer :=
  { s with clients := s.clients.eraseIdx i }

/-- The accept loop, from its `i`-th round on; `n` rounds are left. -/
def acceptLoop (p : Poll) : ℕ → ℕ → CommandServer → CommandServer
  | 0, _, s => s
  | n + 1, i, s =>
      match p.accepted i with
      | .error _ => s
      | .client cli =>
          if maxCmdClients ≤ s.clients.length then acceptLoop p n (i + 1) (s.closesocket cli)
          else acceptLoop p n (i + 1) { s with clients := s.clients ++ [{ sock := cli }] }

/-- The clients of a poll are accepted. -/
def accept (s : CommandServer) (p : Poll) : CommandServer := acceptLoop p maxCmdClients 0 s

/-- The response to a frame, as `send` puts it on a socket. -/
def respondTo (p : Poll) (sock : ℕ) (frame : Text) : Option (ℕ × Bytes) :=
  if p.respond frame = [] then none
  else some (sock, sentBytes p.codePage (p.behind sock frame) (p.respond frame))

/-- The socket of a client is closed and the client removed. -/
def dropClient (s : CommandServer) (i : ℕ) (c : Client) : CommandServer :=
  (s.closesocket c.sock).cmdClientRemove i

/-- The text that a client has sent of its open lines. -/
def buffered (c : Client) (chunk : Bytes) : Text := c.buf ++ decode chunk

/-- The receive loop from `n == 0` on. -/
def receiveBytes (p : Poll) (s : CommandServer) (i : ℕ) (c : Client) (chunk : Bytes) :
    CommandServer :=
  if chunk = [] then s.dropClient i c
  else
    let s' :=
      { s with
        clients := s.clients.set i { c with buf := openTail (buffered c chunk) }
        sent := s.sent ++ (completeLines (buffered c chunk)).filterMap (respondTo p c.sock) }
    if recvBufMax < utf16Length (openTail (buffered c chunk)) then s'.dropClient i c else s'

/-- One round of the receive loop.  An error that only says that nothing is there
sets `n` to zero and goes on. -/
def receive (p : Poll) (s : CommandServer) (i : ℕ) : CommandServer :=
  match s.clients[i]? with
  | none => s
  | some c =>
      match p.received c.sock with
      | .error code => if wouldBlock code then s.receiveBytes p i c [] else s.dropClient i c
      | .bytes chunk => s.receiveBytes p i c chunk

/-- The receive loop, downwards from the client before the `n`-th. -/
def receiveLoop (p : Poll) : ℕ → CommandServer → CommandServer
  | 0, s => s
  | n + 1, s => receiveLoop p n (s.receive p n)

/-- `PollCommandServer`. -/
def pollCommandServer (s : CommandServer) (p : Poll) : CommandServer :=
  if s.listening then receiveLoop p (s.accept p).clients.length (s.accept p) else s

/-- No two open clients have one socket. -/
def step (s : CommandServer) (p : Poll) : Option CommandServer :=
  if ((s.accept p).clients.map Client.sock).Nodup then some (s.pollCommandServer p) else none

/-! ## The loops -/

/-- What becomes of a client in a poll. It depends on the client and on its own `recv` only, which
is why the loop can be taken apart. -/
def after (p : Poll) (c : Client) : Option Client :=
  match p.received c.sock with
  | .error _ => none
  | .bytes chunk =>
      if chunk = [] ∨ recvBufMax < utf16Length (openTail (buffered c chunk)) then none
      else some { c with buf := openTail (buffered c chunk) }

/-- Clients are accepted behind those that are there. -/
theorem acceptLoop_clients (p : Poll) (n i : ℕ) (s : CommandServer) :
    (acceptLoop p n i s).listening = s.listening ∧
      ∃ new, (acceptLoop p n i s).clients = s.clients ++ new := by
  induction n generalizing i s with
  | zero => exact ⟨rfl, [], by simp [acceptLoop]⟩
  | succ n ih =>
      unfold acceptLoop
      cases p.accepted i with
      | error code => exact ⟨rfl, [], by simp⟩
      | client cli =>
          dsimp only
          split
          · exact ih (i + 1) (s.closesocket cli)
          · obtain ⟨hlistening, new, hnew⟩ :=
              ih (i + 1) { s with clients := s.clients ++ [{ sock := cli }] }
            exact ⟨hlistening, { sock := cli } :: new, by rw [hnew]; simp⟩

/-- One round: the client at its place, and no other, is what `after` makes of it,
and its socket is closed if that is nothing. -/
theorem receive_eq (p : Poll) (s : CommandServer) {front rest : List Client} {c : Client}
    (hclients : s.clients = front ++ c :: rest) :
    (s.receive p front.length).clients = front ++ ((after p c).toList ++ rest) ∧
      (s.receive p front.length).closed =
        s.closed ++ if (after p c).isNone then [c.sock] else [] := by
  have hat : s.clients[front.length]? = some c := by simp [hclients]
  have hdrop : (s.dropClient front.length c).clients = front ++ rest ∧
      (s.dropClient front.length c).closed = s.closed ++ [c.sock] := by
    constructor
    · show s.clients.eraseIdx front.length = front ++ rest
      simp [hclients, List.eraseIdx_append_of_length_le]
    · rfl
  unfold receive after
  rw [hat]
  dsimp only
  cases p.received c.sock with
  | error code =>
      dsimp only
      split <;> simpa [receiveBytes] using hdrop
  | bytes chunk =>
      unfold receiveBytes
      dsimp only
      by_cases hnil : chunk = []
      · simpa [hnil] using hdrop
      · by_cases hlong : recvBufMax < utf16Length (openTail (buffered c chunk))
        · simp only [hnil, hlong, false_or, if_false, if_true]
          simp [dropClient, closesocket, cmdClientRemove, hclients,
            List.eraseIdx_append_of_length_le]
        · simp [hnil, hlong, hclients]

/-- **The receive loop** leaves of its clients what `after` makes of them, and
closes the sockets of the others. -/
theorem receiveLoop_clients (p : Poll) {front rest : List Client} {s : CommandServer}
    (hclients : s.clients = front ++ rest) :
    (receiveLoop p front.length s).clients = front.filterMap (after p) ++ rest ∧
      (receiveLoop p front.length s).closed =
        s.closed ++ (front.reverse.filter fun c => (after p c).isNone).map Client.sock := by
  induction front using List.reverseRecOn generalizing s rest with
  | nil => simp [receiveLoop, hclients]
  | append_singleton front c ih =>
      rw [List.append_assoc, List.singleton_append] at hclients
      obtain ⟨hround, hclosed⟩ := receive_eq p s hclients
      obtain ⟨hrest, hallClosed⟩ := ih hround
      rw [List.length_append, List.length_singleton]
      show (receiveLoop p front.length (s.receive p front.length)).clients = _ ∧
        (receiveLoop p front.length (s.receive p front.length)).closed = _
      rw [hrest, hallClosed, hclosed]
      constructor
      · rw [List.filterMap_append, ← List.append_assoc]
        cases h : after p c <;> simp [h]
      · cases h : after p c <;> simp [h]

/-! ## Why a client is dropped -/

/-- What may cost a client its connection: the peer has closed, `recv` failed, or the line that is
not over has grown too long. These are the three reasons the source prints. -/
def Cause (c : Client) : Received → Prop
  | .error code => wouldBlock code = false
  | .bytes chunk => chunk = [] ∨ recvBufMax < utf16Length (openTail (buffered c chunk))

/-- `recv` only said that nothing is there. -/
def Idle : Received → Prop
  | .error code => wouldBlock code = true
  | .bytes _ => False

/-- A poll closes and removes clients for cause only, and leaves a client that has
nothing to read as it is. -/
structure KeepsClients (s : CommandServer) (p : Poll) : Prop where
  dropped : ∀ c ∈ (s.accept p).clients,
    (c.sock ∈ (s.pollCommandServer p).closed.drop (s.accept p).closed.length ∨
      c.sock ∉ (s.pollCommandServer p).clients.map Client.sock) → Cause c (p.received c.sock)
  idle : ∀ c ∈ (s.accept p).clients, Idle (p.received c.sock) →
    c ∈ (s.pollCommandServer p).clients

/-- Every client has sent something, has closed, or has failed. Only then does the test for zero
bytes mean what it is there for. -/
def NobodyIdle (s : CommandServer) (p : Poll) : Prop :=
  ∀ c ∈ (s.accept p).clients, ¬ Idle (p.received c.sock)

section Poll

variable {s : CommandServer} {p : Poll}

/-- A poll, client by client. -/
theorem pollCommandServer_eq (hlistening : s.listening = true) :
    (s.pollCommandServer p).clients = (s.accept p).clients.filterMap (after p) ∧
      (s.pollCommandServer p).closed = (s.accept p).closed ++
        ((s.accept p).clients.reverse.filter fun c => (after p c).isNone).map Client.sock := by
  have hloop := @receiveLoop_clients p (s.accept p).clients [] (s.accept p) (by simp)
  rw [List.append_nil] at hloop
  rw [pollCommandServer, if_pos hlistening]
  exact hloop

theorem after_sock {c c' : Client} (h : after p c = some c') : c'.sock = c.sock := by
  unfold after at h
  split at h
  · cases h
  · split at h
    · cases h
    · rw [← Option.some.inj h]

/-- A client is dropped for cause, or because it is idle. -/
theorem after_eq_none_iff (c : Client) :
    after p c = none ↔ Cause c (p.received c.sock) ∨ Idle (p.received c.sock) := by
  unfold after
  cases p.received c.sock with
  | error code => cases h : wouldBlock code <;> simp [Cause, Idle, h]
  | bytes chunk =>
      simp only [Cause, Idle, or_false]
      split
      · next hcause => exact iff_of_true rfl hcause
      · next hkept => exact iff_of_false (by simp) hkept

/-- With distinct sockets, what is dropped is what `after` drops. -/
theorem dropped_iff (hlistening : s.listening = true)
    (hnodup : ((s.accept p).clients.map Client.sock).Nodup) {c : Client}
    (hc : c ∈ (s.accept p).clients) :
    (c.sock ∈ (s.pollCommandServer p).closed.drop (s.accept p).closed.length ∨
      c.sock ∉ (s.pollCommandServer p).clients.map Client.sock) ↔ after p c = none := by
  obtain ⟨hclients, hclosed⟩ := @pollCommandServer_eq s p hlistening
  have hunique : ∀ d ∈ (s.accept p).clients, d.sock = c.sock → d = c := fun d hd hsock =>
    List.inj_on_of_nodup_map hnodup hd hc hsock
  rw [hclients, hclosed, List.drop_left]
  constructor
  · rintro (hin | hout)
    · obtain ⟨d, hd, hsock⟩ := List.mem_map.mp hin
      obtain ⟨hmem, hnone⟩ := List.mem_filter.mp hd
      rw [hunique d (List.mem_reverse.mp hmem) hsock] at hnone
      exact Option.isNone_iff_eq_none.mp hnone
    · by_contra hsome
      obtain ⟨c', hc'⟩ := Option.ne_none_iff_exists'.mp hsome
      apply hout
      exact List.mem_map.mpr ⟨c', List.mem_filterMap.mpr ⟨c, hc, hc'⟩, after_sock hc'⟩
  · intro hnone
    refine .inl (List.mem_map.mpr ⟨c, List.mem_filter.mpr ⟨List.mem_reverse.mpr hc, ?_⟩, rfl⟩)
    rw [hnone]
    rfl

/-- **The step lemma**: a poll keeps the clients it has to keep exactly if none of
them is idle. -/
theorem keepsClients_iff (hlistening : s.listening = true)
    (hnodup : ((s.accept p).clients.map Client.sock).Nodup) :
    s.KeepsClients p ↔ s.NobodyIdle p := by
  constructor
  · intro h c hc hidle
    -- an idle client is still there, and yet it was dropped
    have hnone : after p c = none := (after_eq_none_iff c).mpr (.inr hidle)
    obtain ⟨hclients, -⟩ := @pollCommandServer_eq s p hlistening
    have hstays := h.idle c hc hidle
    rw [hclients] at hstays
    obtain ⟨d, hd, hafter⟩ := List.mem_filterMap.mp hstays
    have hsame : d = c := List.inj_on_of_nodup_map hnodup hd hc (after_sock hafter).symm
    rw [hsame, hnone] at hafter
    cases hafter
  · intro h
    refine ⟨fun c hc hdropped => ?_, fun c hc hidle => absurd hidle (h c hc)⟩
    rw [dropped_iff hlistening hnodup hc, after_eq_none_iff] at hdropped
    exact hdropped.resolve_right (h c hc)

end Poll

/-! ## Runs -/

theorem step_eq_some_iff {s s' : CommandServer} {p : Poll} : s.step p = some s' ↔
    ((s.accept p).clients.map Client.sock).Nodup ∧ s' = s.pollCommandServer p := by
  simp only [step, Option.ite_none_right_eq_some, Option.some.injEq]
  exact and_congr_right fun _ => eq_comm

/-- No round of the receive loop stops the server. -/
theorem receiveLoop_listening (p : Poll) (n : ℕ) (s : CommandServer) :
    (receiveLoop p n s).listening = s.listening := by
  induction n generalizing s with
  | zero => rfl
  | succ n ih =>
      have hround : (s.receive p n).listening = s.listening := by
        unfold receive
        cases s.clients[n]? with
        | none => rfl
        | some c =>
            dsimp only
            cases p.received c.sock with
            | error code =>
                dsimp only
                split <;> simp [receiveBytes, dropClient, closesocket, cmdClientRemove]
            | bytes chunk =>
                unfold receiveBytes
                dsimp only
                split
                · rfl
                · split <;> rfl
      exact (ih _).trans hround

theorem listening_step {s s' : CommandServer} {p : Poll} (hs : s.listening = true)
    (h : s.step p = some s') : s'.listening = true := by
  obtain ⟨-, rfl⟩ := step_eq_some_iff.mp h
  rw [pollCommandServer, if_pos hs, receiveLoop_listening]
  exact (acceptLoop_clients p maxCmdClients 0 s).1.trans hs

/-- **Every poll of a run** keeps the clients it has to keep if and only if no poll of the run
finds a client with nothing to read. An idle client gives zero bytes, and zero bytes are taken for
a peer that has closed. -/
theorem keepsClients_along_iff {ps : List Poll} {s : CommandServer}
    (hrun : run step started ps = some s) :
    Along step KeepsClients started ps ↔ Along step NobodyIdle started ps := by
  refine along_congr ?_ (fun _ _ _ hs _ h => listening_step hs h) rfl hrun
  intro t p t' hlistening hstep
  exact keepsClients_iff hlistening (step_eq_some_iff.mp hstep).1

/-- One client connects, on socket 7, and brings these results of `recv`. -/
def firstPoll (received : Received) : Poll where
  accepted i := if i = 0 then .client 7 else .error 10035
  received _ := received
  respond _ := []

/-- A poll without a new client. -/
def laterPoll (received : Received) : Poll where
  accepted _ := .error 10035
  received _ := received
  respond _ := []

/-- A whole line. -/
def lineBytes : Bytes := encode ['x', '\n']

/-- A client that sends a line at every poll stays. -/
theorem busy_client_stays : ∃ s, run step started [firstPoll (.bytes lineBytes),
    laterPoll (.bytes lineBytes)] = some s ∧ s.clients = [{ sock := 7 }] ∧
      Along step KeepsClients started [firstPoll (.bytes lineBytes),
        laterPoll (.bytes lineBytes)] := by
  have hrun : run step started [firstPoll (.bytes lineBytes), laterPoll (.bytes lineBytes)] =
      some { clients := [{ sock := 7 }] } := by decide +kernel
  refine ⟨_, hrun, rfl, (keepsClients_along_iff hrun).mpr ?_⟩
  refine ⟨fun c _ hidle => hidle, fun s' _ => ⟨fun c _ hidle => hidle, fun _ _ => trivial⟩⟩

/-- **A client that has nothing to read is dropped**: after its first line, the next
poll closes its socket. -/
theorem idle_client_dropped : ∃ s, run step started [firstPoll (.bytes lineBytes),
    laterPoll (.error 10035)] = some s ∧ s.clients = [] ∧ s.closed = [7] ∧
      ¬ Along step KeepsClients started [firstPoll (.bytes lineBytes),
        laterPoll (.error 10035)] := by
  have hfirst : step started (firstPoll (.bytes lineBytes)) =
      some { clients := [{ sock := 7 }] } := by decide +kernel
  have hrun : run step started [firstPoll (.bytes lineBytes), laterPoll (.error 10035)] =
      some { closed := [7] } := by decide +kernel
  refine ⟨_, hrun, rfl, rfl, fun hkeeps => ?_⟩
  have hidle := (hkeeps.2 _ hfirst).1.idle { sock := 7 } (by decide +kernel) rfl
  exact absurd hidle (by decide +kernel)

end CommandServer

end AkronSlot.Mql5
