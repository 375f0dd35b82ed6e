import AkronSlot.Mql5.ClientArrays
import AkronSlot.Wire.Framing

/-!
# What the command server reads of its clients

`ClientArrays` follows the two arrays of the command server.  Here is what the lines are
that it handles when the bytes are any bytes: every chunk is decoded on its own, and a line
is what its pieces are decoded to.  So the lines handled on a connection stand for the lines
of its bytes, one for one and in their order, whatever is cut or unreadable in them.

## Bytes that are cut between characters

A chunk ends where `recv` ends it, possibly within a character, and `CharArrayToString` decodes
it alone. What the handler is given for such a line is then not the decoding of the line. It is
still one text for one line: a newline byte is a newline in every decoding, and no decoding
makes one out of other bytes. That is all that `Reads` needs, and it holds without any condition
on the bytes.

## Main Definitions

* `CmdConn.Reads` — the lines of a connection, and what its buffer holds
* `ClientArrays.Lined` — the invariant

## Main Results

* `lined_step`
* `handled_of_run`
-/

namespace AkronSlot.Mql5

open Wire Wire.Utf8 Systems

/-- The chunks of a connection: its handled lines and the buffer are what they are decoded to,
piece by piece. For ASCII bytes this is the decoding of the whole. -/
def CmdConn.Reads (k : CmdConn) (buf : Text) : Prop :=
  ∃ chunks : List Bytes, chunks.flatten = k.received ∧
    k.handled = completeLines (decodeAll chunks) ∧ buf = openTail (decodeAll chunks)

namespace CmdConn

/-- One more chunk. -/
theorem Reads.chunk {k k' : CmdConn} {buf : Text} (h : k.Reads buf) {chunk : Bytes}
    (hreceived : k'.received = k.received ++ chunk)
    (hhandled : k'.handled = k.handled ++ completeLines (buf ++ decode chunk)) :
    k'.Reads (openTail (buf ++ decode chunk)) := by
  obtain ⟨chunks, hchunks, hlines, rfl⟩ := h
  refine ⟨chunks ++ [chunk], ?_, ?_, ?_⟩
  · rw [List.flatten_concat, hchunks, hreceived]
  · rw [hhandled, hlines, decodeAll_concat, completeLines_append (decodeAll chunks)]
  · rw [decodeAll_concat, openTail_append (decodeAll chunks)]

/-- The lines handled on a connection stand for the lines of its bytes. -/
theorem Reads.lines {k : CmdConn} {buf : Text} (h : k.Reads buf) :
    List.Forall₂ ReadFrom k.handled (byteLines k.received) := by
  obtain ⟨chunks, hchunks, hlines, -⟩ := h
  rw [hlines, ← hchunks]
  exact completeLines_readFrom chunks

/-- What a round of the receive loop leaves of a connection. -/
theorem reads_serve {p : PollCalls} {k : CmdConn} {c : Client} (h : k.Reads c.buf) :
    ∃ buf, (p.serve c k).Reads buf := by
  unfold PollCalls.serve
  split
  · exact ⟨c.buf, h⟩
  · split
    · exact ⟨c.buf, h⟩
    · exact ⟨_, h.chunk rfl rfl⟩

theorem answered_serve {ps : List PollCalls} {p : PollCalls} (hp : p ∈ ps) {k : CmdConn}
    {c : Client} (hsock : c.sock = k.sock)
    (h : List.Forall₂ (Answered ps k.sock) k.handled k.sent) :
    List.Forall₂ (Answered ps (p.serve c k).sock) (p.serve c k).handled (p.serve c k).sent := by
  rw [serve_sock]
  unfold PollCalls.serve
  rw [hsock]
  split
  · exact h
  · split
    · exact h
    · exact List.rel_append h (PollCalls.answers_forall₂ hp _ _)

end CmdConn

/-- A connection and its client: the socket is the same one, and what the buffer holds is the
piece of a line that the chunks leave open. -/
def Serves (k : CmdConn) (c : Client) : Prop := c.sock = k.sock ∧ k.Reads c.buf

/-- A connection that is open after a round has a client, and its buffer. -/
theorem serves_after {p : PollCalls} {k : CmdConn} {c : Client} (h : Serves k c)
    (hopen : k.isOpen = true) :
    List.Forall₂ Serves ([p.serve c k].filter (·.isOpen))
      (CommandServer.after p.toPoll c).toList := by
  obtain ⟨hsock, hreads⟩ := h
  have hreceived : p.toPoll.received c.sock = p.received c.sock := rfl
  unfold PollCalls.serve CommandServer.after
  rw [hreceived]
  cases p.received c.sock with
  | error code => exact .nil
  | bytes chunk =>
      dsimp only
      by_cases hnil : chunk = []
      · simp [hnil]
      · by_cases hlong : recvBufMax < utf16Length (openTail (CommandServer.buffered c chunk))
        · simp [hnil, hlong, not_le.mpr hlong]
        · have hkept : (k.isOpen && decide (utf16Length
              (openTail (CommandServer.buffered c chunk)) ≤ recvBufMax)) = true := by
            simp [hopen, not_lt.mp hlong]
          rw [if_neg hnil, if_neg (by simp [hnil, hlong])]
          simp only [List.filter_singleton, hkept, cond_true, Option.toList_some]
          exact .cons ⟨hsock, hreads.chunk rfl rfl⟩ .nil

namespace ClientArrays

/-- What holds between two polls: the arrays hold the open connections, each with its
buffer, and every connection has been read line by line and answered by some of the polls
`ps`, which are those of the whole run. -/
structure Lined (ps : List PollCalls) (s : ClientArrays) : Prop where
  arrays : ∃ cs, Holds s cs ∧ List.Forall₂ Serves (s.conns.filter (·.isOpen)) cs
  distinct : s.cmdClients.Nodup
  reads : ∀ k ∈ s.conns, ∃ buf, k.Reads buf
  answered : ∀ k ∈ s.conns, List.Forall₂ (Answered ps k.sock) k.handled k.sent

theorem lined_start (ps : List PollCalls) : Lined ps {} where
  arrays := ⟨[], ⟨rfl, rfl⟩, .nil⟩
  distinct := List.nodup_nil
  reads _ hk := absurd hk List.not_mem_nil
  answered _ hk := absurd hk List.not_mem_nil

/-- The sockets of the open connections are those of the array. -/
theorem socks_of_serves {ks : List CmdConn} {cs : List Client} (h : List.Forall₂ Serves ks cs) :
    ks.map CmdConn.sock = cs.map Client.sock := by
  induction h with
  | nil => rfl
  | cons h _ ih => rw [List.map_cons, List.map_cons, ih, h.1]

/-- The open connections, and their clients, around the client at a place. -/
theorem Lined.split {ps : List PollCalls} {s : ClientArrays} (h : Lined ps s) {n : ℕ}
    (hn : n < s.cmdClients.length) :
    ∃ kfront k krest cfront c crest,
      s.conns.filter (·.isOpen) = kfront ++ k :: krest ∧ cfront.length = n ∧
      Holds s (cfront ++ c :: crest) ∧ List.Forall₂ Serves kfront cfront ∧ Serves k c ∧
      List.Forall₂ Serves krest crest := by
  obtain ⟨cs, hholds, hserves⟩ := h.arrays
  rw [hholds.lengths.1] at hn
  have hsplit : cs = cs.take n ++ cs[n] :: cs.drop (n + 1) := by
    rw [← List.drop_eq_getElem_cons hn, List.take_append_drop]
  have hfront := List.forall₂_take n hserves
  have hback := List.forall₂_drop n hserves
  rw [List.drop_eq_getElem_cons hn] at hback
  obtain ⟨k, krest, hk, hkrest, hdrop⟩ := List.forall₂_cons_right_iff.mp hback
  refine ⟨_, k, krest, _, _, _, ?_, List.length_take_of_le hn.le, hsplit ▸ hholds, hfront, hk,
    hkrest⟩
  rw [← hdrop, List.take_append_drop]

/-- A change of the connection on a socket, when no other open one is on it. -/
theorem filter_onConn_alone {s : ClientArrays} {front rest : List CmdConn} {k : CmdConn}
    (hopen : s.conns.filter (·.isOpen) = front ++ k :: rest)
    (hother : ∀ k' ∈ front ++ rest, k'.sock ≠ k.sock) (change : CmdConn → CmdConn) :
    (s.onConn k.sock change).conns.filter (·.isOpen) =
      front ++ ([change k].filter (·.isOpen) ++ rest) := by
  have hsame : ∀ k' ∈ front ++ rest, (if k'.sock = k.sock then change k' else k') = k' :=
    fun k' hk' => if_neg (hother k' hk')
  have hall : ∀ k' ∈ front ++ k :: rest, k'.isOpen = true := fun k' hk' =>
    (List.mem_filter.mp (hopen ▸ hk' : k' ∈ s.conns.filter (·.isOpen))).2
  simp only [List.forall_mem_append, List.forall_mem_cons] at hsame hall
  rw [ClientArrays.filter_onConn, hopen, List.map_append, List.map_cons, if_pos rfl,
    List.map_congr_left hsame.1, List.map_congr_left hsame.2, List.map_id', List.map_id',
    List.filter_append, ← List.singleton_append (l := rest), List.filter_append,
    List.filter_eq_self.mpr hall.1, List.filter_eq_self.mpr hall.2.2]

/-- What is changed is an open connection on the socket. -/
theorem mem_onConn {s : ClientArrays} {cli : ℕ} {change : CmdConn → CmdConn} {k' : CmdConn}
    (h : k' ∈ (s.onConn cli change).conns) :
    k' ∈ s.conns ∨ ∃ k ∈ s.conns.filter (·.isOpen), k.sock = cli ∧ k' = change k := by
  obtain ⟨k, hk, rfl⟩ := List.mem_map.mp h
  split
  · next hmatch =>
      simp only [Bool.and_eq_true, decide_eq_true_eq] at hmatch
      exact .inr ⟨k, List.mem_filter.mpr ⟨hk, hmatch.1⟩, hmatch.2, rfl⟩
  · exact .inl hk

/-- **The step lemma for a round.** -/
theorem lined_receive {ps : List PollCalls} {p : PollCalls} (hp : p ∈ ps) {s : ClientArrays}
    (h : Lined ps s) {n : ℕ} (hn : n < s.cmdClients.length) :
    Lined ps (s.receive p n) ∧ n ≤ (s.receive p n).cmdClients.length := by
  obtain ⟨kfront, k, krest, cfront, c, crest, hopen, rfl, hholds, hkfront, hk, hkrest⟩ := h.split hn
  obtain ⟨hafter, hconns⟩ := receive_holds p hholds
  have hsocks : (kfront ++ k :: krest).map CmdConn.sock = s.cmdClients := by
    rw [hholds.socks]
    exact socks_of_serves (List.rel_append hkfront (.cons hk hkrest))
  -- no other open connection is on the socket
  have hother : ∀ k' ∈ kfront ++ krest, k'.sock ≠ k.sock := by
    have hdistinct := h.distinct
    rw [← hsocks, List.map_append, List.map_cons, List.nodup_middle, List.nodup_cons,
      ← List.map_append] at hdistinct
    exact fun k' hk' heq => hdistinct.1 (List.mem_map.mpr ⟨k', hk', heq⟩)
  have hlive : k.isOpen = true := (List.mem_filter.mp
    (hopen ▸ List.mem_append_right _ List.mem_cons_self : k ∈ s.conns.filter (·.isOpen))).2
  rw [hk.1] at hconns
  have hchanged : ∀ k' ∈ (s.receive p cfront.length).conns, k' ∈ s.conns ∨ k' = p.serve c k := by
    rw [hconns]
    intro k' hk'
    rcases mem_onConn hk' with hold | ⟨k₀, hk₀, hsock, rfl⟩
    · exact .inl hold
    · rw [hopen] at hk₀
      rcases List.mem_append.mp hk₀ with hk₀ | hk₀
      · exact absurd hsock (hother k₀ (List.mem_append_left _ hk₀))
      · rcases List.mem_cons.mp hk₀ with rfl | hk₀
        · exact .inr rfl
        · exact absurd hsock (hother k₀ (List.mem_append_right _ hk₀))
  have hkmem : k ∈ s.conns := (List.mem_filter.mp
    (hopen ▸ List.mem_append_right _ List.mem_cons_self : k ∈ s.conns.filter (·.isOpen))).1
  -- the round drops the client at its place, or leaves it there
  have hkept : ((CommandServer.after p.toPoll c).toList.map Client.sock).Sublist [c.sock] := by
    cases hc : CommandServer.after p.toPoll c with
    | none => exact List.nil_sublist _
    | some c' => simp [CommandServer.after_sock hc]
  have hsub : (s.receive p cfront.length).cmdClients.Sublist s.cmdClients := by
    rw [hafter.socks, hholds.socks, List.map_append, List.map_append, List.map_append,
      List.map_cons, ← List.singleton_append (x := c.sock)]
    exact (List.Sublist.refl _).append (hkept.append (List.Sublist.refl _))
  refine ⟨⟨⟨_, hafter, ?_⟩, hsub.nodup h.distinct, ?_, ?_⟩, ?_⟩
  · rw [hconns, filter_onConn_alone hopen hother]
    exact List.rel_append hkfront (List.rel_append (serves_after hk hlive) hkrest)
  · intro k' hk'
    rcases hchanged k' hk' with hk' | rfl
    · exact h.reads k' hk'
    · exact CmdConn.reads_serve hk.2
  · intro k' hk'
    rcases hchanged k' hk' with hk' | rfl
    · exact h.answered k' hk'
    · exact CmdConn.answered_serve hp hk.1 (h.answered k hkmem)
  · rw [hafter.lengths.1, List.length_append]
    exact Nat.le_add_right _ _

/-- The receive loop, from any of its rounds on. -/
theorem lined_receiveLoop {ps : List PollCalls} {p : PollCalls} (hp : p ∈ ps) (n : ℕ)
    {s : ClientArrays} (h : Lined ps s) (hn : n ≤ s.cmdClients.length) :
    Lined ps (receiveLoop p n s) := by
  induction n generalizing s with
  | zero => exact h
  | succ n ih =>
      obtain ⟨hround, hleft⟩ := lined_receive hp h hn
      exact ih hround hleft

/-- A socket that is not open is taken, or closed again. -/
theorem lined_takeClient {ps : List PollCalls} {s : ClientArrays} {cli : ℕ} (h : Lined ps s)
    (hcli : cli ∉ s.cmdClients) : Lined ps (s.takeClient cli) := by
  obtain ⟨cs, hholds, hserves⟩ := h.arrays
  unfold takeClient
  split
  · -- no open connection is on this socket
    have hconns : (s.closesocket cli).conns = s.conns := by
      refine (List.map_congr_left fun k hk => if_neg ?_).trans (List.map_id _)
      simp only [Bool.and_eq_true, decide_eq_true_eq, not_and]
      rintro hlive rfl
      refine hcli ?_
      rw [hholds.socks, ← socks_of_serves hserves]
      exact List.mem_map.mpr ⟨k, List.mem_filter.mpr ⟨hk, hlive⟩, rfl⟩
    exact ⟨⟨cs, ⟨hholds.socks, hholds.bufs⟩, hconns.symm ▸ hserves⟩, h.distinct,
      hconns.symm ▸ h.reads, hconns.symm ▸ h.answered⟩
  · have hconns : (s.addClient cli).conns = s.conns ++ [{ sock := cli }] := rfl
    have hsocks : (s.addClient cli).cmdClients = s.cmdClients ++ [cli] := set_arrayResize _ _ _
    refine ⟨⟨_, addClient_holds hholds cli, ?_⟩, ?_, ?_, ?_⟩
    · rw [hconns, List.filter_append]
      exact List.rel_append hserves (.cons ⟨rfl, [], rfl, rfl, rfl⟩ .nil)
    · rw [hsocks]
      exact List.nodup_append_comm.mp (List.nodup_cons.mpr ⟨hcli, h.distinct⟩)
    · rw [hconns, List.forall_mem_append, List.forall_mem_singleton]
      exact ⟨h.reads, [], [], rfl, rfl, rfl⟩
    · rw [hconns, List.forall_mem_append, List.forall_mem_singleton]
      exact ⟨h.answered, .nil⟩

theorem lined_acceptLoop {ps : List PollCalls} (p : PollCalls) (n i : ℕ) {s : ClientArrays}
    (h : Lined ps s) (hfresh : fresh p n i s = true) : Lined ps (acceptLoop p n i s) := by
  induction n generalizing i s with
  | zero => exact h
  | succ n ih =>
      unfold fresh at hfresh
      unfold acceptLoop
      cases hi : p.accepted i with
      | error code => exact h
      | client cli =>
          simp only [hi, Bool.and_eq_true, Bool.not_eq_true', List.contains_eq_mem,
            decide_eq_false_iff_not] at hfresh
          exact ih (i + 1) (lined_takeClient h hfresh.1) hfresh.2

/-- **The step lemma for a poll.** -/
theorem lined_step {ps : List PollCalls} {s s' : ClientArrays} {p : PollCalls} (hp : p ∈ ps)
    (h : Lined ps s) (hstep : s.step p = some s') : Lined ps s' := by
  obtain ⟨hfresh, hs'⟩ := Option.ite_none_right_eq_some.mp hstep
  obtain rfl := Option.some.inj hs'
  unfold pollCommandServer
  split
  · exact lined_receiveLoop hp _ (lined_acceptLoop p _ _ h hfresh) le_rfl
  · exact h

/-- **After every run**, whatever the bytes are, the lines handled on a connection stand for
the lines of its bytes, and each has one answer, given in one of the polls. -/
theorem handled_of_run {ps : List PollCalls} {s : ClientArrays} (hrun : run step {} ps = some s)
    {k : CmdConn} (hk : k ∈ s.conns) :
    List.Forall₂ ReadFrom k.handled (byteLines k.received) ∧
      List.Forall₂ (Answered ps k.sock) k.handled k.sent := by
  have h : Lined ps s :=
    @run_along_invariant _ _ _ (fun _ p => p ∈ ps) (Lined ps)
      (fun _ _ _ hs hp hstep => lined_step hp hs hstep) _ _ _ (lined_start ps)
      (along_of_forall (fun _ hp => hp) _) hrun
  obtain ⟨buf, hbuf⟩ := h.reads k hk
  exact ⟨hbuf.lines, h.answered k hk⟩

end ClientArrays

end AkronSlot.Mql5
