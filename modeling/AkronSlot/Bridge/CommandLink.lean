import AkronSlot.Bridge.Correlation
import AkronSlot.Bridge.ResponseDelivery
import AkronSlot.Mql5.ClientLines
import AkronSlot.Mql5.SendFrame
import AkronSlot.Slot.CommandLines
import AkronSlot.Slot.WrittenFrames

/-!
# The command link

The command client of the slot and the command server of SlotService, side by side, over
any interleaving of what happens to the one and of the polls of the other.  TCP is a
condition on the steps: the socket of the client and the connection of the server that are
joined carry, each way, a beginning of what was written.  The server may have connections
of other programs.

The client writes a frame once and never again, also when its socket is lost on the way; so
a command is handled at most once, on the connection it was written to and in its place.
The ids are in front of the payload and ASCII, so this holds however the bytes are cut.

## The two directions

They are not alike.  A frame of the client is written as it is, and all that can be missing
of it is an end.  A response of SlotService passes through a character array of another
size and another code page than its text, so that what is sent need not be the response;
and the strings of the terminal are not escaped in it, so that it may even be read under
the id of another command.  `Legible` says of a response that neither happens, and what is
shown of results is shown where the responses that were sent are legible.

## Main Definitions

* `CommandLink`, `CommandLink.step`
* `HandledAt`, `LineOf` — a line that the server has handled, and the call it is of
* `Legible`, `SentLegibly` — a response that reaches the client as it was made

## Main Results

* `commands_handled_once`
* `legible_of_plain`
* `fulfilled_once`
-/

namespace AkronSlot.Bridge

open Wire Wire.Utf8 Mql5 Slot Systems Mt5CommandClient

/-- The partner of an entry, in its place. -/
theorem exists_of_forall₂ {α β : Type*} {R : α → β → Prop} {as : List α} {bs : List β}
    (h : List.Forall₂ R as bs) {m : ℕ} {a : α} (ha : as[m]? = some a) :
    ∃ b, bs[m]? = some b ∧ R a b := by
  induction h generalizing m with
  | nil => cases ha
  | @cons a' b _ _ hab _ ih =>
      cases m with
      | zero =>
          obtain rfl : a' = a := by simpa using ha
          exact ⟨b, rfl, hab⟩
      | succ m => exact ih (by simpa using ha)

theorem getElem?_of_prefix {α : Type*} {as bs : List α} (h : as <+: bs) {m : ℕ} {a : α}
    (ha : as[m]? = some a) : bs[m]? = some a := by
  obtain ⟨rest, rfl⟩ := h
  rw [List.getElem?_append_left (List.getElem?_eq_some_iff.mp ha).1, ha]

/-! ## The head of a command frame -/

/-- What stands in front of the action. -/
def frameHead (id : Uuid) : Text :=
  '{' :: (quote "type" ++ ':' :: (quote "command" ++ ',' :: (quote "id" ++ ':' ::
    (quote id.text ++ [',']))))

theorem commandFrame_head (id : Uuid) (action : Text) (payload : Json) :
    ∃ rest, commandFrame id action payload = frameHead id ++ rest := by
  refine ⟨quote "action" ++ ':' :: (quote action ++ ',' ::
    (quote "payload" ++ ':' :: (Json.print payload ++ ['}']))), ?_⟩
  rw [commandFrame_eq]
  simp [frameHead]

theorem Uuid.ascii (id : Uuid) : AllAscii id.text := by
  intro c hc
  have hhigh : 0x80 ≤ c.toNat → hexValue? c = none := by
    intro h
    unfold hexValue?
    have h9 : ¬ c.toNat ≤ '9'.toNat := fun hle => absurd (h.trans hle) (by decide)
    have hf : ¬ c.toNat ≤ 'f'.toNat := fun hle => absurd (h.trans hle) (by decide)
    have hF : ¬ c.toNat ≤ 'F'.toNat := fun hle => absurd (h.trans hle) (by decide)
    simp only [h9, hf, hF, and_false, if_false]
  by_contra hno
  rcases id.hex_text c hc with rfl | hhex
  · exact hno (by decide)
  · rw [hhigh (not_lt.mp hno)] at hhex
    cases hhex

theorem frameHead_ascii (id : Uuid) : AllAscii (frameHead id) := by
  have hquote : quote id.text = '"' :: (id.text ++ ['"']) := by
    rw [quote, escapeText_of_plain (Uuid.plain id)]
  have hbefore : AllAscii ('{' :: (quote "type" ++ ':' :: (quote "command" ++ ',' ::
      (quote "id" ++ ":\"".toList)))) := allAscii_of_all (by decide)
  have hafter : AllAscii "\",".toList := allAscii_of_all (by decide)
  have hsplit : frameHead id = ('{' :: (quote "type" ++ ':' :: (quote "command" ++ ',' ::
      (quote "id" ++ ":\"".toList)))) ++ (id.text ++ "\",".toList) := by
    simp [frameHead, hquote]
  rw [hsplit, AllAscii, List.forall_mem_append, List.forall_mem_append]
  exact ⟨hbefore, Uuid.ascii id, hafter⟩

/-- **The id is read from everything that starts like the frame.** -/
theorem jsonField_frameHead (id : Uuid) (rest : Text) :
    jsonField (frameHead id ++ rest) "id" = id.text := by
  have hpath : ("id" : Text).splitOn '.' = ["id".toList] := by decide
  have htext : frameHead id ++ rest = '{' :: (quote "type" ++ ':' :: (quote "command" ++ ',' ::
      (quote "id" ++ ':' :: (quote id.text ++ ',' :: rest)))) := by
    simp [frameHead]
  have hfind : find (keyLiteral "id") (frameHead id ++ rest) =
      some (keyLiteral "id" ++ ':' :: (quote id.text ++ ',' :: rest)) := by
    rw [htext, find_key_type identifier_id (by decide) (by decide),
      find_key_quote identifier_id _ _ (by decide), if_pos rfl, ← keyLiteral_eq_quote identifier_id]
  rw [jsonField, hpath, List.foldl_cons, List.foldl_nil, fieldAt_of_find identifier_id hfind,
    readValue_quote, escapeText_of_plain (Uuid.plain id)]

/-- The member of the action. -/
def actionHead (a : Action) : Text := quote "action" ++ ':' :: (quote a.name ++ [','])

theorem actionHead_ascii (a : Action) : AllAscii (actionHead a) := by
  cases a <;> exact allAscii_of_all (by decide)

/-- **So is the action.** -/
theorem jsonField_actionHead (id : Uuid) (a : Action) (rest : Text) :
    jsonField (frameHead id ++ (actionHead a ++ rest)) "action" = a.name := by
  have hpath : ("action" : Text).splitOn '.' = ["action".toList] := by decide
  have htext : frameHead id ++ (actionHead a ++ rest) =
      '{' :: (quote "type" ++ ':' :: (quote "command" ++ ',' :: (quote "id" ++ ':' ::
        (quote id.text ++ ',' :: (quote "action" ++ ':' :: (quote a.name ++ ',' :: rest)))))) := by
    simp [frameHead, actionHead]
  have hfind : find (keyLiteral "action") (frameHead id ++ (actionHead a ++ rest)) =
      some (keyLiteral "action" ++ ':' :: (quote a.name ++ ',' :: rest)) := by
    rw [htext, find_key_type identifier_action (by decide) (by decide),
      find_key_id id identifier_action (by decide) (by decide),
      find_key_quote identifier_action _ _ (by decide), if_pos rfl,
      ← keyLiteral_eq_quote identifier_action]
  rw [jsonField, hpath, List.foldl_cons, List.foldl_nil, fieldAt_of_find identifier_action hfind,
    readValue_quote, escapeText_of_plain (Action.name_identifier a).1.plain]

section ReadFrom

variable {line : Text} {id : Uuid} {payload : Json}

/-- The id of a line that was read from a command frame. -/
theorem readFrom_id {action : Text} (h : ReadFrom line (encode (commandFrame id action payload))) :
    jsonField line "id" = id.text := by
  obtain ⟨rest, hframe⟩ := commandFrame_head id action payload
  rw [hframe] at h
  obtain ⟨r, rfl, -⟩ := h.ascii_prefix (frameHead_ascii id)
  exact jsonField_frameHead id r

/-- Its action. -/
theorem readFrom_action {a : Action}
    (h : ReadFrom line (encode (commandFrame id a.name payload))) :
    jsonField line "action" = a.name := by
  have hframe : commandFrame id a.name payload = frameHead id ++ (actionHead a ++
      (quote "payload" ++ ':' :: (Json.print payload ++ ['}']))) := by
    rw [commandFrame_eq]
    simp [frameHead, actionHead]
  rw [hframe] at h
  obtain ⟨later, rfl, hlater⟩ := h.ascii_prefix (frameHead_ascii id)
  obtain ⟨r, rfl, -⟩ := hlater.ascii_prefix (actionHead_ascii a)
  exact jsonField_actionHead id a r

end ReadFrom

/-! ## The link -/

/-- The client, the server, and for each connection of the server the socket of the client at its
other end, if it is one of the client's. Which socket that is, is settled when the server accepts.
-/
structure CommandLink where
  client : Mt5CommandClient := .initial
  server : ClientArrays := {}
  peers : List (Option ℕ) := []

namespace CommandLink

/-- A connection carries, each way, a beginning of what was written at the other end. What is
missing may still come or may be lost with the connection; nothing is changed, doubled or put in.
-/
def carries (k : Socket) (l : CmdConn) : Bool :=
  l.received.isPrefixOf (bytesOf k.written) && k.stream.isPrefixOf l.sent.flatten

/-- Every connection has its entry, no socket has two connections, what is joined carries
what was written, and a socket that is not joined has brought nothing. -/
def wired (s : CommandLink) : Bool :=
  s.peers.length = s.server.conns.length && decide (s.peers.filterMap id).Nodup &&
    (s.peers.zip s.server.conns).all (fun e =>
      e.1.all fun j => (s.client.sockets[j]?).any fun k => carries k e.2) &&
    s.client.sockets.zipIdx.all fun e => s.peers.contains (some e.2) || e.1.stream = []

inductive Event where
  | client (e : Mt5CommandClient.Event)
  /-- A poll, and the other ends of the connections that it takes on. -/
  | poll (p : PollCalls) (peers : List (Option ℕ))

/-- One of the two goes on, and the link still carries what was written. -/
def step (s : CommandLink) : Event → Option CommandLink
  | .client e => ((s.client.step e).map ({ s with client := · })).filter wired
  | .poll p peers =>
      ((s.server.step p).map ({ s with server := ·, peers := s.peers ++ peers })).filter wired

variable {s s' : CommandLink}

theorem step_client {e : Mt5CommandClient.Event} : s.step (.client e) = some s' ↔
    ∃ c, s.client.step e = some c ∧ s' = { s with client := c } ∧ s'.wired = true := by
  simp only [step, Option.filter_eq_some_iff, Option.map_eq_some_iff]
  constructor
  · rintro ⟨⟨c, hc, rfl⟩, hwired⟩
    exact ⟨c, hc, rfl, hwired⟩
  · rintro ⟨c, hc, rfl, hwired⟩
    exact ⟨⟨c, hc, rfl⟩, hwired⟩

theorem step_poll {p : PollCalls} {peers : List (Option ℕ)} : s.step (.poll p peers) = some s' ↔
    ∃ a, s.server.step p = some a ∧ s' = { s with server := a, peers := s.peers ++ peers } ∧
      s'.wired = true := by
  simp only [step, Option.filter_eq_some_iff, Option.map_eq_some_iff]
  constructor
  · rintro ⟨⟨a, ha, rfl⟩, hwired⟩
    exact ⟨a, ha, rfl, hwired⟩
  · rintro ⟨a, ha, rfl, hwired⟩
    exact ⟨⟨a, ha, rfl⟩, hwired⟩

/-- The event of the client in an event of the link. -/
def Event.client? : Event → Option Mt5CommandClient.Event
  | .client e => some e
  | .poll .. => none

/-- The poll in an event of the link. -/
def Event.poll? : Event → Option PollCalls
  | .client _ => none
  | .poll p _ => some p

variable {es : List Event}

/-- **A run of the link is a run of the client.** -/
theorem client_run (hrun : run step s es = some s') :
    run Mt5CommandClient.step s.client (es.filterMap Event.client?) = some s'.client := by
  refine run_project CommandLink.client Event.client? (fun s e s' h => ?_) hrun
  cases e with
  | client e =>
      obtain ⟨c, hc, rfl, -⟩ := step_client.mp h
      exact hc
  | poll p peers =>
      obtain ⟨a, -, rfl, -⟩ := step_poll.mp h
      rfl

/-- **A run of the link is a run of the server.** -/
theorem server_run (hrun : run step s es = some s') :
    run ClientArrays.step s.server (es.filterMap Event.poll?) = some s'.server := by
  refine run_project CommandLink.server Event.poll? (fun s e s' h => ?_) hrun
  cases e with
  | client e =>
      obtain ⟨c, -, rfl, -⟩ := step_client.mp h
      rfl
  | poll p peers =>
      obtain ⟨a, ha, rfl, -⟩ := step_poll.mp h
      exact ha

theorem wired_of_run (hrun : run step {} es = some s) : s.wired = true := by
  have hstep : ∀ s e s', wired s = true → step s e = some s' → wired s' = true := by
    intro s e s' _ h
    cases e with
    | client e =>
        obtain ⟨c, -, -, hwired⟩ := step_client.mp h
        exact hwired
    | poll p peers =>
        obtain ⟨a, -, -, hwired⟩ := step_poll.mp h
        exact hwired
  exact run_invariant hstep (by decide) hrun

/-! ## What is joined -/

/-- A connection of the server and the socket of the client at its other end. The peer of a
connection is noted when it is accepted; other clients have none. -/
def Joined (s : CommandLink) (i j : ℕ) (l : CmdConn) (k : Socket) : Prop :=
  s.peers[i]? = some (some j) ∧ s.server.conns[i]? = some l ∧ s.client.sockets[j]? = some k

section Wired

variable (h : s.wired = true)
include h

theorem length_peers : s.peers.length = s.server.conns.length := by
  simp only [wired, Bool.and_eq_true, decide_eq_true_eq] at h
  exact h.1.1.1

/-- What is joined carries what was written. -/
theorem joined_carries {i j : ℕ} {l : CmdConn} {k : Socket} (hjoined : s.Joined i j l k) :
    l.received <+: bytesOf k.written ∧ k.stream <+: l.sent.flatten := by
  obtain ⟨hpeer, hconn, hsock⟩ := hjoined
  simp only [wired, Bool.and_eq_true, List.all_eq_true] at h
  have hmem : (some j, l) ∈ s.peers.zip s.server.conns :=
    List.mem_of_getElem? (List.getElem?_zip_eq_some.mpr ⟨hpeer, hconn⟩)
  have hall := h.1.2 _ hmem
  simpa [hsock, carries, List.isPrefixOf_iff_prefix] using hall

/-- A connection with a socket of the client is joined to it. -/
theorem exists_joined {i j : ℕ} (hpeer : s.peers[i]? = some (some j)) :
    ∃ l k, s.Joined i j l k := by
  have hlength := length_peers h
  obtain ⟨hi, -⟩ := List.getElem?_eq_some_iff.mp hpeer
  obtain ⟨l, hconn⟩ : ∃ l, s.server.conns[i]? = some l :=
    ⟨_, List.getElem?_eq_getElem (hlength ▸ hi)⟩
  simp only [wired, Bool.and_eq_true, List.all_eq_true] at h
  have hmem : (some j, l) ∈ s.peers.zip s.server.conns :=
    List.mem_of_getElem? (List.getElem?_zip_eq_some.mpr ⟨hpeer, hconn⟩)
  obtain ⟨k, hk, -⟩ := (Option.any_eq_true _ _).mp (by simpa using h.1.2 _ hmem)
  exact ⟨l, k, hpeer, hconn, hk⟩

/-- A socket is joined to one connection. -/
theorem joined_unique {i i' j : ℕ} (hpeer : s.peers[i]? = some (some j))
    (hpeer' : s.peers[i']? = some (some j)) : i = i' := by
  simp only [wired, Bool.and_eq_true, decide_eq_true_eq] at h
  have hapart := List.pairwise_filterMap.mp h.1.1.2
  by_contra hne
  obtain ⟨hi, hget⟩ := List.getElem?_eq_some_iff.mp hpeer
  obtain ⟨hi', hget'⟩ := List.getElem?_eq_some_iff.mp hpeer'
  rcases Nat.lt_or_gt_of_ne hne with hlt | hlt
  · exact List.pairwise_iff_getElem.mp hapart i i' hi hi' hlt j hget j hget' rfl
  · exact List.pairwise_iff_getElem.mp hapart i' i hi' hi hlt j hget' j hget rfl

/-- A socket that has brought something is joined. -/
theorem joined_of_stream {j : ℕ} {k : Socket} (hsock : s.client.sockets[j]? = some k)
    (hstream : k.stream ≠ []) : ∃ i l, s.Joined i j l k := by
  have hwired := h
  simp only [wired, Bool.and_eq_true, List.all_eq_true] at h
  have hmem : (k, j) ∈ s.client.sockets.zipIdx := List.mem_zipIdx_iff_getElem?.mpr hsock
  have hall := h.2 _ hmem
  simp only [Bool.or_eq_true, List.contains_eq_mem, decide_eq_true_eq, hstream, or_false] at hall
  obtain ⟨i, hpeer⟩ := List.mem_iff_getElem?.mp hall
  obtain ⟨l, k', hpeer, hconn, hsock'⟩ := exists_joined hwired hpeer
  obtain rfl := Option.some.inj (hsock.symm.trans hsock')
  exact ⟨i, l, hpeer, hconn, hsock⟩

end Wired

/-! ## What is handled -/

/-- A line that the server has handled on a connection of the client, at its place. The place is
the number of the connection and that of the line on it. -/
def HandledAt (s : CommandLink) (i m : ℕ) (line : Text) : Prop :=
  ∃ j l k, s.Joined i j l k ∧ l.handled[m]? = some line

/-- A line is that of a call: its id and its action are what the call printed, and if the frame
was ASCII the line is the frame. Characters that are not ASCII may have been cut, which the
payload can suffer and the head cannot. -/
structure LineOf (line : Text) (c : Call) : Prop where
  written : c.written = true
  id : jsonField line "id" = c.id.text
  action : ∀ (a : Action) payload, c.frame = commandFrame c.id a.name payload ++ ['\n'] →
    jsonField line "action" = a.name
  whole : ∀ frame, c.frame = frame ++ ['\n'] → AllAscii frame → line = frame

/-- What is said of a line is about the key of its call. -/
theorem LineOf.of_key {line : Text} {c d : Call} (h : LineOf line d) (hkey : c.key = d.key) :
    LineOf line c := by
  obtain ⟨hid, hframe, hwritten⟩ : c.id = d.id ∧ c.frame = d.frame ∧ c.written = d.written := by
    simpa [Call.key] using hkey
  refine ⟨hwritten.trans h.written, by rw [hid, h.id], fun a payload hc => ?_, fun frame hc => ?_⟩
  · rw [hid, hframe] at hc
    exact h.action a payload hc
  · rw [hframe] at hc
    exact h.whole frame hc

/-- A line that was read from the frame of a call. -/
theorem lineOf_readFrom {c : Call} {line frame : Text} (hwritten : c.written = true)
    (hframe : c.frame = frame ++ ['\n'])
    (hprinted : ∃ action payload, c.frame = commandFrame c.id action payload ++ ['\n'])
    (h : ReadFrom line (encode frame)) : LineOf line c where
  written := hwritten
  id := by
    obtain ⟨action, payload, hc⟩ := hprinted
    obtain rfl := List.append_cancel_right (hframe.symm.trans hc)
    exact readFrom_id h
  action a payload hc := by
    obtain rfl := List.append_cancel_right (hframe.symm.trans hc)
    exact readFrom_action h
  whole frame' hc hascii := by
    obtain rfl := List.append_cancel_right (hframe.symm.trans hc)
    exact h.eq_of_ascii hascii

/-- What was written on a socket is a list of lines. -/
theorem exists_lines {s : Mt5CommandClient} (h : s.Writes) {j : ℕ} {k : Socket}
    (hk : s.sockets[j]? = some k) :
    ∃ lines : List Text, k.written = lines.map (· ++ ['\n']) ∧ ∀ l ∈ lines, '\n' ∉ l := by
  have hline : ∀ frame ∈ k.written, ∃ line, frame = line ++ ['\n'] ∧ '\n' ∉ line := by
    intro frame hframe
    obtain ⟨n, hn⟩ := List.mem_iff_getElem?.mp hframe
    obtain ⟨c, -, -, -, action, payload, hc⟩ := exists_call_of_frameAt h ⟨k, hk, hn⟩
    exact ⟨_, hc, Json.newline_notMem_print _⟩
  refine ⟨k.written.map List.dropLast, ?_, ?_⟩
  · rw [List.map_map]
    refine (List.map_id _).symm.trans (List.map_congr_left fun frame hframe => ?_)
    obtain ⟨line, rfl, -⟩ := hline frame hframe
    rw [Function.comp_apply, List.dropLast_concat, id]
  · rw [List.forall_mem_map]
    intro frame hframe
    obtain ⟨line, rfl, hno⟩ := hline frame hframe
    rwa [List.dropLast_concat]

/-- The lines handled on a joined connection stand for the first frames of its socket. -/
theorem handled_frames (hrun : run step {} es = some s) {i j : ℕ} {l : CmdConn} {k : Socket}
    (hjoined : s.Joined i j l k) :
    ∃ lines : List Text, k.written = lines.map (· ++ ['\n']) ∧ (∀ l ∈ lines, '\n' ∉ l) ∧
      List.Forall₂ ReadFrom l.handled (byteLines l.received) ∧
      byteLines l.received <+: lines.map encode := by
  have hwrites := writes_of_run (client_run hrun)
  obtain ⟨lines, hlines, hno⟩ := exists_lines hwrites hjoined.2.2
  have hread := (ClientArrays.handled_of_run (server_run hrun)
    (List.mem_of_getElem? hjoined.2.1)).1
  refine ⟨lines, hlines, hno, hread, ?_⟩
  rw [← byteLines_bytesOf hno, ← hlines]
  exact prefix_byteLines (joined_carries (wired_of_run hrun) hjoined).1

/-- A line that is handled is read from the frame in its place. -/
theorem frame_of_handled (hrun : run step {} es = some s) {i j m : ℕ} {l : CmdConn} {k : Socket}
    {line : Text} (hjoined : s.Joined i j l k) (hline : l.handled[m]? = some line) :
    ∃ frame, k.written[m]? = some (frame ++ ['\n']) ∧ ReadFrom line (encode frame) := by
  obtain ⟨lines, hlines, -, hread, hprefix⟩ := handled_frames hrun hjoined
  obtain ⟨bytes, hbytes, hfrom⟩ := exists_of_forall₂ hread hline
  have hsent := getElem?_of_prefix hprefix hbytes
  rw [List.getElem?_map] at hsent
  obtain ⟨frame, hframe, rfl⟩ := Option.map_eq_some_iff.mp hsent
  exact ⟨frame, by rw [hlines, List.getElem?_map, hframe, Option.map_some], hfrom⟩

/-- A line that is handled is that of the call in its place. -/
theorem call_of_handled (hrun : run step {} es = some s) {i j m : ℕ} {l : CmdConn} {k : Socket}
    {line : Text} (hjoined : s.Joined i j l k) (hline : l.handled[m]? = some line) :
    ∃ c ∈ s.client.calls.made, s.client.FrameAt j m c.frame ∧ LineOf line c := by
  obtain ⟨frame, hframe, hfrom⟩ := frame_of_handled hrun hjoined hline
  have hat : s.client.FrameAt j m (frame ++ ['\n']) := ⟨k, hjoined.2.2, hframe⟩
  obtain ⟨c, hc, hwritten, hcframe, action, payload, hprinted⟩ :=
    exists_call_of_frameAt (writes_of_run (client_run hrun)) hat
  rw [← hcframe] at hprinted hat
  exact ⟨c, hc, hat, lineOf_readFrom hwritten hcframe ⟨action, payload, hprinted⟩ hfrom⟩

/-- A frame is handled exactly if its bytes, and those in front of them, have come. -/
theorem handled_iff_received (hrun : run step {} es = some s) {i j n : ℕ} {l : CmdConn}
    {k : Socket} {frame : Text} (hjoined : s.Joined i j l k) (hframe : k.written[n]? = some frame) :
    (∃ line, l.handled[n]? = some line) ↔ bytesOf (k.written.take (n + 1)) <+: l.received := by
  obtain ⟨lines, hlines, hno, hread, -⟩ := handled_frames hrun hjoined
  have hcount : (∃ line, l.handled[n]? = some line) ↔ n < (byteLines l.received).length := by
    rw [← hread.length_eq]
    exact ⟨fun ⟨_, h⟩ => (List.getElem?_eq_some_iff.mp h).1,
      fun h => ⟨_, List.getElem?_eq_getElem h⟩⟩
  rw [hlines, List.getElem?_map] at hframe
  obtain ⟨line, hline, rfl⟩ := Option.map_eq_some_iff.mp hframe
  obtain ⟨hn, rfl⟩ := List.getElem?_eq_some_iff.mp hline
  have hfirst : ∀ r, (byteLines (bytesOf ((lines.take r).map (· ++ ['\n'])))).length =
      min r lines.length := by
    intro r
    rw [byteLines_bytesOf fun l hl => hno l (List.mem_of_mem_take hl), List.length_map,
      List.length_take]
  have hcarried := (joined_carries (wired_of_run hrun) hjoined).1
  rw [hcount, hlines, ← List.map_take]
  constructor
  · intro hlong
    -- what came and what is asked for begin the same bytes
    have hwhole : bytesOf ((lines.take (n + 1)).map (· ++ ['\n'])) <+: bytesOf k.written := by
      rw [hlines]
      exact bytesOf_prefix ((List.take_prefix _ _).map _)
    refine (List.prefix_or_prefix_of_prefix hwhole hcarried).elim id fun hshort => ?_
    have hsplit : bytesOf ((lines.take (n + 1)).map (· ++ ['\n'])) =
        (bytesOf ((lines.take n).map (· ++ ['\n'])) ++ encode lines[n]) ++ [newline] := by
      rw [List.take_add_one, List.getElem?_eq_getElem hn, Option.toList_some, List.map_append,
        bytesOf_append, List.map_singleton, bytesOf_cons, bytesOf_nil, List.append_nil, encode_line,
        ← List.append_assoc]
      rfl
    rw [hsplit] at hshort
    rcases List.prefix_concat_iff.mp hshort with hall | hless
    · rw [hsplit, hall]
    · have hfew := (prefix_byteLines hless).length_le
      rw [byteLines_append, openBytes_bytesOf, List.nil_append,
        byteLines_of_notMem (newline_notMem_encode (hno _ (List.getElem_mem hn))), List.append_nil,
        hfirst] at hfew
      omega
  · intro hprefix
    have hlong := (prefix_byteLines hprefix).length_le
    rw [hfirst] at hlong
    omega

/-- A line that is handled for the client is that of a call. -/
theorem lineOf_handledAt (hrun : run step {} es = some s) {i m : ℕ} {line : Text}
    (hat : s.HandledAt i m line) : ∃ c ∈ s.client.calls.made, LineOf line c := by
  obtain ⟨j, l, k, hjoined, hline⟩ := hat
  obtain ⟨c, hc, -, hof⟩ := call_of_handled hrun hjoined hline
  exact ⟨c, hc, hof⟩

/-- Lines with one id are one line. -/
theorem handledAt_unique (hrun : run step {} es = some s) {i m i' m' : ℕ} {line line' : Text}
    (hat : s.HandledAt i m line) (hat' : s.HandledAt i' m' line')
    (hid : jsonField line "id" = jsonField line' "id") : i = i' ∧ m = m' := by
  obtain ⟨j, l, k, hjoined, hline⟩ := hat
  obtain ⟨j', l', k', hjoined', hline'⟩ := hat'
  have hwrites := writes_of_run (client_run hrun)
  obtain ⟨c, hc, hframe, hof⟩ := call_of_handled hrun hjoined hline
  obtain ⟨c', hc', hframe', hof'⟩ := call_of_handled hrun hjoined' hline'
  -- the id leads to one call, its frame to one socket, and the socket to one connection
  have hkey := key_unique hwrites hc hc' (by rw [← hof.id, hid, hof'.id])
  rw [← show c.frame = c'.frame from congrArg (·.2.1) hkey] at hframe'
  obtain ⟨rfl, rfl⟩ := frameAt_unique hwrites hframe hframe'
  exact ⟨joined_unique (wired_of_run hrun) hjoined.1 hjoined'.1, rfl⟩

/-- A frame that was written is handled in its place exactly if its bytes have come. -/
theorem handledAt_iff (hrun : run step {} es = some s) {c : Call} (hc : c ∈ s.client.calls.made)
    (hwritten : c.written = true) {i j n : ℕ} {l : CmdConn} {k : Socket}
    (hjoined : s.Joined i j l k) (hframe : k.written[n]? = some c.frame) :
    (∃ line, s.HandledAt i n line ∧ LineOf line c) ↔
      bytesOf (k.written.take (n + 1)) <+: l.received := by
  rw [← handled_iff_received hrun hjoined hframe]
  constructor
  · rintro ⟨line, ⟨j', l', k', hjoined', hline⟩, -⟩
    obtain rfl := Option.some.inj (hjoined'.2.1.symm.trans hjoined.2.1)
    exact ⟨line, hline⟩
  · rintro ⟨line, hline⟩
    obtain ⟨frame, hframe', hfrom⟩ := frame_of_handled hrun hjoined hline
    have hprinted := (writes_of_run (client_run hrun)).printed _ (List.mem_map_of_mem hc)
    exact ⟨line, ⟨j, l, k, hjoined, hline⟩, lineOf_readFrom hwritten
      (Option.some.inj (hframe.symm.trans hframe')) hprinted hfrom⟩

/-- **A command is handled at most once, and exactly if it arrives**: in every run of the
link, every line that is handled for the client is that of a call whose frame was written;
no two of them have one id; and the frame of such a call has one place, on one socket, and
is handled there if and only if its bytes have come.  No bytes need be whole. -/
theorem commands_handled_once (hrun : run step {} es = some s) :
    (∀ i m line, s.HandledAt i m line → ∃ c ∈ s.client.calls.made, LineOf line c) ∧
    (∀ i m line i' m' line', s.HandledAt i m line → s.HandledAt i' m' line' →
      jsonField line "id" = jsonField line' "id" → i = i' ∧ m = m') ∧
    ∀ c ∈ s.client.calls.made, c.written = true → ∃ j n, s.client.FrameAt j n c.frame ∧
      (∀ j' n', s.client.FrameAt j' n' c.frame → j' = j ∧ n' = n) ∧
      ∀ i l k, s.Joined i j l k →
        ((∃ line, s.HandledAt i n line ∧ LineOf line c) ↔
          bytesOf (k.written.take (n + 1)) <+: l.received) := by
  refine ⟨fun i m line hat => lineOf_handledAt hrun hat,
    fun i m line i' m' line' hat hat' hid => handledAt_unique hrun hat hat' hid,
    fun c hc hwritten => ?_⟩
  have hwrites := writes_of_run (client_run hrun)
  obtain ⟨j, n, hat⟩ := exists_frameAt_of_call hwrites hc hwritten
  refine ⟨j, n, hat, fun j' n' hat' => frameAt_unique hwrites hat' hat, fun i l k hjoined => ?_⟩
  obtain ⟨k', hk', hframe⟩ := hat
  obtain rfl := Option.some.inj (hk'.symm.trans hjoined.2.2)
  exact handledAt_iff hrun hc hwritten hjoined hframe

/-! ## What is answered -/

/-- A response to a line that reaches the client as it was made, however it is cut: it is
one line, of ASCII characters only and short enough for the array it is sent from.  And it
is read under no id but that of its line, which its own strings might contain. -/
structure Legible (line text : Text) : Prop where
  oneLine : '\n' ∉ text
  ascii : AllAscii text
  short : utf16Length text < cpUtf8
  ownId : ∀ id r, readResponse text = some (id, r) → id = jsonField line "id"

/-- A text is what `HandleCommandAndRespond` answers to a line of a socket in one of these
polls, and the bytes are what `send` is called with for it. -/
def SentFor (ps : List PollCalls) (sock : ℕ) (line text : Text) (bytes : Bytes) : Prop :=
  ∃ p ∈ ps, ∃ n, p.response sock (line, n) = text ++ ['\n'] ∧ bytes = p.sent sock (line, n)

/-- What was sent for a line is that of a legible response to it. The response is one that was
made for this line in one of the polls, so nothing else can stand in its place. -/
def SentLegibly (ps : List PollCalls) (sock : ℕ) (line : Text) (bytes : Bytes) : Prop :=
  ∃ text, SentFor ps sock line text bytes ∧ Legible line text

/-- A legible response is sent as it is. -/
theorem SentFor.eq_encode {ps : List PollCalls} {sock : ℕ} {line text : Text} {bytes : Bytes}
    (h : SentFor ps sock line text bytes) (hlegible : Legible line text) :
    bytes = encode (text ++ ['\n']) := by
  obtain ⟨p, -, n, hresponse, hbytes⟩ := h
  rw [hbytes, PollCalls.sent, hresponse]
  exact sentBytes_line p.codePage _ hlegible.ascii hlegible.short

/-- What was sent legibly are the lines of the responses. -/
theorem exists_texts {ps : List PollCalls} {sock : ℕ} {lines : List Text} {sent : List Bytes}
    (h : List.Forall₂ (SentLegibly ps sock) lines sent) :
    ∃ texts : List Text, sent = texts.map (fun text => encode (text ++ ['\n'])) ∧
      List.Forall₂ (fun line text => Legible line text ∧
        SentFor ps sock line text (encode (text ++ ['\n']))) lines texts := by
  induction h with
  | nil => exact ⟨[], rfl, .nil⟩
  | @cons line bytes lines sent hline _ ih =>
      obtain ⟨texts, rfl, hpairs⟩ := ih
      obtain ⟨text, hsent, hlegible⟩ := hline
      obtain rfl := hsent.eq_encode hlegible
      exact ⟨text :: texts, rfl, .cons ⟨hlegible, hsent⟩ hpairs⟩

/-- The polls of a run of the link. -/
def polls (es : List Event) : List PollCalls := es.filterMap Event.poll?

/-- **A command that is fulfilled was handled once, and this is its result**: where every
connection hands on its own lines and what was sent for the lines handled on it was sent
legibly, the one line that was handled under the id of a fulfilled call has a response,
which was sent for it in its place and has this result. -/
theorem fulfilled_once (hrun : run step {} es = some s) (hown : s.client.OwnLines)
    (hlegible : ∀ i j l k, s.Joined i j l k →
      List.Forall₂ (SentLegibly (polls es) l.sock) l.handled l.sent)
    {c : Call} (hc : c ∈ s.client.calls.made) {result : Option Json}
    (hresult : c.outcome = some (.ok result)) :
    ∃ i m j l k line text r, s.Joined i j l k ∧ l.handled[m]? = some line ∧ LineOf line c ∧
      (∀ i' m' line', s.HandledAt i' m' line' → jsonField line' "id" = c.id.text →
        i' = i ∧ m' = m) ∧
      l.sent[m]? = some (encode (text ++ ['\n'])) ∧
      SentFor (polls es) l.sock line text (encode (text ++ ['\n'])) ∧
      readResponse text = some (c.id.text, r) ∧ r.ok = true ∧ r.result = result := by
  have hclient := client_run hrun
  have hwrites := writes_of_run hclient
  have hwired := wired_of_run hrun
  -- the response came on a socket, which is joined to a connection
  obtain ⟨k, hk, frame, hframe, r, hread, hok, hr⟩ :=
    (settlement_of_run hclient).fulfilled c hc result hresult
  obtain ⟨j, hj⟩ := List.mem_iff_getElem?.mp hk
  rw [hown k hk] at hframe
  have hstream : k.stream ≠ [] := by
    intro hnone
    rw [hnone] at hframe
    cases hframe
  obtain ⟨i, l, hjoined⟩ := joined_of_stream hwired hj hstream
  -- the connection sent whole lines
  obtain ⟨texts, hsent, hpairs⟩ := exists_texts (hlegible i j l k hjoined)
  have hall : ∀ text ∈ texts, '\n' ∉ text ∧ AllAscii text := by
    intro text htext
    obtain ⟨m, hm⟩ := List.mem_iff_getElem?.mp htext
    obtain ⟨line, -, hline, -⟩ := exists_of_forall₂ hpairs.flip hm
    exact ⟨hline.oneLine, hline.ascii⟩
  have hflat : l.sent.flatten = bytesOf (texts.map (· ++ ['\n'])) := by
    rw [hsent, bytesOf, List.map_map]
    rfl
  have hlines : byteLines k.stream <+: texts.map encode := by
    rw [← byteLines_bytesOf fun text htext => (hall text htext).1, ← hflat]
    exact prefix_byteLines (joined_carries hwired hjoined).2
  -- so the frame is one of the texts
  have hfrom : List.Forall₂ ReadFrom (completeLines (decode k.stream)) (byteLines k.stream) := by
    have hone := completeLines_readFrom [k.stream]
    rwa [List.flatten_singleton, decodeAll, List.flatMap_singleton] at hone
  obtain ⟨m, hm⟩ := List.mem_iff_getElem?.mp hframe
  obtain ⟨bytes, hbytes, hpiece⟩ := exists_of_forall₂ hfrom hm
  have hsentLine := getElem?_of_prefix hlines hbytes
  rw [List.getElem?_map] at hsentLine
  obtain ⟨text, htext, rfl⟩ := Option.map_eq_some_iff.mp hsentLine
  obtain rfl := hpiece.eq_of_ascii (hall text (List.mem_of_getElem? htext)).2
  -- and that text answers the line in its place
  obtain ⟨line, hmline, hline, hfor⟩ := exists_of_forall₂ hpairs.flip htext
  have hat : s.HandledAt i m line := ⟨j, l, k, hjoined, hmline⟩
  have hid := hline.ownId _ _ hread
  obtain ⟨d, hd, hof⟩ := lineOf_handledAt hrun hat
  have hkey := key_unique hwrites hc hd (hid.trans hof.id)
  have hplace : l.sent[m]? = some (encode (frame ++ ['\n'])) := by
    rw [hsent, List.getElem?_map, htext, Option.map_some]
  refine ⟨i, m, j, l, k, line, frame, r, hjoined, hmline, hof.of_key hkey,
    fun i' m' line' hat' hid' => ?_, hplace, hfor, hread, hok, hr⟩
  exact handledAt_unique hrun hat' hat (hid'.trans hid)

/-- The response to a command of the slot is legible when it is one short ASCII line and the
strings that it takes over from the terminal as they are need no escape: then no id but that
of its line can be read in it. -/
theorem legible_of_plain {t : Terminal} {b : Broker} {id : Uuid} {a : Action} {payload : Json}
    (ha : a.name ∈ knownActions)
    (hplain : ∀ s ∈ rawStrings b (jsonField (commandFrame id a.name payload)) a, PlainText s)
    {text : Text} (hresponse : (handleCommandAndRespond t (queryHandlers b)
      (jsonField (commandFrame id a.name payload))).1 = text ++ ['\n'])
    (hno : '\n' ∉ text) (hascii : AllAscii text) (hshort : utf16Length text < cpUtf8) :
    Legible (commandFrame id a.name payload) text where
  oneLine := hno
  ascii := hascii
  short := hshort
  ownId i r hread := by
    have hid := jsonField_id id payload a.name
    have haction := jsonField_action id payload (Action.name_identifier a).1.plain
    obtain ⟨h, result, hhandle, hresult, henclosed⟩ := handled_enclosed t b id payload ha
    simp only [handleCommandAndRespond, haction, hid, hhandle, responseLine_raw] at hresponse
    rw [← List.append_cancel_right hresponse, hresult] at hread
    rw [hid]
    exact readResponse_enclosed (henclosed hplain) hread

/-! ## One command -/

/-- A poll that takes on a client and reads the command of `sampleFrame`. -/
def linkPoll : PollCalls where
  accepted i := if i = 0 then .client 7 else .error 0
  received _ := .bytes (encode sampleFrame)
  terminal _ _ := sampleTerminal
  queries _ _ := queryHandlers emptyBroker

/-- The line of the command. -/
def linkLine : Text := commandFrame sampleId "symbols" (.obj [])

/-- The line of the response. -/
def linkText : Text :=
  "\x7b\"type\":\"response\",\"id\":\"".toList ++ sampleId.text ++
    "\",\"ok\":true,\"result\":\x7b\"count\":0,\"symbols\":[]\x7d\x7d".toList

/-- A command goes over the link and is answered. -/
def linkRun : List Event :=
  [.client (.connected 0), .client (.dispatch sampleId "symbols" (.obj [])), .client (.ensured 0),
    .client (.execute 0), .poll linkPoll [some 0], .client (.data 0 (encode (linkText ++ ['\n'])))]

/-- One connection, one command, one line each way. -/
theorem linkRun_reaches : ∃ s l k c, run step {} linkRun = some s ∧
    s.Joined 0 0 l k ∧ (∀ i j l' k', s.Joined i j l' k' → l' = l) ∧
    s.client.calls.made = [c] ∧ l.sock = 7 ∧ l.handled = [linkLine] ∧
    l.sent = [encode (linkText ++ ['\n'])] ∧ s.client.OwnLines ∧ ∃ r, c.outcome = some (.ok r) := by
  have hshape : (run step {} linkRun).any (fun s => s.peers = [some 0] &&
      s.server.conns.map (fun l => (l.sock, l.handled, l.sent)) =
        [(7, [linkLine], [encode (linkText ++ ['\n'])])] &&
      s.client.sockets.map (fun k => decide (k.frames = completeLines (decode k.stream))) =
        [true] &&
      s.client.calls.made.map (fun c => c.outcome.any Except.toBool) = [true]) = true := by
    decide +kernel
  obtain ⟨s, hrun, hs⟩ := (Option.any_eq_true _ _).mp hshape
  simp only [Bool.and_eq_true, decide_eq_true_eq, List.map_eq_singleton_iff, Prod.mk.injEq] at hs
  obtain ⟨⟨⟨hpeers, l, hconns, hsock, hhandled, hsent⟩, k, hsocks, hown⟩, c, hcalls, houtcome⟩ := hs
  refine ⟨s, l, k, c, hrun, ⟨by rw [hpeers]; rfl, by rw [hconns]; rfl, by rw [hsocks]; rfl⟩, ?_,
    hcalls, hsock, hhandled, hsent, ?_, ?_⟩
  · rintro i j l' k' ⟨-, hl', -⟩
    have hmem := List.mem_of_getElem? hl'
    rwa [hconns, List.mem_singleton] at hmem
  · intro k' hk'
    rw [hsocks, List.mem_singleton] at hk'
    rw [hk', hown]
  · obtain ⟨o, ho, hok⟩ := (Option.any_eq_true _ _).mp houtcome
    cases o with
    | error _ => cases hok
    | ok r => exact ⟨r, ho⟩

/-- The response in the poll of the run. -/
theorem linkPoll_response :
    linkPoll.response 7 (linkLine, 0) = linkText ++ ['\n'] := by
  decide +kernel

theorem link_legible : Legible linkLine linkText :=
  legible_of_plain (t := sampleTerminal) (b := emptyBroker) (a := .symbols) (by decide)
    (by simp [rawStrings]) linkPoll_response (by decide +kernel)
    (allAscii_of_all (by decide +kernel)) (by decide +kernel)

/-- What is sent in the run is sent legibly. -/
theorem link_sentLegibly :
    SentLegibly (polls linkRun) 7 linkLine (encode (linkText ++ ['\n'])) := by
  refine ⟨linkText, ⟨linkPoll, ?_, 0, linkPoll_response, ?_⟩, link_legible⟩
  · simp [polls, linkRun, Event.poll?]
  · decide +kernel

theorem link_handled : ∃ s, run step {} linkRun = some s ∧ s.HandledAt 0 0 linkLine ∧
    (∃ c ∈ s.client.calls.made, LineOf linkLine c) ∧
    (∀ i m line, s.HandledAt i m line → jsonField linkLine "id" = jsonField line "id" →
      0 = i ∧ 0 = m) ∧
    ∀ c ∈ s.client.calls.made, c.written = true → ∃ j n, s.client.FrameAt j n c.frame ∧
      (∀ j' n', s.client.FrameAt j' n' c.frame → j' = j ∧ n' = n) ∧
      ∀ i l k, s.Joined i j l k →
        ((∃ line, s.HandledAt i n line ∧ LineOf line c) ↔
          bytesOf (k.written.take (n + 1)) <+: l.received) := by
  obtain ⟨s, l, k, c, hrun, hjoined, -, -, -, hhandled, -⟩ := linkRun_reaches
  have hat : s.HandledAt 0 0 linkLine := ⟨0, l, k, hjoined, by rw [hhandled]; rfl⟩
  obtain ⟨hof, honce, hplace⟩ := commands_handled_once hrun
  exact ⟨s, hrun, hat, hof 0 0 linkLine hat, fun i m line => honce 0 0 linkLine i m line hat,
    hplace⟩

theorem link_fulfilled : ∃ s c result, run step {} linkRun = some s ∧
    c ∈ s.client.calls.made ∧ c.outcome = some (.ok result) ∧
    ∃ i m j l k line text r, s.Joined i j l k ∧ l.handled[m]? = some line ∧ LineOf line c ∧
      (∀ i' m' line', s.HandledAt i' m' line' → jsonField line' "id" = c.id.text →
        i' = i ∧ m' = m) ∧
      l.sent[m]? = some (encode (text ++ ['\n'])) ∧
      SentFor (polls linkRun) l.sock line text (encode (text ++ ['\n'])) ∧
      readResponse text = some (c.id.text, r) ∧ r.ok = true ∧ r.result = result := by
  obtain ⟨s, l, k, c, hrun, hjoined, honly, hcalls, hsock, hhandled, hsent, hown, result,
    hresult⟩ := linkRun_reaches
  have hc : c ∈ s.client.calls.made := by
    rw [hcalls]
    exact List.mem_singleton_self c
  have hlegible : ∀ i j l' k', s.Joined i j l' k' →
      List.Forall₂ (SentLegibly (polls linkRun) l'.sock) l'.handled l'.sent := by
    intro i j l' k' hjoined'
    rw [honly i j l' k' hjoined', hhandled, hsent, hsock]
    exact .cons link_sentLegibly .nil
  exact ⟨s, c, result, hrun, hc, hresult, fulfilled_once hrun hown hlegible hc hresult⟩

end CommandLink

end AkronSlot.Bridge
