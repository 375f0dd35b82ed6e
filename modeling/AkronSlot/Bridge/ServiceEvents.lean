import AkronSlot.Bridge.ServiceFrames
import AkronSlot.Slot.AccountRecords
import AkronSlot.Slot.ChunkedFrames
import AkronSlot.Wire.Framing

/-!
# What the slot learns from the service

The service writes its frames to one event socket after another, and the TCP server takes them
out of the chunks in which they arrive.  When a call of `send` takes all that it is offered or
fails, the lines of a connection are the frames that `SendFrame` says were sent on it; so the
connector is told what the service has reported.

## Why a parity

The service reports a connection to the broker only when it differs from the last one that it
noted, and it notes it before it sends.  So its reports alternate, and a lost one is not sent
again: the record is wrong after one loss and right again after two.  `Toggles` has that
arithmetic; here it is put together with what arrives.

## What a frame must be like

`SendFrame` gives `StringToCharArray` the number of characters as the count, which is the number
of bytes only for ASCII: a longer frame loses its end, and its newline with it.  A line of more
than 65,536 characters is dropped by the TCP server, and a control character in a name that is
not escaped makes it malformed.  `Legible` asks that none of this is the case; it is a condition
on what the terminal says (its server and company, and the account), not on the service.

The record belongs to the account that every report names, it is logged out when the service
starts, and the connector hears nothing but the events of the service: with a second publisher
the last word could be that of another.

## Main Definitions

* `Whole` — a call of `send` takes everything or fails
* `Wires` — the frames of each event socket
* `arrive` — the connections of the service, one after the other

## Main Results

* `receive_events`, `frames_of_sent`
* `wires_of_run`
* `connection_shown`
-/

namespace AkronSlot.Slot.Mt5TcpServer

open Wire Wire.Utf8 Mql5 Bridge

variable (s : Mt5TcpServer) (c : ℕ)

/-! ## Events of a connection -/

theorem takeLine_events (line : Text) :
    (takeLine c s line).events = s.events ++ (readEvent line).toList := by
  unfold takeLine readEvent
  cases Json.parse line with
  | none => simp
  | some v =>
      simp only [dispatch, eventFrame, Option.bind_some]
      cases anyFrame v with
      | none => simp [note]
      | some frame => cases frame <;> simp [note]

theorem onData_events (chunk : Bytes) : (s.onData c chunk).events =
    s.events ++ (completeLines (s.buffered chunk)).filterMap readEvent := by
  have hlines : ∀ (lines : List Text) (s : Mt5TcpServer),
      (lines.foldl (takeLine c) s).events = s.events ++ lines.filterMap readEvent := by
    intro lines
    induction lines with
    | nil => simp
    | cons l lines ih =>
        intro s
        rw [List.foldl_cons, ih, takeLine_events, List.append_assoc]
        cases hl : readEvent l <;> simp [hl]
  have hdrop : ∀ s : Mt5TcpServer, s.dropOverflow.events = s.events := by
    intro s
    unfold dropOverflow
    split <;> rfl
  rw [onData, hdrop, takeLines, hlines]

/-- **What a run passes to `handleEvent`** are the events among its frames. -/
theorem receive_events (chunks : List Bytes) :
    (s.receive c chunks).events = s.events ++ (s.frames c chunks).filterMap readEvent := by
  induction chunks generalizing s with
  | nil => simp [receive, frames]
  | cons chunk chunks ih =>
      rw [receive_cons, ih, onData_events, frames, List.filterMap_append, List.append_assoc]

/-- **Short lines of ASCII are taken out of any chunks as they were sent.** -/
theorem frames_of_sent {s : Mt5TcpServer} (hbuf : s.recvBuf = []) {lines : List Text}
    (hlines : ∀ l ∈ lines, AllAscii l ∧ '\n' ∉ l ∧ utf16Length l ≤ Slot.recvBufMax)
    {chunks : List Bytes} (hsent : chunks.flatten <+: bytesOf (lines.map (· ++ ['\n']))) :
    s.frames c chunks <+: lines ∧
      (chunks.flatten = bytesOf (lines.map (· ++ ['\n'])) → s.frames c chunks = lines) := by
  have hbytes : byteLines (bytesOf (lines.map (· ++ ['\n']))) = lines.map encode :=
    byteLines_bytesOf fun l hl => (hlines l hl).2.1
  have hbegin : byteLines chunks.flatten <+: lines.map encode := hbytes ▸ prefix_byteLines hsent
  have hframes : s.frames c chunks = (byteLines chunks.flatten).map decode := by
    rw [frames_eq hbuf, ← map_flatten_linePieces, List.map_map]
    refine List.map_congr_left fun pieces hpieces => ?_
    have hmem : pieces.flatten ∈ byteLines chunks.flatten := by
      rw [← map_flatten_linePieces]
      exact List.mem_map_of_mem hpieces
    obtain ⟨l, hl, hline⟩ := List.mem_map.mp (hbegin.subset hmem)
    obtain ⟨hascii, -, hshort⟩ := hlines l hl
    have hread : decodeAll pieces = l := ReadFrom.eq_of_ascii hascii ⟨pieces, hline.symm, rfl⟩
    have hheld : Held pieces := held_of_length (hread ▸ hshort)
    rw [frameOf_of_held hheld.dropLast, hread, Function.comp_apply, ← hline, decode_encode]
  have hdecode : (lines.map encode).map decode = lines := by
    simp [Function.comp_def, decode_encode]
  constructor
  · have hmap := hbegin.map decode
    rwa [hdecode, ← hframes] at hmap
  · intro heq
    rw [hframes, heq, hbytes, hdecode]

/-- The connections of the service, one after the other, with all that arrives on each. The
service closes a socket before it opens the next one. -/
def arrive (conns : List (List Bytes)) : Mt5TcpServer :=
  conns.foldl (fun s chunks => s.handleConnection.receive s.conns.length chunks) s

end AkronSlot.Slot.Mt5TcpServer

namespace AkronSlot.Slot.Mt5Connector

open Wire

/-- The connector after some events, each with the time at which it is passed on. -/
def hears (numberText : Numeral → Text) (rows : List AccountRow) (s : Mt5Connector)
    (heard : List (Frame × ℚ)) : Mt5Connector :=
  heard.foldl (fun s e => s.tcpEvent numberText rows e.1 e.2) s

end AkronSlot.Slot.Mt5Connector

namespace AkronSlot.Bridge

open Wire Wire.Utf8 Systems Mql5 Slot
open Mql5.SlotService (Event step onStart)

/-! ## The event sockets -/

/-- A call of `send` takes everything or fails.  After a part of a line, `SendFrame` would offer
the start of the line again. -/
def Whole (results : SendResults) : Prop :=
  ∀ call offered n, results call offered = some n → n.1 = offered

/-- Then a frame is sent whole, or nothing of it. -/
theorem sendFrame_whole {results : SendResults} (h : Whole results) (k : CmdSocket) (json : Text) :
    (Mql5.sendFrame results k json).2.wire =
      k.wire ++ if (Mql5.sendFrame results k json).1 then lineBuffer json else [] := by
  have hpos := SlotService.length_lineBuffer_pos json
  cases hopen : k.isOpen with
  | false =>
      have hvalue : Mql5.sendFrame results k json = (false, k) := by
        rw [Mql5.sendFrame, hopen]
        rfl
      simp [hvalue]
  | true =>
      cases hresult : results 0 ((lineBuffer json).length - 0) with
      | none =>
          have hvalue : Mql5.sendFrame results k json = (false, k.close) := by
            rw [Mql5.sendFrame, if_pos hopen, sendLoop, if_pos hpos, hresult]
          simp [hvalue, CmdSocket.close]
      | some n =>
          have hall : n.1 = (lineBuffer json).length := by simpa using h _ _ n hresult
          have hvalue : Mql5.sendFrame results k json =
              (true, { k with wire := k.wire ++ lineBuffer json }) := by
            rw [Mql5.sendFrame, if_pos hopen, sendLoop, if_pos hpos, hresult]
            dsimp only
            rw [sendLoop, if_neg (by omega), hall, List.take_length]
          simp [hvalue]

/-- The lines of some frames. -/
def linesOf (fs : List EventFrame) : Bytes := bytesOf ((fs.map EventFrame.text).map (· ++ ['\n']))

/-- The frames of the event sockets, the newest socket first, are those that were sent. -/
structure Wires (s : SlotService) (fss : List (List EventFrame)) : Prop where
  wires : List.Forall₂ (fun k fs => k.wire = linesOf fs) s.sockets fss
  sent : fss.reverse.flatten = (s.sends.filter (·.2)).map Prod.fst

section Wires

variable {s : SlotService} {fss : List (List EventFrame)}

theorem Wires.connectToSlot (h : Wires s fss) (connects : Bool) :
    ∃ fss', Wires (s.connectToSlot connects) fss' := by
  have hclosed : List.Forall₂ (fun k fs => k.wire = linesOf fs)
      (s.sockets.modifyHead CmdSocket.close) fss := by
    have hwires := h.wires
    cases hsockets : s.sockets with
    | nil => rwa [hsockets] at hwires
    | cons k ks =>
        rw [hsockets] at hwires
        cases hwires with
        | cons hk hks => exact .cons hk hks
  cases connects with
  | false => exact ⟨fss, hclosed, h.sent⟩
  | true => exact ⟨[] :: fss, .cons rfl hclosed, by simpa using h.sent⟩

theorem Wires.sendFrame (h : Wires s fss) {f : EventFrame} {results : SendResults}
    (hwhole : Whole results) (hascii : AllAscii f.text) :
    ∃ fss', Wires (s.sendFrame f results) fss' := by
  obtain ⟨hwires, hsent⟩ := h
  unfold SlotService.sendFrame
  cases hsockets : s.sockets with
  | nil =>
      rw [hsockets] at hwires
      cases hwires
      exact ⟨[], .nil, by simpa using hsent⟩
  | cons k ks =>
      rw [hsockets] at hwires
      cases hwires with
      | @cons _ fs _ fss hk hks =>
          have hwire := sendFrame_whole hwhole k f.text
          have hline : lineBuffer f.text = encode (f.text ++ ['\n']) := by
            rw [(lineBuffer_eq_iff _).mpr hascii, encode_append, encode_newline]
          dsimp only
          cases hok : (Mql5.sendFrame results k f.text).1 with
          | false =>
              rw [hok] at hwire
              refine ⟨fs :: fss, .cons ?_ hks, by simpa [hok] using hsent⟩
              rw [hwire, hk]
              simp
          | true =>
              rw [hok] at hwire
              refine ⟨(fs ++ [f]) :: fss, .cons ?_ hks, ?_⟩
              · rw [hwire, hk, if_pos rfl, hline]
                simp [linesOf, bytesOf]
              · rw [List.reverse_cons, List.flatten_concat] at hsent ⊢
                rw [← List.append_assoc, hsent]
                simp

/-- What arrives on each connection is the frames of its socket. -/
theorem Wires.arrived (h : Wires s fss) {conns : List (List Bytes)}
    (harrived : conns.map List.flatten = s.sockets.reverse.map CmdSocket.wire) :
    List.Forall₂ (fun chunks fs => chunks.flatten = linesOf fs) conns fss.reverse := by
  have hsockets : s.sockets.map CmdSocket.wire = fss.map linesOf := by
    rw [← List.forall₂_eq_eq_eq, List.forall₂_map_left_iff, List.forall₂_map_right_iff]
    exact h.wires
  have hlines : conns.map List.flatten = fss.reverse.map linesOf := by
    rw [harrived, List.map_reverse, hsockets, List.map_reverse]
  rwa [← List.forall₂_eq_eq_eq, List.forall₂_map_left_iff, List.forall₂_map_right_iff] at hlines

end Wires

/-- The calls of `send` of an event take everything or fail. A call that takes less makes
`SendFrame` repeat the start of the buffer, which is a defect of its own. -/
def WholeSends : Event → Prop
  | .timer t => Whole t.stateSend ∧ Whole t.accountSend
  | .trade _ _ results => Whole results

/-- Frames are only added, and while they are ASCII the sockets have those that were sent. A frame
that is not ASCII is cut by `SendFrame`, and what follows it on the socket is no longer framed. -/
structure KeepsWires (s s' : SlotService) : Prop where
  sends : s.sends <+: s'.sends
  wires : (∀ e ∈ s'.sends, AllAscii e.1.text) → (∃ fss, Wires s fss) → ∃ fss, Wires s' fss

namespace KeepsWires

variable {s s' s'' : SlotService}

theorem refl (s : SlotService) : KeepsWires s s := ⟨List.prefix_rfl, fun _ h => h⟩

theorem trans (h : KeepsWires s s') (h' : KeepsWires s' s'') : KeepsWires s s'' :=
  ⟨h.sends.trans h'.sends, fun hascii hs =>
    h'.wires hascii (h.wires (fun e he => hascii e (h'.sends.subset he)) hs)⟩

/-- Globals that are no sockets and no frames. -/
theorem of_eq (hsockets : s'.sockets = s.sockets) (hsends : s'.sends = s.sends) :
    KeepsWires s s' := by
  refine ⟨hsends ▸ List.prefix_rfl, fun _ ⟨fss, h⟩ => ⟨fss, ?_, ?_⟩⟩
  · rw [hsockets]
    exact h.wires
  · rw [hsends]
    exact h.sent

theorem connectToSlot (s : SlotService) (connects : Bool) :
    KeepsWires s (s.connectToSlot connects) :=
  ⟨List.prefix_rfl, fun _ ⟨_, h⟩ => h.connectToSlot connects⟩

theorem sendFrame (s : SlotService) (f : EventFrame) {results : SendResults}
    (hwhole : Whole results) : KeepsWires s (s.sendFrame f results) := by
  obtain ⟨ok, hsends⟩ := s.sends_sendFrame f results
  refine ⟨hsends ▸ List.prefix_append _ _, fun hascii ⟨_, h⟩ => h.sendFrame hwhole ?_⟩
  exact hascii (f, ok) (by simp [hsends])

theorem push (s : SlotService) {t : Mql5.Tick} (hstate : Whole t.stateSend)
    (haccount : Whole t.accountSend) : KeepsWires s (s.push t) := by
  have hsnapshot : KeepsWires s (s.pushState t) :=
    (@of_eq s { s with lastPollTime := t.readings.timeCurrent } rfl rfl).trans
      (sendFrame _ _ hstate)
  unfold SlotService.push
  dsimp only
  split
  · have hnoted : KeepsWires (s.pushState t)
        { s.pushState t with lastConnected := t.connected } := of_eq rfl rfl
    exact hsnapshot.trans (hnoted.trans (sendFrame _ _ haccount))
  · exact hsnapshot

theorem step {pollSeconds : ℤ} {e : Event} (hwhole : WholeSends e)
    (h : s.step pollSeconds e = some s') : KeepsWires s s' := by
  cases e with
  | trade now trans results =>
      obtain rfl := Option.some.inj h
      unfold SlotService.tradeTransaction
      split
      · exact refl s
      · exact sendFrame _ _ hwhole
  | timer t =>
      have hsocket : KeepsWires s (s.ensureSocket t) := by
        unfold SlotService.ensureSocket
        split
        · exact refl s
        · exact connectToSlot s _
      have htimer : s.onTimer pollSeconds t = some s' := h
      unfold SlotService.onTimer at htimer
      dsimp only at htimer
      split at htimer
      · obtain ⟨server, -, rfl⟩ := Option.map_eq_some_iff.mp htimer
        have hserver := hsocket.trans (@of_eq _ { s.ensureSocket t with server } rfl rfl)
        split
        · exact hserver.trans (push _ hwhole.1 hwhole.2)
        · exact hserver
      · exact Option.some.inj htimer ▸ hsocket

end KeepsWires

/-- **The sockets after a run** have the frames that were sent. -/
theorem wires_of_run {pollSeconds : ℤ} {c : Start} {s₀ s : SlotService} {es : List Event}
    (hstart : onStart c = some s₀) (hrun : run (step pollSeconds) s₀ es = some s)
    (hstartup : Whole c.startupSend) (hwhole : ∀ e ∈ es, WholeSends e)
    (hascii : ∀ e ∈ s.sends, AllAscii e.1.text) : ∃ fss, Wires s fss := by
  have hkeeps : KeepsWires {} s₀ := by
    obtain ⟨-, h⟩ := Option.ite_none_right_eq_some.mp hstart
    obtain rfl := Option.some.inj h
    exact ((KeepsWires.connectToSlot _ _).trans (.sendFrame _ _ hstartup)).trans (.of_eq rfl rfl)
  have hall : KeepsWires {} s :=
    run_along_invariant (fun _ _ _ h hsends hstep => h.trans (.step hsends hstep)) hkeeps
      (along_of_forall hwhole _) hrun
  exact hall.wires hascii ⟨[], .nil, rfl⟩

/-- The trade lines of a run are those of transactions. -/
theorem tradeLines_of_run {pollSeconds : ℤ} {c : Start} {s₀ s : SlotService} {es : List Event}
    (hstart : onStart c = some s₀) (hrun : run (step pollSeconds) s₀ es = some s) :
    ∀ e ∈ s.sends, TradeLine e.1 := by
  have hbegin : ∀ e ∈ s₀.sends, TradeLine e.1 := by
    obtain ⟨ok, hsends, -, -⟩ := SlotService.sends_onStart hstart
    rw [hsends, List.forall_mem_singleton]
    rintro line ⟨⟩
  refine @run_invariant _ _ _ (fun s => ∀ e ∈ s.sends, TradeLine e.1) (fun s e s' h hstep => ?_)
    _ _ _ hbegin hrun
  have hother : ∀ {added : List (EventFrame × Bool)}, s'.sends = s.sends ++ added →
      (∀ a ∈ added, TradeLine a.1) → ∀ a ∈ s'.sends, TradeLine a.1 := by
    intro added hsends hadded a ha
    rw [hsends] at ha
    exact (List.mem_append.mp ha).elim (h a) (hadded a)
  cases SlotService.sends_step hstep with
  | quiet _ hsends _ _ => exact hsends ▸ h
  | line hline hsends _ _ =>
      refine hother hsends ?_
      rw [List.forall_mem_singleton]
      rintro line ⟨⟩
      exact ⟨_, _, hline⟩
  | same _ _ _ hsends _ _ =>
      refine hother hsends ?_
      rw [List.forall_mem_singleton]
      rintro line ⟨⟩
  | changed _ _ _ hsends _ _ =>
      refine hother hsends ?_
      rw [List.forall_mem_cons, List.forall_mem_singleton]
      exact ⟨by rintro line ⟨⟩, by rintro line ⟨⟩⟩

/-! ## The events -/

/-- **The events of the connections** are those of the frames that were sent on them. -/
theorem arrive_events {conns : List (List Bytes)} {fss : List (List EventFrame)}
    (harrived : List.Forall₂ (fun chunks fs => chunks.flatten = linesOf fs) conns fss)
    (hlegible : ∀ f ∈ fss.flatten, Legible f ∧ TradeLine f) (t : Mt5TcpServer) :
    (t.arrive conns).events = t.events ++ fss.flatten.filterMap slotFrame := by
  induction harrived generalizing t with
  | nil => simp [Mt5TcpServer.arrive]
  | @cons chunks fs conns fss hchunks _ ih =>
      rw [List.flatten_cons, List.forall_mem_append] at hlegible
      have hlines : ∀ l ∈ fs.map EventFrame.text,
          AllAscii l ∧ '\n' ∉ l ∧ utf16Length l ≤ Slot.recvBufMax := by
        rw [List.forall_mem_map]
        intro f hf
        obtain ⟨h, -⟩ := hlegible.1 f hf
        exact ⟨h.ascii, h.oneLine, h.short⟩
      have hframes := (t.handleConnection.frames_of_sent t.conns.length rfl hlines
        (hchunks ▸ List.prefix_rfl)).2 hchunks
      have hread : (fs.map EventFrame.text).filterMap readEvent = fs.filterMap slotFrame := by
        rw [List.filterMap_map]
        exact List.filterMap_congr fun f hf =>
          readEvent_text (hlegible.1 f hf).1 (hlegible.1 f hf).2
      have hfirst : (t.handleConnection.receive t.conns.length chunks).events =
          t.events ++ fs.filterMap slotFrame := by
        rw [Mt5TcpServer.receive_events, hframes, hread]
        rfl
      have hrest := ih hlegible.2 (t.handleConnection.receive t.conns.length chunks)
      rw [hfirst, List.append_assoc, ← List.filterMap_append, ← List.flatten_cons] at hrest
      exact hrest

/-! ## The connection -/

/-- The reports that were sent are those among the frames that were sent. -/
theorem sent_reports (s : SlotService) : (s.reports.filter (·.2)).map Prod.fst =
    ((s.sends.filter (·.2)).map Prod.fst).filterMap EventFrame.connection := by
  unfold SlotService.reports
  induction s.sends with
  | nil => rfl
  | cons e sends ih =>
      obtain ⟨f, ok⟩ := e
      cases hf : f.connection with
      | none => cases ok <;> simpa [hf] using ih
      | some b => cases ok <;> simpa [hf] using ih

/-- The accounts that the reports name all have one reference. The login of a report is that of
the terminal, which may change during a run. -/
def Names (rows : List AccountRow) (ref : Text) (fs : List EventFrame) : Prop :=
  ∀ connected a, .account connected a ∈ fs →
    (resolveAccount rows (integerToString a.login)).map (accountRef "mt5") = some ref

section Heard

variable {numberText : Numeral → Text} {rows : List AccountRow} {ref : Text}

/-- What a report does to the record. -/
theorem get_tcpEvent_account {connected : Bool} {a : AccountInfo}
    (hnames : (resolveAccount rows (integerToString a.login)).map (accountRef "mt5") = some ref)
    {m : Mt5Connector} {rec : SessionRecord} (hrec : m.accounts.get ref = some rec) (now : ℚ) :
    ∃ rec', (m.tcpEvent numberText rows (.account (some (accountMembers connected a)) none)
        now).accounts.get ref = some rec' ∧ rec'.loggedIn = connected := by
  obtain ⟨account, haccount, href⟩ := Option.map_eq_some_iff.mp hnames
  have hlogin : Frame.loginText numberText (.account (some (accountMembers connected a)) none) =
      integerToString a.login := rfl
  refine ⟨Mt5Connector.writeAccount (accountMembers connected a) rec, ?_, rfl⟩
  rw [Mt5Connector.accounts_tcpEvent, Mt5Connector.frameWrites, hlogin, haccount]
  dsimp only [Option.map_some]
  rw [href, Registry.get_modify, if_pos rfl, hrec]
  rfl

/-- **The record keeps the last report** among the frames of the service. -/
theorem loggedIn_hears {fs : List EventFrame} (hnames : Names rows ref fs) {m : Mt5Connector}
    {rec : SessionRecord} (hrec : m.accounts.get ref = some rec) {heard : List (Frame × ℚ)}
    (hheard : heard.map Prod.fst = fs.filterMap slotFrame) :
    ∃ rec', (m.hears numberText rows heard).accounts.get ref = some rec' ∧
      rec'.loggedIn = (fs.filterMap EventFrame.connection).getLast?.getD rec.loggedIn := by
  induction fs generalizing m rec heard with
  | nil =>
      obtain rfl := List.map_eq_nil_iff.mp hheard
      exact ⟨rec, hrec, rfl⟩
  | cons f fs ih =>
      have hrest : Names rows ref fs := fun connected a h =>
        hnames connected a (List.mem_cons_of_mem _ h)
      cases f with
      | startup now =>
          obtain ⟨e, heard, rfl, he, hlater⟩ := List.map_eq_cons_iff.mp hheard
          obtain ⟨f, time⟩ := e
          obtain rfl : f = .startup _ := he
          -- the TCP server does not pass it on
          have hlast := @ih hrest m rec hrec heard hlater
          exact hlast
      | state r => exact ih hrest hrec hheard
      | trade line => exact ih hrest hrec hheard
      | account connected a =>
          obtain ⟨e, heard, rfl, he, hlater⟩ := List.map_eq_cons_iff.mp hheard
          obtain ⟨f, time⟩ := e
          obtain rfl : f = .account _ _ := he
          obtain ⟨rec', hrec', hlogged⟩ :=
            get_tcpEvent_account (hnames connected a List.mem_cons_self) hrec time
          obtain ⟨rec'', hrec'', hlast⟩ := ih hrest hrec' hlater
          refine ⟨rec'', hrec'', ?_⟩
          rw [hlast, hlogged]
          simp [EventFrame.connection, List.getLast?_cons]

end Heard

/-- **The connection that the slot shows** after a run of the service.

The calls of `send` have taken everything or failed, and all that is on the event sockets has
arrived.  Every frame is legible, the record was logged out when the service started, every
report names its account, and the connector hears the events of the service and no others.
Then the events are those of the frames that were sent, and the record is right about the
connection to the broker exactly if an even number of reports has been lost since one was
sent. -/
theorem connection_shown {pollSeconds : ℤ} {c : Start} {s₀ s : SlotService} {es : List Event}
    (hstart : onStart c = some s₀) (hrun : run (step pollSeconds) s₀ es = some s)
    (hstartup : Whole c.startupSend) (hwhole : ∀ e ∈ es, WholeSends e)
    (hlegible : ∀ e ∈ s.sends, Legible e.1) {conns : List (List Bytes)}
    (harrived : conns.map List.flatten = s.sockets.reverse.map CmdSocket.wire)
    {numberText : Numeral → Text} {rows : List AccountRow} {ref : Text}
    (hnames : Names rows ref (s.sends.map Prod.fst)) {m : Mt5Connector} {rec : SessionRecord}
    (hrec : m.accounts.get ref = some rec) (hout : rec.loggedIn = false)
    {heard : List (Frame × ℚ)}
    (hheard : heard.map Prod.fst = (({} : Mt5TcpServer).arrive conns).events) :
    (({} : Mt5TcpServer).arrive conns).events =
        ((s.sends.filter (·.2)).map Prod.fst).filterMap slotFrame ∧
      ∃ rec', (m.hears numberText rows heard).accounts.get ref = some rec' ∧
        (rec'.loggedIn = s.lastConnected ↔ Even (Toggles.missed s.reports)) := by
  obtain ⟨fss, hwires⟩ :=
    wires_of_run hstart hrun hstartup hwhole fun e he => (hlegible e he).ascii
  have hall : ∀ f ∈ (s.sends.filter (·.2)).map Prod.fst, f ∈ s.sends.map Prod.fst := fun f hf =>
    (List.filter_sublist.map _).subset hf
  have hlines : ∀ f ∈ fss.reverse.flatten, Legible f ∧ TradeLine f := by
    intro f hf
    obtain ⟨e, he, rfl⟩ := List.mem_map.mp (hall f (hwires.sent ▸ hf))
    exact ⟨hlegible e he, tradeLines_of_run hstart hrun e he⟩
  have hevents : (({} : Mt5TcpServer).arrive conns).events =
      ((s.sends.filter (·.2)).map Prod.fst).filterMap slotFrame := by
    rw [arrive_events (hwires.arrived harrived) hlines, hwires.sent]
    rfl
  refine ⟨hevents, ?_⟩
  obtain ⟨rec', hrec', hlogged⟩ :=
    loggedIn_hears (fun connected a h => hnames connected a (hall _ h)) hrec (hheard.trans hevents)
  refine ⟨rec', hrec', ?_⟩
  have hreported := SlotService.reported_run hstart hrun
  rw [hlogged, hout, ← sent_reports, List.getLast?_map, ← hreported.current]
  exact Toggles.told_eq_current_iff hreported.alternating

/-! ## A connection that is gone -/

theorem whole_takesAll : Whole SlotService.takesAll := by
  intro call offered n h
  obtain ⟨hpos, h⟩ := Option.dite_none_right_eq_some.mp h
  rw [← Option.some.inj h]

theorem whole_fails : Whole SlotService.fails := fun _ _ _ h => nomatch h

theorem plain_withGap (now : ℤ) : PlainReadings { Readings.withGap with timeCurrent := now } where
  server := show PlainText [] by decide
  name := not_hasRawControl_nil
  currency := show PlainText [] by decide
  positions := by
    intro ticket p h
    rw [← Option.some.inj h]
    show ¬ HasRawControl "EURUSD"
    decide
  orders := nofun

theorem legible_of_narrow {f : EventFrame}
    (hnarrow : (f.text.all fun c => c.toNat < 0x80 ∧ c ≠ '\n') = true)
    (hshort : utf16Length f.text ≤ Slot.recvBufMax) (hstrings : StringsPlain f) : Legible f := by
  have hall : ∀ c ∈ f.text, c.toNat < 0x80 ∧ c ≠ '\n' := by simpa using hnarrow
  exact ⟨fun c hc => (hall c hc).1, fun h => (hall _ h).2 rfl, hshort, hstrings⟩

def sampleRows : List AccountRow := [⟨"a", "t", "", "1", .active, 0⟩]

/-- The frames of the sample. -/
theorem legible_sample {fs : List EventFrame}
    (hframes : fs = [.startup 0, .state { Readings.withGap with timeCurrent := 1 },
      .account true Readings.withGap.account, .state { Readings.withGap with timeCurrent := 2 },
      .account false Readings.withGap.account]) :
    (∀ f ∈ fs, Legible f) ∧ Names sampleRows "mt5--1" fs := by
  constructor
  · simp only [hframes, List.forall_mem_cons]
    refine ⟨legible_of_narrow ?_ ?_ trivial, legible_of_narrow ?_ ?_ (plain_withGap 1),
      legible_of_narrow ?_ ?_ not_hasRawControl_nil, legible_of_narrow ?_ ?_ (plain_withGap 2),
      legible_of_narrow ?_ ?_ not_hasRawControl_nil, List.forall_mem_nil _⟩
    all_goals decide +kernel
  · intro connected a ha
    have haccount : a = Readings.withGap.account := by
      simp only [hframes, List.mem_cons, reduceCtorEq, EventFrame.account.injEq, List.not_mem_nil,
        or_false, false_or] at ha
      exact ha.elim And.right And.right
    rw [haccount]
    decide +kernel

/-- The slot goes on showing a connection that is gone. -/
theorem stale_connection : ∃ s₀ s rec, onStart SlotService.sampleStart = some s₀ ∧
    run (step 1) s₀ [.timer (SlotService.sampleTick 1 true SlotService.takesAll),
      .timer (SlotService.sampleTick 2 false SlotService.fails)] = some s ∧
    ((Mt5Connector.initial.connect ⟨"", "1"⟩).hears Numeral.text sampleRows
      ((({} : Mt5TcpServer).arrive (s.sockets.reverse.map fun k => [k.wire])).events.map
        fun f => (f, 0))).accounts.get "mt5--1" = some rec ∧
      rec.loggedIn ≠ s.lastConnected := by
  obtain ⟨s₀, s, hstart, hrun, -, hreports, hframes⟩ := SlotService.sample_run
  obtain ⟨hlegible, hnames⟩ := legible_sample hframes
  have hcalls : ∀ e ∈ [Event.timer (SlotService.sampleTick 1 true SlotService.takesAll),
      .timer (SlotService.sampleTick 2 false SlotService.fails)], WholeSends e := by
    rw [List.forall_mem_cons, List.forall_mem_singleton]
    exact ⟨⟨whole_takesAll, whole_takesAll⟩, whole_takesAll, whole_fails⟩
  have harrived : (s.sockets.reverse.map fun k => [k.wire]).map List.flatten =
      s.sockets.reverse.map CmdSocket.wire := by simp [Function.comp_def]
  have hheard : ((({} : Mt5TcpServer).arrive (s.sockets.reverse.map fun k => [k.wire])).events.map
      fun f => (f, (0 : ℚ))).map Prod.fst =
        (({} : Mt5TcpServer).arrive (s.sockets.reverse.map fun k => [k.wire])).events := by
    simp [Function.comp_def]
  have hrecord : (Mt5Connector.initial.connect ⟨"", "1"⟩).accounts.get "mt5--1" =
      some (Mt5Connector.freshRecord ⟨"", "1"⟩) := by rfl
  obtain ⟨-, rec, hrec, hright⟩ := connection_shown hstart hrun whole_takesAll hcalls
    (List.forall_mem_map.mp hlegible) harrived hnames hrecord rfl hheard
  refine ⟨s₀, s, rec, hstart, hrun, hrec, ?_⟩
  rw [Ne, hright, hreports]
  decide

end AkronSlot.Bridge
