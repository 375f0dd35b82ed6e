import AkronSlot.Bridge.QueryReplies
import AkronSlot.Mql5.CharArrays
import AkronSlot.Slot.ResponseChunks

/-!
# The responses to queries on their way

What SlotService answers to a query is one line, as long as the terminal has
entries for it.  Of this line `sentBytes` is sent, and the command client takes
that in chunks.

## When the line arrives

The exact condition is about the bytes that come (`Hands`), because SlotService
sends others than those of the line: `StringToCharArray` is given the number of
the code page as the count, and converts with the ANSI code page.  For the
responses that are made of ASCII characters and shorter than 65001 of them this
comes down to an empty receive buffer.  A response with any other character is
never handed on to an empty buffer, whatever the code page.  A longer response is
cut, and what follows is the memory behind the array; a history of five hundred
deals is one, and costs the client its connection.

## Main Results

* `queryResponse_answers` — a response to a query answers its command
* `queryResponse_delivers_iff`
-/

namespace AkronSlot.Bridge

open Wire Wire.Utf8 Mql5 Slot Systems Mt5CommandClient

/-- When the strings of the terminal need no escape, the response to a query is a
response to its command. -/
theorem queryResponse_answers (t : Terminal) {b : Broker} (hplain : PlainStrings b) (id : Uuid)
    {a : Action} (ha : a ∈ queryActions) (p : Payload)
    (hsym : a = .quote → PlainText (querySymbol (frameReader id a p))) :
    Answers id (repliedFrame t b id a p) := by
  obtain ⟨text, hframe, hprints⟩ := repliedFrame_query t (b := b) id p ha
  obtain ⟨v, rfl⟩ := hprints hplain hsym
  have hprinted : rawFrame id v.print = (responseFrame id true v).print := by
    have hline := @responseLine_printed id (some (.early v.print)) v rfl
    rw [responseLine_raw] at hline
    exact List.append_cancel_right hline
  rw [hframe, hprinted]
  exact ⟨Json.newline_notMem_print _, _, readResponse_responseFrame id true v, rfl⟩

/-- What is read as a line that was sent is ASCII, but for U+FFFD. -/
theorem ascii_of_hands {acp : CodePage} {behind : ℕ → UInt8} {frame : Text} {chunks : List Bytes}
    (hbytes : chunks.flatten = sentBytes acp behind (frame ++ ['\n']))
    (hands : Hands [] chunks frame) : ∀ c ∈ frame, c.toNat < 0x80 ∨ c = replacement := by
  obtain ⟨rest, -, htext⟩ := hands.line
  have hline : decodeAll chunks = (frame ++ ['\n']) ++ rest := by
    rw [← List.nil_append (decodeAll chunks), htext, List.append_assoc, List.singleton_append]
  have hall := ascii_of_sentBytes acp behind hbytes hline
  exact fun c hc => hall c (List.mem_append_left _ hc)

/-- **The response to a command reaches it exactly if** it is one line of JSON that
answers the command, and the chunks of what is sent hand it on behind what is in the
receive buffer.  For a short response of ASCII characters that means that the buffer is
empty.  A longer one is never handed on, unless the memory behind the array supplies a
newline, nor is one with a character beyond ASCII and U+FFFD to an empty buffer. -/
theorem queryResponse_delivers_iff {es : List Event} {s : Mt5CommandClient} {c i : ℕ} {k : Socket}
    {call : Call} {chunks : List Bytes} (hrun : run step initial es = some s)
    (hk : s.sockets[c]? = some k) (hlive : k.Live = true) (hcall : s.calls.made[i]? = some call)
    (hwritten : call.written = true) (htimer : call.timer = true)
    (t : Terminal) (b : Broker) (a : Action) (p : Payload) (acp : CodePage) (behind : ℕ → UInt8)
    (hbytes : chunks.flatten = sentBytes acp behind
      (handleCommandAndRespond t (queryHandlers b) (frameReader call.id a p)).1) :
    (s.Delivers c i (repliedFrame t b call.id a p) chunks ↔
      Answers call.id (repliedFrame t b call.id a p) ∧
        Hands s.recvBuf chunks (repliedFrame t b call.id a p)) ∧
    (AllAscii (repliedFrame t b call.id a p) →
      utf16Length (repliedFrame t b call.id a p) < cpUtf8 →
      (s.Delivers c i (repliedFrame t b call.id a p) chunks ↔
        s.recvBuf = [] ∧ Answers call.id (repliedFrame t b call.id a p))) ∧
    (AllAscii (repliedFrame t b call.id a p) →
      cpUtf8 ≤ utf16Length (repliedFrame t b call.id a p) → (∀ n, behind n ≠ newline) →
      ¬ s.Delivers c i (repliedFrame t b call.id a p) chunks) ∧
    (s.recvBuf = [] → s.Delivers c i (repliedFrame t b call.id a p) chunks →
      ∀ ch ∈ repliedFrame t b call.id a p, ch.toNat < 0x80 ∨ ch = replacement) := by
  have hiff := @delivers_iff s c i k call (repliedFrame t b call.id a p) chunks es hrun hk hlive
    hcall hwritten htimer
  have hbuffering : s.Buffering :=
    run_invariant (fun _ _ _ hs h => Buffering.step hs h) buffering_initial hrun
  rw [replied_line] at hbytes
  refine ⟨hiff, fun hascii hshort => ?_, fun hascii hlong hbehind hdelivers => ?_,
    fun hempty hdelivers => ?_⟩
  · have hroom : utf16Length (repliedFrame t b call.id a p ++ ['\n']) ≤ maxBuffered := by
      rw [utf16Length_line]
      exact (Nat.succ_le_of_lt hshort).trans (by decide)
    rw [sentBytes_line acp behind hascii hshort] at hbytes
    rw [hiff, and_comm]
    exact and_congr_left fun hanswers =>
      hands_ascii_iff hanswers.1 hascii hroom hbytes hbuffering.noNewline
  · obtain ⟨⟨hopen, -⟩, hands⟩ := hiff.mp hdelivers
    have hcut := newline_notMem_sentBytes_ascii acp behind hascii hopen hlong hbehind
    exact not_hands_of_open hbuffering.noNewline (hbytes ▸ hcut) _ hands
  · have hands := (hiff.mp hdelivers).2
    rw [hempty] at hands
    exact ascii_of_hands hbytes hands

/-! ## A list of symbols -/

/-- A terminal that knows nothing. -/
def emptyBroker : Broker where
  symbols := []
  positions := []
  orders := []
  deals := []
  account := ⟨0, [], [], [], [], 0, true, 0, 0, 0, 0, 0, 0⟩
  now := 0

/-- The payload of the `symbols` query without a filter. -/
def noPayload : Payload := ⟨[], Payload.nodup_nil⟩

/-- A terminal without positions that accepts everything. -/
def sampleTerminal : Terminal := flatTerminal true ⟨10009, 7, []⟩

/-- The response to the `symbols` query. -/
def symbolsLine : Text :=
  (handleCommandAndRespond sampleTerminal (queryHandlers emptyBroker)
    (frameReader sampleId .symbols noPayload)).1

/-- The line of the response. -/
def symbolsText : Text :=
  "\x7b\"type\":\"response\",\"id\":\"".toList ++ sampleId.text ++
    "\",\"ok\":true,\"result\":\x7b\"count\":0,\"symbols\":[]\x7d\x7d".toList

theorem symbolsText_replied :
    repliedFrame sampleTerminal emptyBroker sampleId .symbols noPayload = symbolsText := by
  decide +kernel

/-- An empty list of symbols is delivered, cut in the middle. -/
theorem emptySymbols_delivers : afterWritten.Delivers 0 0
    (repliedFrame sampleTerminal emptyBroker sampleId .symbols noPayload)
    [(encode symbolsLine).take 20, (encode symbolsLine).drop 20] := by
  have hplain : PlainStrings emptyBroker := by
    refine ⟨?_, ?_, ?_, ?_, ?_⟩ <;> simp [emptyBroker, PlainText]
  have hascii : AllAscii symbolsText := allAscii_of_all (by decide +kernel)
  have hshort : utf16Length symbolsText < cpUtf8 := by decide +kernel
  have hline : symbolsLine = symbolsText ++ ['\n'] := by
    rw [symbolsLine, replied_line, symbolsText_replied]
  have hbytes : [(encode symbolsLine).take 20, (encode symbolsLine).drop 20].flatten =
      sentBytes asciiPage (fun _ => 0) symbolsLine := by
    rw [hline, sentBytes_line asciiPage _ hascii hshort]
    simp
  have hiff := @queryResponse_delivers_iff written afterWritten 0 0
    { written := [sampleFrame], connected := true } Mt5CommandClient.sampleCall
    [(encode symbolsLine).take 20, (encode symbolsLine).drop 20] run_written rfl rfl rfl rfl rfl
    sampleTerminal emptyBroker .symbols noPayload asciiPage (fun _ => 0) hbytes
  refine (hiff.2.1 ?_ ?_).mpr ⟨rfl, ?_⟩
  · exact symbolsText_replied ▸ hascii
  · exact symbolsText_replied ▸ hshort
  · exact queryResponse_answers _ hplain _ (by simp [queryActions]) _ (by simp)

/-! ## A history of five hundred deals -/

/-- A deal. -/
def buyDeal (n : ℕ) : DealRow where
  ticket := n + 1
  order := 0
  positionId := 0
  symbol := "EURUSD"
  entry := .in_
  type := .buy
  volume := 1
  price := 1
  profit := 0
  commission := 0
  swap := 0
  time := 1700000000

/-- A terminal with five hundred deals of today. -/
def busyBroker : Broker :=
  { emptyBroker with deals := (List.range 500).map buyDeal, now := 1700000000 }

theorem mem_busyDeals {d : DealRow} (h : d ∈ busyBroker.deals) : ∃ n, d = buyDeal n := by
  simp only [busyBroker, List.mem_map] at h
  obtain ⟨n, -, hn⟩ := h
  exact ⟨n, hn.symm⟩

/-- The payload of the `history` query with the largest limit of the REST API. -/
def historyPayload : Payload where
  entries := [("account_id", .str "10042"), ("limit", .num (Numeral.ofNat 1000))]
  nodup_keys := by decide

/-- `JsonField` on the command of the query. -/
def historyReader : Reader := frameReader sampleId .history historyPayload

/-- The members after the first one have the length of their parts. -/
theorem length_objectText_cons (key value : Text) (ms : List (Text × Text)) :
    (objectText ((key, value) :: ms)).length =
      4 + key.length + value.length + (membersText ms).length := by
  simp [objectText]
  omega

/-- A list is as long as its items, and longer. -/
theorem length_arrayText_ge {items : List Text} {n : ℕ} (h : ∀ t ∈ items, n ≤ t.length) :
    n * items.length ≤ (arrayText items).length := by
  have helements : ∀ {items : List Text}, (∀ t ∈ items, n ≤ t.length) →
      n * items.length ≤ (elementsText items).length := by
    intro items h
    induction items with
    | nil => simp
    | cons t items ih =>
        have ht := h t (by simp)
        have hrest := ih fun t ht => h t (List.mem_cons_of_mem _ ht)
        simp only [elementsText, List.length_cons, List.length_append, Nat.mul_succ]
        omega
  cases items with
  | nil => simp
  | cons t items =>
      have ht := h t (by simp)
      have hrest := helements fun t ht => h t (List.mem_cons_of_mem _ ht)
      simp only [arrayText, List.length_cons, List.length_append, Nat.mul_succ]
      omega

/-- The members of such a deal after the ticket. -/
def buyDealMembers : List (Text × Text) :=
  [("order", integerToString 0), ("position_id", integerToString 0), ("symbol", rawString "EURUSD"),
    ("entry", rawString "in"), ("type", rawString "buy"), ("volume", doubleToString 1 2),
    ("price", doubleToString 1 5), ("profit", doubleToString 0 2),
    ("commission", doubleToString 0 2), ("swap", doubleToString 0 2),
    ("time", intText 1700000000)]

theorem length_dealText_ge (n : ℕ) : 150 ≤ (dealText (buyDeal n)).length := by
  have hdeal : dealText (buyDeal n) =
      objectText (("ticket", ticketText (n + 1)) :: buyDealMembers) := rfl
  have hmembers : 150 ≤ (membersText buyDealMembers).length := by decide +kernel
  rw [hdeal, length_objectText_cons]
  omega

/-- Without a range and a limit, up to five hundred deals of the last day are all
answered. -/
theorem historyDeals_default {b : Broker} {field : Reader} (hstart : field "payload.from" = [])
    (hstop : field "payload.to" = []) (hlimit : field "payload.limit" = [])
    (hdeals : ∀ d ∈ b.deals, b.now - 86400 ≤ d.time ∧ d.time ≤ b.now ∧ d.ticket ≠ 0 ∧
      d.entry ≠ .out)
    (hlength : b.deals.length ≤ 500) : historyDeals b field = b.deals := by
  have hzero : stringToInteger [] = 0 := by decide
  have hdefault : asInt (asUlong 0) = 0 := by decide
  unfold historyDeals
  dsimp only
  rw [hstart, hstop, hlimit, hzero, hdefault, if_pos rfl, if_pos rfl, if_pos (.inl le_rfl),
    List.filter_eq_self.mpr, List.filter_eq_self.mpr]
  · exact List.take_of_length_le hlength
  · intro d hd
    obtain ⟨hfrom, hto, -, -⟩ := hdeals d hd
    simp [hfrom, hto]
  · intro d hd
    obtain ⟨-, -, hticket, hentry⟩ := hdeals d (List.mem_of_mem_filter hd)
    simp [hticket, hentry]

/-- All the deals are answered: of the limit `JsonField` finds nothing, because it
is the second member of the payload. -/
theorem historyDeals_busy : historyDeals busyBroker historyReader = busyBroker.deals := by
  have hstart : historyReader "payload.from" = [] := by decide +kernel
  have hstop : historyReader "payload.to" = [] := by decide +kernel
  have hlimit : historyReader "payload.limit" = [] := by decide +kernel
  apply historyDeals_default hstart hstop hlimit
  · intro d hd
    obtain ⟨n, rfl⟩ := mem_busyDeals hd
    simp [buyDeal, busyBroker]
  · simp [busyBroker]

/-- The answer is as long as its deals, and longer. -/
theorem length_handleHistory_ge {b : Broker} {field : Reader} {n : ℕ}
    (h : ∀ d ∈ historyDeals b field, n ≤ (dealText d).length) :
    n * (historyDeals b field).length ≤ (handleHistory b field).length := by
  have harray := @length_arrayText_ge ((historyDeals b field).map dealText) n (by simpa using h)
  rw [List.length_map] at harray
  rw [handleHistory, length_objectText_cons]
  simp only [membersText, List.length_cons, List.length_append]
  omega

theorem length_rawFrame_ge (id : Uuid) (result : Text) :
    result.length ≤ (rawFrame id result).length := by
  simp only [rawFrame, List.length_cons, List.length_append]
  omega

/-- The response to the `history` query, without its newline. -/
def historyFrame : Text := repliedFrame sampleTerminal busyBroker sampleId .history historyPayload

/-- It is one line of JSON that answers the query. -/
theorem historyFrame_answers : Answers sampleId historyFrame := by
  refine queryResponse_answers _ ⟨?_, ?_, ?_, ?_, ?_⟩ _ (by simp [queryActions]) _ (by simp)
  · simp [busyBroker, emptyBroker]
  · simp [busyBroker, emptyBroker]
  · simp [busyBroker, emptyBroker]
  · intro d hd
    obtain ⟨n, rfl⟩ := mem_busyDeals hd
    show PlainText "EURUSD"
    decide
  · simp [busyBroker, emptyBroker, PlainText]

theorem length_historyFrame : 70000 ≤ historyFrame.length := by
  have hframe : historyFrame = rawFrame sampleId (handleHistory busyBroker historyReader) := by
    have hline := replied_line sampleTerminal sampleId historyPayload busyBroker .history
    have hhandle : handle sampleTerminal (queryHandlers busyBroker) historyReader
        Action.history.name = some (.early (handleHistory busyBroker historyReader)) := rfl
    have haction : historyReader "action" = Action.history.name := frameReader_action _ _ _
    have hid : historyReader "id" = sampleId.text := frameReader_id _ _ _
    have hraw := responseLine_raw sampleId (.early (handleHistory busyBroker historyReader))
    rw [← hid, ← hhandle, ← haction] at hraw
    exact (List.append_cancel_right (hraw.symm.trans hline)).symm
  have hdeals : busyBroker.deals.length = 500 := by simp [busyBroker]
  have htext : 150 * (historyDeals busyBroker historyReader).length ≤
      (handleHistory busyBroker historyReader).length := by
    apply length_handleHistory_ge
    intro d hd
    rw [historyDeals_busy] at hd
    obtain ⟨n, rfl⟩ := mem_busyDeals hd
    exact length_dealText_ge n
  rw [historyDeals_busy, hdeals] at htext
  rw [hframe]
  calc 70000 ≤ 150 * 500 := by decide
    _ ≤ (handleHistory busyBroker historyReader).length := htext
    _ ≤ _ := length_rawFrame_ge _ _

/-- The query is made. -/
def askHistory : List Event :=
  [.connected 0, .dispatch sampleId "history" historyPayload.toJson, .ensured 0, .execute 0]

/-- What is sent of the response on a system where zeros lie behind the array. -/
def historyBytes : Bytes :=
  sentBytes asciiPage (fun _ => 0) (handleCommandAndRespond sampleTerminal
    (queryHandlers busyBroker) (frameReader sampleId .history historyPayload)).1

/-- **The response to a query is lost**: the history of five hundred deals is cut before
its newline, and in one chunk or in several it never reaches its command. -/
theorem busyHistory_not_delivered : ∃ s k call, run step initial askHistory = some s ∧
    s.sockets[0]? = some k ∧ k.Live = true ∧ s.calls.made[0]? = some call ∧ call.id = sampleId ∧
    call.written = true ∧ call.timer = true ∧ s.recvBuf = [] ∧ Answers sampleId historyFrame ∧
    ∀ chunks : List Bytes, chunks.flatten = historyBytes →
      ¬ s.Delivers 0 0 historyFrame chunks := by
  have hlong : cpUtf8 ≤ (asciiPage.bytes historyFrame).length :=
    (le_trans (by decide) length_historyFrame).trans (length_le_asciiPage _)
  have hopen : newline ∉ historyBytes := by
    rw [historyBytes, replied_line]
    exact newline_notMem_sentBytes _ _ (asciiPage_line historyFrame)
      (newline_notMem_asciiPage historyFrame_answers.1) hlong fun _ => by decide
  refine ⟨_, _, _, rfl, rfl, rfl, rfl, rfl, rfl, rfl, rfl, historyFrame_answers,
    fun chunks hchunks hdelivers => ?_⟩
  have hands := (hdelivers.conditions (by decide) rfl rfl).2
  exact not_hands_of_open (by decide) (hchunks ▸ hopen) _ hands

end AkronSlot.Bridge
