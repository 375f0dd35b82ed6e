import AkronSlot.Bridge.ReplyPieces
import AkronSlot.Bridge.TradeEvents
import AkronSlot.Mql5.SlotService
import AkronSlot.Slot.TcpServer

/-!
# What the slot makes of the frames of the service

The startup frame and the reports of the connection to the broker are events of the schemas of
the TCP server.  A snapshot has a kind that none of them knows, and it is not even JSON when the
terminal has no ticket at its highest index; the line of a trade transaction is no JSON at all.

## Events and the rest

Only two of the four kinds of frames are meant to be events. For a snapshot one has to know that
it is refused whatever is in it: its kind is no kind of a schema, and where it is no JSON it is
refused before that. `stateJson_prints_or_unreadable` is this alternative. The hole that makes a
snapshot unreadable is the comma of an entry that was skipped.

## Main Definitions

* `readEvent` — what a line is passed on as
* `slotFrame` — what should come of a frame
* `Legible`

## Main Results

* `stateJson_prints_or_unreadable`
* `readEvent_text`
-/

namespace AkronSlot.Bridge

open Wire Systems Mql5 Slot

/-! ## Formats with a hole -/

/-- No value is read at the beginning of the text. -/
def Unreadable (t : Text) : Prop := ∀ u v r, ¬ Json.Reads (t ++ u) v r

theorem Unreadable.parse_eq_none {t : Text} (h : Unreadable t) : Json.parse t = none := by
  cases hparse : Json.parse t with
  | none => rfl
  | some v =>
      obtain ⟨r, hreads, -⟩ := Json.parse_eq_some_iff.mp hparse
      exact absurd (by rwa [List.append_nil]) (h [] v r)

/-- A comma starts no value. -/
theorem not_reads_comma {t r : Text} {v : Json} : ¬ Json.Reads (',' :: t) v r := by
  have hskip : Json.skipBlanks (',' :: t) = ',' :: t := Json.skipBlanks_cons (by decide)
  rintro (h | h | h | h | h | h | h | h | h)
  all_goals rw [hskip] at h
  all_goals cases h

/-- An array does not begin with a comma. -/
theorem unreadable_gap (t : Text) : Unreadable ('[' :: ',' :: t) := by
  intro u v r h
  have hskip : Json.skipBlanks (',' :: (t ++ u)) = ',' :: (t ++ u) :=
    Json.skipBlanks_cons (by decide)
  rw [List.cons_append, List.cons_append] at h
  rcases Json.reads_bracket h with hclose | ⟨vs, -, helems⟩
  · rw [hskip] at hclose
    cases hclose
  · rw [hskip] at helems
    rcases helems with hvalue | hvalue
    · exact not_reads_comma hvalue
    · exact not_reads_comma hvalue

theorem membersText_cons {k : Text} (hk : PlainText k) (v : Text) (ms : List (Text × Text)) :
    membersText ((k, v) :: ms) = ',' :: (quote k ++ ':' :: (v ++ membersText ms)) := by
  rw [quote_append, escapeText_of_plain hk]
  rfl

/-- A format whose first unprintable value cannot be read is not read. -/
theorem not_readsMembers_hole {k t : Text} {before after : List (Text × Text)}
    (hkeys : ∀ key ∈ (before ++ (k, t) :: after).map Prod.fst, PlainText key)
    (hbefore : ∀ value ∈ before.map Prod.snd, Prints value) (h : Unreadable t) :
    ∀ x u ms r, membersText (before ++ (k, t) :: after) = ',' :: x →
      ¬ Json.ReadsMembers (x ++ u) ms r := by
  induction before with
  | nil =>
      intro x u ms r hx hreads
      rw [List.nil_append, List.map_cons, List.forall_mem_cons] at hkeys
      rw [List.nil_append, membersText_cons hkeys.1] at hx
      obtain rfl := (List.cons.inj hx).2
      rw [List.append_assoc, List.cons_append, List.append_assoc] at hreads
      rcases hreads with ⟨hkey, hvalue⟩ | ⟨hkey, hvalue⟩
      · obtain ⟨-, rfl⟩ := Json.readsKey_quote hkey
        exact h _ _ _ hvalue
      · obtain ⟨-, rfl⟩ := Json.readsKey_quote hkey
        exact h _ _ _ hvalue
  | cons m before ih =>
      intro x u ms r hx hreads
      obtain ⟨k', value⟩ := m
      rw [List.cons_append, List.map_cons, List.forall_mem_cons] at hkeys
      rw [List.map_cons, List.forall_mem_cons] at hbefore
      rw [List.cons_append, membersText_cons hkeys.1] at hx
      obtain rfl := (List.cons.inj hx).2
      obtain ⟨v, rfl⟩ := hbefore.1
      obtain ⟨y, hy⟩ : ∃ y, membersText (before ++ (k, t) :: after) = ',' :: y := by
        cases before with
        | nil => exact ⟨_, rfl⟩
        | cons m' before => exact ⟨_, rfl⟩
      rw [hy, List.append_assoc, List.cons_append, List.append_assoc, List.cons_append] at hreads
      obtain ⟨ns, -, hrest⟩ := hreads.print_member
      exact ih hkeys.2 hbefore.2 y u ns r hy hrest

/-- **A format with a hole is not read.** -/
theorem unreadable_object {k t : Text} {before after : List (Text × Text)}
    (hkeys : PlainKeys ((before ++ (k, t) :: after).map Prod.fst))
    (hbefore : ∀ value ∈ before.map Prod.snd, Prints value) (h : Unreadable t) :
    Unreadable (objectText (before ++ (k, t) :: after)) := by
  rw [plainKeys_iff] at hkeys
  obtain ⟨x, hx, htext⟩ : ∃ x, membersText (before ++ (k, t) :: after) = ',' :: '"' :: x ∧
      objectText (before ++ (k, t) :: after) = '{' :: '"' :: x := by
    cases before with
    | nil => exact ⟨_, rfl, rfl⟩
    | cons m before => exact ⟨_, rfl, rfl⟩
  intro u v r hreads
  rw [htext, List.cons_append, List.cons_append] at hreads
  have hskip : Json.skipBlanks ('"' :: (x ++ u)) = '"' :: (x ++ u) :=
    Json.skipBlanks_cons (by decide)
  rcases Json.reads_brace hreads with hclose | ⟨ms, -, hmembers⟩
  · rw [hskip] at hclose
    cases hclose
  · rw [hskip] at hmembers
    exact not_readsMembers_hole hkeys hbefore h ('"' :: x) u ms r hx hmembers

/-! ## The snapshot -/

/-- The strings of a terminal need no escape that they do not get. -/
structure PlainReadings (r : Readings) : Prop where
  server : PlainText r.account.server
  name : ¬ HasRawControl r.account.name
  currency : PlainText r.account.currency
  positions : ∀ ticket p, r.positionSelectByTicket ticket = some p → ¬ HasRawControl p.symbol
  orders : ∀ ticket o, r.orderSelect ticket = some o → ¬ HasRawControl o.symbol

section Snapshot

variable {r : Readings}

theorem not_hasRawControl_nil : ¬ HasRawControl [] := by simp [HasRawControl]

theorem prints_intText (i : ℤ) : Prints (intText i) := prints_integer _

theorem prints_integerString (i : ℤ) : Prints (rawString (integerToString i)) :=
  prints_raw (escapeText_eq_self_iff.mp (escapeText_integerToString i))

/-- The keys of the snapshot. -/
theorem plain_stateKeys :
    PlainKeys ["login", "server", "name", "currency", "balance", "equity", "margin", "free_margin",
      "leverage", "trade_allowed"] ∧
    PlainKeys ["id", "account_id", "instrument", "side", "qty", "avg_price", "sl", "tp"] ∧
    PlainKeys ["id", "account_id", "instrument", "side", "type", "qty", "price", "status"] ∧
    PlainKeys ["account", "positions", "orders"] ∧
    PlainKeys ["type", "kind", "ts", "data"] := by decide +kernel

theorem stateAccount_prints (h : PlainReadings r) : Prints r.stateAccount := by
  unfold Readings.stateAccount
  refine (prints_format (by simp only [List.map_cons, List.map_nil]; exact plain_stateKeys.1)
    ?_).prints
  simp only [List.map_cons, List.map_nil, List.forall_mem_cons, prints_integerString,
    prints_raw h.server, prints_escaped h.name, prints_raw h.currency, prints_double,
    prints_intText, prints_bool]
  simp

theorem positionGetSymbol_plain (h : PlainReadings r) (index : ℤ) (selected : PositionRow) :
    ¬ HasRawControl (r.positionGetSymbol index selected).1 := by
  unfold Readings.positionGetSymbol
  split
  · split
    · next p hp => exact h.positions _ _ hp
    · exact not_hasRawControl_nil
  · exact not_hasRawControl_nil

theorem statePosition_prints (h : PlainReadings r) {i : ℕ} {t : Text}
    (ht : r.statePosition i = some t) : Prints t := by
  unfold Readings.statePosition at ht
  obtain ⟨-, ht⟩ := Option.ite_none_left_eq_some.mp ht
  obtain ⟨selected, -, rfl⟩ := Option.map_eq_some_iff.mp ht
  have hsymbol := positionGetSymbol_plain h (asInt (r.positionGetTicket i)) selected
  generalize r.positionGetSymbol (asInt (r.positionGetTicket i)) selected = pair at hsymbol ⊢
  obtain ⟨sym, p⟩ := pair
  have hside : PlainText (if p.type = .buy then "long" else "short") := by split <;> decide
  have hnone : PlainText [] := by decide
  refine (prints_format (by simp only [List.map_cons, List.map_nil]; exact plain_stateKeys.2.1)
    ?_).prints
  simp only [List.map_cons, List.map_nil, List.forall_mem_cons, ← integerToString_natCast,
    prints_integerString, prints_raw hnone, prints_escaped hsymbol, prints_raw hside,
    prints_double]
  simp

theorem stateOrder_prints (h : PlainReadings r) {i : ℕ} {t : Text}
    (ht : r.stateOrder i = some t) : Prints t := by
  unfold Readings.stateOrder at ht
  obtain ⟨-, ht⟩ := Option.ite_none_left_eq_some.mp ht
  obtain ⟨o, ho, rfl⟩ := Option.map_eq_some_iff.mp ht
  have hsymbol := h.orders _ _ ho
  have hside : PlainText (if r.isBuy o (r.orderGetTicket i) then "buy" else "sell") := by
    split <;> decide
  have htype : PlainText (if o.type = some .buy ∨ o.type = some .sell then "market" else "limit") :=
    by split <;> decide
  have hnone : PlainText [] := by decide
  refine (prints_format (by simp only [List.map_cons, List.map_nil]; exact plain_stateKeys.2.2.1)
    ?_).prints
  simp only [List.map_cons, List.map_nil, List.forall_mem_cons, ← integerToString_natCast,
    prints_integerString, prints_raw hnone, prints_escaped hsymbol, prints_raw hside,
    prints_raw htype, prints_double, prints_intText]
  simp

/-- A loop that counts down writes an array, or a comma at once. -/
theorem joinDown_prints_or_unreadable {item : ℕ → Option Text}
    (hitem : ∀ i t, item i = some t → Prints t) (n : ℕ) :
    Prints (bracketed fun out => joinDown comma item out n) ∨
      Unreadable (bracketed fun out => joinDown comma item out n) := by
  have hprints : KeepsHighest item n →
      Prints (bracketed fun out => joinDown comma item out n) := by
    intro hkeeps
    rw [(bracketed_joinDown_iff item n).mpr hkeeps]
    refine prints_array fun t ht => ?_
    obtain ⟨i, -, hi⟩ := List.mem_filterMap.mp ht
    exact hitem i t hi
  cases n with
  | zero => exact .inl (hprints fun i hi => absurd hi (Nat.not_lt_zero i))
  | succ n =>
      cases hlast : item n with
      | some t => exact .inl (hprints fun i _ _ => by simp [hlast])
      | none =>
          rw [bracketed, joinDown_succ, hlast, Option.getD_none, List.nil_append]
          cases hkept : (downFrom n).filterMap item with
          | nil => exact .inl ⟨.arr [], rfl⟩
          | cons t ts => exact .inr (unreadable_gap _)

/-- **The snapshot is the text of a value, or of none.** -/
theorem stateJson_prints_or_unreadable (h : PlainReadings r) :
    Prints r.buildStateJson ∨ Unreadable r.buildStateJson := by
  have haccount := stateAccount_prints h
  have hkeys : PlainKeys ["account", "positions", "orders"] := plain_stateKeys.2.2.2.1
  unfold Readings.buildStateJson
  rcases joinDown_prints_or_unreadable (fun _ _ => statePosition_prints h) r.positionsTotal with
    hpositions | hpositions
  · rcases joinDown_prints_or_unreadable (fun _ _ => stateOrder_prints h) r.ordersTotal with
      horders | horders
    · refine .inl (prints_format
        (by simp only [List.map_cons, List.map_nil]; exact hkeys) ?_).prints
      simp only [List.map_cons, List.map_nil, List.forall_mem_cons]
      exact ⟨haccount, hpositions, horders, by simp⟩
    · refine .inr (@unreadable_object "orders" _ [("account", _), ("positions", _)] [] hkeys ?_
        horders)
      simp only [List.map_cons, List.map_nil, List.forall_mem_cons]
      exact ⟨haccount, hpositions, by simp⟩
  · refine .inr (@unreadable_object "positions" _ [("account", _)] [("orders", _)] hkeys ?_
      hpositions)
    simpa using haccount

end Snapshot

/-! ## Events -/

/-- What `dispatch` passes to `handleEvent`. -/
def eventFrame (v : Json) : Option Frame :=
  match anyFrame v with
  | some (.response _ _ _ _) => none
  | frame => frame

/-- The event that a line is. -/
def readEvent (line : Text) : Option Frame := (Json.parse line).bind eventFrame

/-- The data of a report. -/
def accountMembers (connected : Bool) (a : AccountInfo) : List (Text × Json) :=
  [("logged_in", .bool connected), ("login", .str (integerToString a.login)),
    ("server", .str a.server), ("balance", .num (Numeral.fixed 2 a.balance)),
    ("equity", .num (Numeral.fixed 2 a.equity))]

/-- The event that a frame of the service is; a snapshot and the line of a trade transaction are
none. -/
def slotFrame : EventFrame → Option Frame
  | .startup now => some (.startup (some (integerNumeral (now * 1000))))
  | .account connected a => some (.account (some (accountMembers connected a)) none)
  | .state _ | .trade _ => none

/-- The strings of the terminal need no other escapes than they get. -/
def StringsPlain : EventFrame → Prop
  | .state r => PlainReadings r
  | .account _ a => ¬ HasRawControl a.server
  | .startup _ | .trade _ => True

/-- One line of ASCII that the buffers hold, with strings that need no other escapes than they
get. `SendFrame` counts characters where it needs bytes, so that more than ASCII would lose the
end of the line. -/
structure Legible (f : EventFrame) : Prop where
  ascii : AllAscii f.text
  oneLine : '\n' ∉ f.text
  short : utf16Length f.text ≤ Slot.recvBufMax
  strings : StringsPlain f

/-- A line of a trade transaction. -/
def TradeLine (f : EventFrame) : Prop :=
  ∀ line, f = .trade line → ∃ now trans, onTradeTransaction now trans = some line

theorem readEvent_print (v : Json) : readEvent v.print = eventFrame v := by
  rw [readEvent, Json.parse_print]
  rfl

theorem startup_text (now : ℤ) : (EventFrame.startup now).text =
    Json.print (.obj [("type", .str "event"), ("kind", .str "startup"),
      ("ts", .num (integerNumeral (now * 1000)))]) := by
  simp only [EventFrame.text, timeToMs, integerToString_eq]
  rfl

theorem account_text (connected : Bool) {a : AccountInfo} (h : ¬ HasRawControl a.server) :
    (EventFrame.account connected a).text =
      Json.print (.obj [("type", .str "event"), ("kind", .str "account"),
        ("data", .obj (accountMembers connected a))]) := by
  have hserver : jsonEscape a.server = escapeText a.server := (escaped_eq_iff a.server).mpr h
  have hlogin := escapeText_integerToString a.login
  simp only [EventFrame.text, accountMembers, objectText, membersText, rawString, hserver,
    Json.print, Json.printMembers, quote, hlogin, doubleToString]
  cases connected <;> rfl

/-- A snapshot that is the text of a value. -/
theorem state_text (r : Readings) {d : Json} (h : r.buildStateJson = d.print) :
    (EventFrame.state r).text =
      Json.print (.obj [("type", .str "event"), ("kind", .str "state"),
        ("ts", .num (integerNumeral (r.timeCurrent * 1000))), ("data", d)]) := by
  simp only [EventFrame.text, timeToMs, integerToString_eq, h]
  rfl

/-- **No snapshot is an event.** -/
theorem readEvent_state {r : Readings} (h : PlainReadings r) :
    readEvent (EventFrame.state r).text = none := by
  rcases stateJson_prints_or_unreadable h with ⟨d, hd⟩ | hhole
  · rw [state_text r hd, readEvent_print]
    rfl
  · have htime : Prints (timeToMs r.timeCurrent) := prints_integer _
    have hword : ∀ w ∈ ["event".toList, "state".toList], Prints (rawString w) := by
      simp only [List.forall_mem_cons]
      exact ⟨prints_raw (by decide), prints_raw (by decide), by simp⟩
    have hframe : Unreadable (EventFrame.state r).text := by
      refine @unreadable_object "data" _ [("type", _), ("kind", _), ("ts", _)] []
        plain_stateKeys.2.2.2.2 ?_ hhole
      simp only [List.map_cons, List.map_nil, List.forall_mem_cons]
      exact ⟨hword _ (by simp), hword _ (by simp), htime, by simp⟩
    rw [readEvent, hframe.parse_eq_none]
    rfl

/-- **What the slot makes of a frame of the service.** -/
theorem readEvent_text {f : EventFrame} (h : Legible f) (htrade : TradeLine f) :
    readEvent f.text = slotFrame f := by
  cases f with
  | startup now =>
      rw [startup_text, readEvent_print]
      rfl
  | state r => exact readEvent_state h.strings
  | account connected a =>
      rw [account_text connected h.strings, readEvent_print]
      rfl
  | trade line =>
      obtain ⟨now, trans, hline⟩ := htrade line rfl
      have hnone : Json.parse (EventFrame.trade line).text = none :=
        onTradeTransaction_rejected hline
      rw [readEvent, hnone]
      rfl

end AkronSlot.Bridge
