import AkronSlot.Bridge.TradeReplies
import AkronSlot.Mql5.Queries

/-!
# What the queries answer

A query handler writes its answer with format strings.  The answer is the text of
a JSON value when the strings of the terminal that are put in as they are need no
escape, and when those that go through `JsonEscape` hold none of the control
characters it leaves alone.  Number, size and order of the entries play no part.

## Formats as objects

A format string with its arguments is an object whose keys are in the format and whose values
are the arguments. Each lemma of the form `…_prints` says so for one handler, and they all come
from one about formats in general, since the handlers differ in their keys only. What can go
wrong is the escaping of strings, so that is the one hypothesis (`PlainStrings`), and it is
about the terminal.

## Main Definitions

* `Prints` — a text that a JSON value prints as
* `PlainStrings` — the strings of a terminal that need no escape

## Main Results

* `replied_line` — an answer is one line
* `repliedFrame_query` — the line of an answer that prints is a response to its command
-/

namespace AkronSlot.Bridge

open Wire Mql5 Slot

/-- A JSON value prints as the text. The value is unique, as printing is injective, so that a text
that prints is as good as the value. -/
def Prints (text : Text) : Prop := ∃ v : Json, text = v.print

/-- A text that needs no escape in a string literal. The directive `%s` between quotes is right
for these texts and for no others. -/
def PlainText (s : Text) : Prop := ∀ c ∈ s, Plain c

instance decidablePlainText (s : Text) : Decidable (PlainText s) :=
  List.decidableBAll Plain s

/-! ## Directives -/

@[simp] theorem prints_integer (i : ℤ) : Prints (integerToString i) := by
  refine ⟨.num ⟨decide (i < 0), Whole.ofNat i.natAbs, [], none⟩, ?_⟩
  unfold integerToString
  split
  · next h => simp [Json.print, Numeral.text, Numeral.fracText, Numeral.expText, natText, h]
  · next h => simp [Json.print, Numeral.text, Numeral.fracText, Numeral.expText, natText, h]

@[simp] theorem prints_double (x : ℚ) (digits : ℕ) : Prints (doubleToString x digits) :=
  ⟨.num (Numeral.fixed digits x), rfl⟩

@[simp] theorem prints_bool (b : Bool) : Prints (boolText b) := by
  refine ⟨.bool b, ?_⟩
  cases b <;> rfl

theorem prints_raw {s : Text} (h : PlainText s) : Prints (rawString s) := by
  refine ⟨.str s, ?_⟩
  rw [Json.print, quote, escapeText_of_plain h]
  rfl

theorem prints_escaped {s : Text} (h : ¬ HasRawControl s) : Prints (rawString (jsonEscape s)) := by
  refine ⟨.str s, ?_⟩
  rw [Json.print, quote, jsonEscape_eq_escapeText (by simpa [HasRawControl] using h)]
  rfl

/-! ## Objects and lists -/

/-- A text is an object with these keys, in this order, whatever their values are. -/
def PrintsObject (keys : List Text) (text : Text) : Prop :=
  ∃ js, text = (Json.obj js).print ∧ js.map Prod.fst = keys

theorem PrintsObject.prints {keys : List Text} {text : Text} (h : PrintsObject keys text) :
    Prints text := by
  obtain ⟨js, htext, -⟩ := h
  exact ⟨_, htext⟩

/-- Keys that need no escape and values that print make members that print. -/
theorem membersText_eq {ms : List (Text × Text)} (hkeys : ∀ key ∈ ms.map Prod.fst, PlainText key)
    (hvalues : ∀ value ∈ ms.map Prod.snd, Prints value) :
    ∃ js, membersText ms = Json.printMembers js ∧ js.map Prod.fst = ms.map Prod.fst := by
  induction ms with
  | nil => exact ⟨[], rfl, rfl⟩
  | cons m ms ih =>
      rw [List.map_cons, List.forall_mem_cons] at hkeys hvalues
      obtain ⟨v, hvalue⟩ := hvalues.1
      obtain ⟨js, hjs, hnames⟩ := ih hkeys.2 hvalues.2
      refine ⟨(m.1, v) :: js, ?_, by rw [List.map_cons, List.map_cons, hnames]⟩
      rw [Json.printMembers, quote_append, escapeText_of_plain hkeys.1, ← hvalue, ← hjs]
      rfl

theorem prints_object {ms : List (Text × Text)} (hkeys : ∀ key ∈ ms.map Prod.fst, PlainText key)
    (hvalues : ∀ value ∈ ms.map Prod.snd, Prints value) :
    PrintsObject (ms.map Prod.fst) (objectText ms) := by
  cases ms with
  | nil => exact ⟨[], rfl, rfl⟩
  | cons m ms =>
      rw [List.map_cons, List.forall_mem_cons] at hkeys hvalues
      obtain ⟨v, hvalue⟩ := hvalues.1
      obtain ⟨js, hjs, hnames⟩ := membersText_eq hkeys.2 hvalues.2
      refine ⟨(m.1, v) :: js, ?_, by rw [List.map_cons, List.map_cons, hnames]⟩
      rw [Json.print, quote_append, escapeText_of_plain hkeys.1, ← hvalue, ← hjs]
      rfl

theorem elementsText_eq {items : List Text} (h : ∀ t ∈ items, Prints t) :
    ∃ vs, elementsText items = Json.printElems vs ∧ items = vs.map Json.print := by
  induction items with
  | nil => exact ⟨[], rfl, rfl⟩
  | cons t items ih =>
      obtain ⟨v, hv⟩ := h t (by simp)
      obtain ⟨vs, hvs, hitems⟩ := ih fun t ht => h t (List.mem_cons_of_mem _ ht)
      refine ⟨v :: vs, ?_, by rw [List.map_cons, ← hv, ← hitems]⟩
      rw [Json.printElems, ← hv, ← hvs]
      rfl

/-- Items that print make the array of their values. -/
theorem arrayText_eq {items : List Text} (h : ∀ t ∈ items, Prints t) :
    ∃ vs, arrayText items = (Json.arr vs).print ∧ items = vs.map Json.print := by
  cases items with
  | nil => exact ⟨[], rfl, rfl⟩
  | cons t items =>
      obtain ⟨v, hv⟩ := h t (by simp)
      obtain ⟨vs, hvs, hitems⟩ := elementsText_eq fun t ht => h t (List.mem_cons_of_mem _ ht)
      refine ⟨v :: vs, ?_, by rw [List.map_cons, ← hv, ← hitems]⟩
      rw [Json.print, ← hv, ← hvs]
      rfl

theorem prints_array {items : List Text} (h : ∀ t ∈ items, Prints t) :
    Prints (arrayText items) := by
  obtain ⟨vs, hvs, -⟩ := arrayText_eq h
  exact ⟨_, hvs⟩

/-! ## The handlers -/

/-- The strings of a terminal need no escape where they are put in as they are,
and no escape that `JsonEscape` does not make where they go through it. -/
structure PlainStrings (b : Broker) : Prop where
  symbols : ∀ s ∈ b.symbols, PlainText s.name ∧ PlainText s.description ∧ PlainText s.path ∧
    PlainText s.currencyBase
  positions : ∀ p ∈ b.positions, PlainText p.symbol ∧ ¬ HasRawControl p.comment
  orders : ∀ o ∈ b.orders, PlainText o.symbol ∧ ¬ HasRawControl o.comment
  deals : ∀ d ∈ b.deals, PlainText d.symbol
  account : PlainText b.account.server ∧ PlainText b.account.currency ∧
    PlainText b.account.name ∧ PlainText b.account.company

theorem not_hasRawControl_of_plain {s : Text} (h : PlainText s) : ¬ HasRawControl s := by
  rintro ⟨c, hc, hraw⟩
  have hplain := (h c hc).2.2
  have hlow := hraw.1
  omega

/-! ## Keys -/

/-- The keys of `HandleSymbol`. -/
def symbolKeys : List Text :=
  ["symbol", "description", "path", "currency", "digits", "point", "trade_contract_size",
    "volume_min", "volume_max", "volume_step", "swap_long", "swap_short", "margin_initial",
    "margin_maintenance", "trade_mode", "trade_allowed", "bid", "ask", "spread", "session_deals",
    "session_buy_orders", "session_sell_orders", "volume"]

/-- The keys of a position. -/
def positionKeys : List Text :=
  ["ticket", "symbol", "magic", "side", "volume", "price_open", "price_current", "sl", "tp",
    "profit", "swap", "comment", "time"]

/-- The keys of an order. -/
def orderKeys : List Text :=
  ["ticket", "symbol", "magic", "type", "state", "volume_initial", "volume_current", "price", "sl",
    "tp", "comment", "setup_time"]

/-- The keys of a deal. -/
def dealKeys : List Text :=
  ["ticket", "order", "position_id", "symbol", "entry", "type", "volume", "price", "profit",
    "commission", "swap", "time"]

/-- The keys of `HandleQuote`. -/
def quoteKeys : List Text :=
  ["symbol", "digits", "bid", "ask", "spread", "time", "volume", "high", "low"]

/-- The keys of `HandleAccount`. -/
def accountKeys : List Text :=
  ["login", "server", "currency", "name", "company", "leverage", "trade_allowed", "balance",
    "equity", "margin", "margin_free", "margin_level", "profit"]

/-- The keys need no escape. -/
def PlainKeys (keys : List Text) : Prop := keys.all (fun key => decide (PlainText key)) = true

instance decidablePlainKeys (keys : List Text) : Decidable (PlainKeys keys) :=
  inferInstanceAs (Decidable (_ = _))

theorem plainKeys_iff {keys : List Text} : PlainKeys keys ↔ ∀ key ∈ keys, PlainText key := by
  simp only [PlainKeys, List.all_eq_true, decide_eq_true_eq]

theorem plainKeys_formats :
    PlainKeys symbolKeys ∧ PlainKeys positionKeys ∧ PlainKeys orderKeys ∧ PlainKeys dealKeys ∧
      PlainKeys quoteKeys ∧ PlainKeys accountKeys ∧ PlainKeys ["error"] := by
  decide +kernel

theorem plain_symbolKeys : PlainKeys symbolKeys := plainKeys_formats.1

theorem plain_positionKeys : PlainKeys positionKeys := plainKeys_formats.2.1

theorem plain_orderKeys : PlainKeys orderKeys := plainKeys_formats.2.2.1

theorem plain_dealKeys : PlainKeys dealKeys := plainKeys_formats.2.2.2.1

theorem plain_quoteKeys : PlainKeys quoteKeys := plainKeys_formats.2.2.2.2.1

theorem plain_accountKeys : PlainKeys accountKeys := plainKeys_formats.2.2.2.2.2.1

theorem plain_errorKeys : PlainKeys ["error"] := plainKeys_formats.2.2.2.2.2.2

section Handlers

variable {b : Broker} {field : Reader}

/-- The keys of a format are written in plain characters. -/
theorem prints_format {ms : List (Text × Text)}
    (hkeys : PlainKeys (ms.map Prod.fst))
    (hvalues : ∀ value ∈ ms.map Prod.snd, Prints value) :
    PrintsObject (ms.map Prod.fst) (objectText ms) :=
  prints_object (plainKeys_iff.mp hkeys) hvalues

/-- A count and a list. -/
theorem countedList_prints {key : Text} (hkey : PlainText key) (count : ℤ) {items : List Text}
    (h : ∀ t ∈ items, Prints t) :
    Prints (objectText [("count", integerToString count), (key, arrayText items)]) := by
  have hcount : PlainText "count" := by decide
  refine (prints_object ?_ ?_).prints
  · simp only [List.map_cons, List.map_nil, List.forall_mem_cons]
    exact ⟨hcount, hkey, by simp⟩
  · simp [prints_array h]

theorem handleSymbols_prints (h : PlainStrings b) : Prints (handleSymbols b field) := by
  apply countedList_prints (by decide)
  rw [List.forall_mem_map]
  intro name hname
  obtain ⟨s, hs, rfl⟩ := List.mem_map.mp (List.mem_of_mem_filter hname)
  have hplain := (h.symbols s (List.mem_of_mem_filter hs)).1
  exact prints_escaped (not_hasRawControl_of_plain hplain)

theorem errorObject_prints {code : Text} (h : PlainText code) : Prints (errorObject code) := by
  unfold errorObject
  refine (prints_format
    (by simp only [List.map_cons, List.map_nil]; exact plain_errorKeys) ?_).prints
  simpa using prints_raw h

/-- The strings of a symbol that is there, and those of one that is not. -/
theorem symbolInfo_plain (h : PlainStrings b) (name : Text) :
    PlainText (b.symbolInfo name).description ∧ PlainText (b.symbolInfo name).path ∧
      PlainText (b.symbolInfo name).currencyBase := by
  unfold Broker.symbolInfo
  cases hfind : b.symbols.find? (·.name = name) with
  | none => decide
  | some s => exact (h.symbols s (List.mem_of_find?_eq_some hfind)).2

theorem symbolText_prints (h : PlainStrings b) {sym : Text} (hsym : PlainText sym) :
    Prints (symbolText sym (b.symbolInfo sym)) := by
  obtain ⟨hdescription, hpath, hcurrency⟩ := symbolInfo_plain h sym
  unfold symbolText
  refine (prints_format
    (by simp only [List.map_cons, List.map_nil]; exact plain_symbolKeys) ?_).prints
  simp [intText, prints_raw hsym, prints_raw hdescription, prints_raw hpath, prints_raw hcurrency]

/-- A symbol that a query names and that is there has a plain name. -/
theorem handleSymbol_prints (h : PlainStrings b) : Prints (handleSymbol b field) := by
  unfold handleSymbol
  dsimp only
  split
  · exact errorObject_prints (by decide)
  · split
    · exact errorObject_prints (by decide)
    · next hnone =>
        simp only [List.all_eq_true, decide_eq_true_eq, not_forall, not_not] at hnone
        obtain ⟨s, hs, hname⟩ := hnone
        exact symbolText_prints h (hname ▸ (h.symbols s hs).1)

theorem positionText_prints (digits : ℕ) {p : PositionRow} (hsymbol : PlainText p.symbol)
    (hcomment : ¬ HasRawControl p.comment) : Prints (positionText digits p) := by
  unfold positionText
  refine (prints_format
    (by simp only [List.map_cons, List.map_nil]; exact plain_positionKeys) ?_).prints
  have hside : PlainText (if p.type = .buy then "buy" else "sell") := by split <;> decide
  simp only [List.map_cons, List.map_nil, List.forall_mem_cons, ticketText, intText,
    prints_integer, prints_double, prints_raw hsymbol, prints_raw hside, prints_escaped hcomment]
  simp

theorem orderText_object {o : Mql5.OrderRow} (hsymbol : PlainText o.symbol)
    (hcomment : ¬ HasRawControl o.comment) :
    PrintsObject ["ticket", "symbol", "magic", "type", "state", "volume_initial",
      "volume_current", "price", "sl", "tp", "comment", "setup_time"] (orderText o) := by
  unfold orderText
  refine prints_format (by simp only [List.map_cons, List.map_nil]; exact plain_orderKeys) ?_
  have htype : PlainText (orderTypeText o.type) := by
    unfold orderTypeText
    split <;> decide
  simp only [List.map_cons, List.map_nil, List.forall_mem_cons, ticketText, intText,
    prints_integer, prints_double, prints_raw hsymbol, prints_raw htype, prints_escaped hcomment]
  simp

theorem dealText_object {d : DealRow} (hsymbol : PlainText d.symbol) :
    PrintsObject ["ticket", "order", "position_id", "symbol", "entry", "type", "volume",
      "price", "profit", "commission", "swap", "time"] (dealText d) := by
  unfold dealText
  refine prints_format (by simp only [List.map_cons, List.map_nil]; exact plain_dealKeys) ?_
  have hentry : PlainText (if d.entry = .inOut then "inout" else "in") := by split <;> decide
  have htype : PlainText (dealTypeText d.type) := by
    unfold dealTypeText
    split <;> decide
  simp only [List.map_cons, List.map_nil, List.forall_mem_cons, ticketText, intText,
    prints_integer, prints_double, prints_raw hsymbol, prints_raw hentry, prints_raw htype]
  simp

theorem handlePositions_prints (h : PlainStrings b) : Prints (handlePositions b field) := by
  apply countedList_prints (by decide)
  rw [List.forall_mem_map]
  intro p hp
  obtain ⟨hsymbol, hcomment⟩ := h.positions p (List.mem_of_mem_filter hp)
  exact positionText_prints _ hsymbol hcomment

theorem handleOrders_prints (h : PlainStrings b) : Prints (handleOrders b field) := by
  apply countedList_prints (by decide)
  rw [List.forall_mem_map]
  intro o ho
  obtain ⟨hsymbol, hcomment⟩ := h.orders o (List.mem_of_mem_filter ho)
  exact (orderText_object hsymbol hcomment).prints

theorem handleHistory_prints (h : PlainStrings b) : Prints (handleHistory b field) := by
  apply countedList_prints (by decide)
  rw [List.forall_mem_map]
  intro d hd
  have hmem := List.mem_of_mem_filter (List.mem_of_mem_filter (List.mem_of_mem_take hd))
  exact (dealText_object (h.deals d hmem)).prints

/-- `HandleQuote` answers for a symbol that is not there, too. -/
theorem handleQuote_object (hsym : Prints (rawString (querySymbol field))) :
    PrintsObject ["error"] (handleQuote b field) ∨
      PrintsObject ["symbol", "digits", "bid", "ask", "spread", "time", "volume", "high", "low"]
        (handleQuote b field) := by
  have herror : Prints (rawString "missing_symbol") := prints_raw (by decide)
  unfold handleQuote
  dsimp only
  split
  · exact .inl (prints_format (by simp only [List.map_cons, List.map_nil]; exact plain_errorKeys)
      (by simpa using herror))
  · refine .inr (prints_format
      (by simp only [List.map_cons, List.map_nil]; exact plain_quoteKeys) ?_)
    simp [intText, hsym]

theorem handleQuote_prints (hsym : PlainText (querySymbol field)) :
    Prints (handleQuote b field) := by
  rcases handleQuote_object (prints_raw hsym) with h | h
  · exact h.prints
  · exact h.prints

theorem handleAccount_prints (h : PlainStrings b) : Prints (handleAccount b field) := by
  obtain ⟨hserver, hcurrency, hname, hcompany⟩ := h.account
  unfold handleAccount
  dsimp only
  refine (prints_format
    (by simp only [List.map_cons, List.map_nil]; exact plain_accountKeys) ?_).prints
  simp [prints_raw hserver, prints_raw hcurrency, prints_raw hname, prints_raw hcompany]

end Handlers

/-! ## Response lines -/

/-- The queries. -/
def queryActions : List Action :=
  [.symbols, .symbol, .positions, .orders, .history, .quote, .account]

/-- SlotService's response to a command, without its newline. It is the text that the client is
given for a line, if nothing is lost or cut. -/
def repliedFrame (t : Terminal) (b : Broker) (id : Uuid) (a : Action) (p : Payload) : Text :=
  (handleCommandAndRespond t (queryHandlers b) (frameReader id a p)).1.dropLast

section Replies

variable (t : Terminal) {b : Broker} (id : Uuid) {a : Action} (p : Payload)

/-- The response is one line. -/
theorem replied_line (b : Broker) (a : Action) :
    (handleCommandAndRespond t (queryHandlers b) (frameReader id a p)).1 =
      repliedFrame t b id a p ++ ['\n'] := by
  have hend : ∀ (id : Text) (handled : Option Handled),
      ∃ front, responseLine id handled = front ++ ['\n'] := by
    intro id handled
    have hbrace : "\x7d\n".toList = ['\x7d'] ++ ['\n'] := rfl
    delta responseLine
    rw [hbrace, ← List.append_assoc]
    exact ⟨_, rfl⟩
  obtain ⟨front, hfront⟩ := hend (frameReader id a p "id")
    (handle t (queryHandlers b) (frameReader id a p) (frameReader id a p "action"))
  simp only [repliedFrame, handleCommandAndRespond, hfront, List.dropLast_concat]

/-- The response to a query is a frame around the text of its handler. -/
theorem repliedFrame_query (ha : a ∈ queryActions) : ∃ text,
    repliedFrame t b id a p = rawFrame id text ∧ (PlainStrings b →
      (a = .quote → PlainText (querySymbol (frameReader id a p))) → Prints text) := by
  have hraw : ∀ text, handle t (queryHandlers b) (frameReader id a p) a.name =
      some (.early text) → repliedFrame t b id a p = rawFrame id text := by
    intro text hhandle
    have hline := replied_line t id p b a
    simp only [handleCommandAndRespond, frameReader_action, frameReader_id, hhandle,
      responseLine_raw] at hline
    exact (List.append_cancel_right hline).symm
  simp only [queryActions, List.mem_cons, List.not_mem_nil, or_false] at ha
  rcases ha with rfl | rfl | rfl | rfl | rfl | rfl | rfl
  · exact ⟨_, hraw _ rfl, fun h _ => handleSymbols_prints h⟩
  · exact ⟨_, hraw _ rfl, fun h _ => handleSymbol_prints h⟩
  · exact ⟨_, hraw _ rfl, fun h _ => @handlePositions_prints b (frameReader id .positions p) h⟩
  · exact ⟨_, hraw _ rfl, fun h _ => @handleOrders_prints b (frameReader id .orders p) h⟩
  · exact ⟨_, hraw _ rfl, fun h _ => handleHistory_prints h⟩
  · exact ⟨_, hraw _ rfl, fun _ hsym => handleQuote_prints (hsym rfl)⟩
  · exact ⟨_, hraw _ rfl, fun h _ => @handleAccount_prints b (frameReader id .account p) h⟩

end Replies

end AkronSlot.Bridge
