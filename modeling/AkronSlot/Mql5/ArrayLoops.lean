import AkronSlot.Mql5.Queries
import AkronSlot.Systems.Separated

/-!
# The arrays that SlotService puts together (`SlotService.mq5`)

Six loops build a JSON array each: two in `BuildStateJson`, which count down and put a comma
before every index but the highest, and those of `HandleSymbols`, `HandlePositions`,
`HandleOrders` and `HandleHistory`, which count up and keep a flag.  All of them skip entries.

Here the loops stand as they are, over what the terminal answers for an index or a ticket.  For
a terminal whose rows have different tickets they are the handlers of `Queries`.

## How the loops are stated

What the terminal answers is a parameter, `Readings`: a function of the index, of the ticket or
of the name, as the calls of the source are. So nothing is assumed of a list of rows behind the
answers, and an index without a ticket or a select that fails can stand anywhere.

A loop by the index asks whether it is at its first round, a loop with a flag whether it has
written anything. The difference shows only where the first entry is skipped, which is what
`FirstKept` excludes.

## Main Definitions

* `Readings` — what the terminal answers during one call
* `buildStateJson`, `Readings.handleSymbols` and the others
* `JsonArray`, `written`, `entries`

## Main Results

* `arrays_written_iff`
* `handlePositions_readings`, `handleOrders_readings`, `handleSymbols_readings`,
  `handleHistory_readings` — the handlers of `Queries`
-/

namespace AkronSlot.Mql5

open Wire Systems

/-- What the terminal answers: by index, by ticket, by name. A ticket is 0 when there is none at
the index; a select that fails is `none`. The answers do not change while a loop runs, since a
handler is one call. -/
structure Readings where
  positionsTotal : ℕ
  positionGetTicket : ℕ → ℕ
  positionSelectByTicket : ℕ → Option PositionRow
  ordersTotal : ℕ
  orderGetTicket : ℕ → ℕ
  orderSelect : ℕ → Option OrderRow
  /-- An order whose type has no name in `OrderRow` is ORDER_TYPE_BUY_STOP_LIMIT. -/
  isBuyStopLimit : ℕ → Bool
  symbolsTotal : Bool → ℕ
  symbolName : ℕ → Bool → Text
  symbolDigits : Text → ℕ
  historyDealsTotal : ℤ → ℤ → ℕ
  historyDealGetTicket : ℤ → ℤ → ℕ → ℕ
  historyDeal : ℕ → DealRow
  account : AccountInfo
  terminalTradeAllowed : Bool
  timeCurrent : ℤ

/-- The separator of all the loops. -/
def comma : Text := [',']

/-- A text between brackets, as the loops begin and end it. A loop is a function of what is
written so far, because it only ever appends. -/
def bracketed (loop : Text → Text) : Text := loop ['['] ++ [']']

namespace Readings

variable (r : Readings)

/-! ## BuildStateJson -/

/-- `PositionGetSymbol(index)`: the symbol, and the position that is selected from then on. -/
def positionGetSymbol (index : ℤ) (selected : PositionRow) : Text × PositionRow :=
  if 0 ≤ index ∧ index < r.positionsTotal then
    match r.positionSelectByTicket (r.positionGetTicket index.toNat) with
    | some p => (p.symbol, p)
    | none => ([], selected)
  else ([], selected)

/-- A position of the state, if it is not skipped. The ticket is passed to `PositionGetSymbol`,
which takes an index; if there is a position at that index, the values printed are those of that
one. -/
def statePosition (i : ℕ) : Option Text :=
  let ticket := r.positionGetTicket i
  if ticket = 0 then none
  else
    (r.positionSelectByTicket ticket).map fun selected =>
      let (sym, p) := r.positionGetSymbol (asInt ticket) selected
      objectText [("id", rawString (natText ticket)), ("account_id", rawString []),
        ("instrument", rawString (jsonEscape sym)),
        ("side", rawString (if p.type = .buy then "long" else "short")),
        ("qty", doubleToString p.volume 8), ("avg_price", doubleToString p.priceOpen 8),
        ("sl", doubleToString p.sl 8), ("tp", doubleToString p.tp 8)]

/-- The side of an order of the state. -/
def isBuy (o : OrderRow) (ticket : ℕ) : Bool :=
  match o.type with
  | some .buy | some .buyLimit | some .buyStop => true
  | some _ => false
  | none => r.isBuyStopLimit ticket

/-- An order of the state, if it is not skipped. -/
def stateOrder (i : ℕ) : Option Text :=
  let ticket := r.orderGetTicket i
  if ticket = 0 then none
  else
    (r.orderSelect ticket).map fun o =>
      objectText [("id", rawString (natText ticket)), ("account_id", rawString []),
        ("instrument", rawString (jsonEscape o.symbol)),
        ("side", rawString (if r.isBuy o ticket then "buy" else "sell")),
        ("type", rawString
          (if o.type = some .buy ∨ o.type = some .sell then "market" else "limit")),
        ("qty", doubleToString o.volumeInitial 8), ("price", doubleToString o.priceOpen 8),
        ("status", intText o.state)]

/-- The account of the state. -/
def stateAccount : Text :=
  let a := r.account
  objectText [("login", rawString (integerToString a.login)), ("server", rawString a.server),
    ("name", rawString (jsonEscape a.name)), ("currency", rawString a.currency),
    ("balance", doubleToString a.balance 2), ("equity", doubleToString a.equity 2),
    ("margin", doubleToString a.margin 2), ("free_margin", doubleToString a.marginFree 2),
    ("leverage", intText a.leverage), ("trade_allowed", boolText r.terminalTradeAllowed)]

/-- `pos`. -/
def statePositions : Text :=
  bracketed fun out => joinDown comma r.statePosition out r.positionsTotal

/-- `ords`. -/
def stateOrders : Text := bracketed fun out => joinDown comma r.stateOrder out r.ordersTotal

/-- `BuildStateJson`. -/
def buildStateJson : Text :=
  objectText [("account", r.stateAccount), ("positions", r.statePositions),
    ("orders", r.stateOrders)]

/-! ## The queries -/

variable (field : Reader)

/-- `select_mw_only`. -/
def selectMwOnly : Bool := field "payload.market_watch_only" = "true".toList

/-- A symbol, if it has a name and is not filtered. -/
def symbolItem (i : ℕ) : Option Text :=
  let filter := field "payload.pattern"
  let name := r.symbolName i (selectMwOnly field)
  if name = [] then none
  else if filter ≠ [] ∧ find filter name = none then none
  else some (rawString (jsonEscape name))

/-- A position, if it has a ticket and can be selected. -/
def positionItem (i : ℕ) : Option Text :=
  let ticket := r.positionGetTicket i
  if ticket = 0 then none
  else
    (r.positionSelectByTicket ticket).map fun p =>
      positionText (r.symbolDigits p.symbol) { p with ticket := ticket }

/-- An order, if it has a ticket and can be selected. -/
def orderItem (i : ℕ) : Option Text :=
  let ticket := r.orderGetTicket i
  if ticket = 0 then none
  else (r.orderSelect ticket).map fun o => orderText { o with ticket := ticket }

/-- The times and the limit of a history query. -/
def historyRange : ℤ × ℤ × ℕ :=
  let start := stringToInteger (field "payload.from")
  let stop := stringToInteger (field "payload.to")
  let limit := asInt (asUlong (stringToInteger (field "payload.limit")))
  let start := if start = 0 then r.timeCurrent - 86400 else start
  let stop := if stop = 0 then r.timeCurrent else stop
  let limit := if limit ≤ 0 ∨ 5000 < limit then 500 else limit
  (start, stop, limit.toNat)

/-- A deal, if it has a ticket and is no exit. -/
def dealItem (i : ℕ) : Option Text :=
  let (start, stop, _) := r.historyRange field
  let ticket := r.historyDealGetTicket start stop i
  if ticket = 0 then none
  else if (r.historyDeal ticket).entry = .out then none
  else some (dealText { r.historyDeal ticket with ticket := ticket })

/-- `out` of `HandleSymbols`. -/
def symbolsArray : Text :=
  bracketed fun out =>
    joinFlagged comma (r.symbolItem field) out (List.range (r.symbolsTotal (selectMwOnly field)))

/-- `out` of `HandlePositions`. -/
def positionsArray : Text :=
  bracketed fun out => joinFlagged comma r.positionItem out (List.range r.positionsTotal)

/-- `out` of `HandleOrders`. -/
def ordersArray : Text :=
  bracketed fun out => joinFlagged comma r.orderItem out (List.range r.ordersTotal)

/-- The loop of `HandleHistory`: `out`, and `emitted`. It ends when the list is over or the limit
is reached, and only the deals that are written count for the limit. -/
def historyLoop (out : Text) : Text × ℕ :=
  let (start, stop, limit) := r.historyRange field
  joinFlaggedUpTo comma (r.dealItem field) limit out (List.range (r.historyDealsTotal start stop))

/-- `out` of `HandleHistory`. -/
def historyArray : Text := bracketed fun out => (r.historyLoop field out).1

/-- `HandleSymbols`. -/
def handleSymbols : Text :=
  objectText [("count", integerToString (r.symbolsTotal (selectMwOnly field))),
    ("symbols", r.symbolsArray field)]

/-- `HandlePositions`. -/
def handlePositions : Text :=
  objectText [("count", integerToString r.positionsTotal), ("positions", r.positionsArray)]

/-- `HandleOrders`. -/
def handleOrders : Text :=
  objectText [("count", integerToString r.ordersTotal), ("orders", r.ordersArray)]

/-- `HandleHistory`. -/
def handleHistory : Text :=
  objectText [("count", integerToString (r.historyLoop field ['[']).2),
    ("history", r.historyArray field)]

/-! ## What the arrays should be -/

/-- The arrays: two of the state, and those of four queries. -/
inductive JsonArray where
  | statePositions
  | stateOrders
  | symbols
  | positions
  | orders
  | history
  deriving DecidableEq, Repr

/-- The text of an array. -/
def written : JsonArray → Text
  | .statePositions => r.statePositions
  | .stateOrders => r.stateOrders
  | .symbols => r.symbolsArray field
  | .positions => r.positionsArray
  | .orders => r.ordersArray
  | .history => r.historyArray field

/-- The entries that are not skipped, in the order in which the loop comes to them: the loops of
the state count down, the others up. The loop of the history ends at its limit. -/
def entries : JsonArray → List Text
  | .statePositions => (downFrom r.positionsTotal).filterMap r.statePosition
  | .stateOrders => (downFrom r.ordersTotal).filterMap r.stateOrder
  | .symbols => (List.range (r.symbolsTotal (selectMwOnly field))).filterMap (r.symbolItem field)
  | .positions => (List.range r.positionsTotal).filterMap r.positionItem
  | .orders => (List.range r.ordersTotal).filterMap r.orderItem
  | .history =>
      let (start, stop, limit) := r.historyRange field
      ((List.range (r.historyDealsTotal start stop)).filterMap (r.dealItem field)).take limit

/-- A loop that goes by the index comes first to an entry that it keeps, if it keeps any. The
loops with a flag need no condition. -/
def FirstKept : JsonArray → Prop
  | .statePositions => KeepsHighest r.statePosition r.positionsTotal
  | .stateOrders => KeepsHighest r.stateOrder r.ordersTotal
  | _ => True

end Readings

/-! ## The loops -/

theorem arrayText_eq_intercalate (items : List Text) :
    arrayText items = '[' :: (comma.intercalate items ++ [']']) := by
  have hafter : ∀ items : List Text,
      elementsText items = items.flatMap (comma ++ ·) ++ [']'] := by
    intro items
    induction items with
    | nil => rfl
    | cons item items ih =>
        rw [elementsText, ih, List.flatMap_cons, comma]
        simp
  cases items with
  | nil => rfl
  | cons item items => rw [arrayText, hafter, intercalate_cons, List.append_assoc]

/-- What a loop appends is in the brackets. -/
theorem bracketed_eq_iff {loop : Text → Text} {items : List Text} :
    bracketed loop = arrayText items ↔ loop ['['] = ['['] ++ comma.intercalate items := by
  rw [bracketed, arrayText_eq_intercalate, ← List.cons_append, List.append_cancel_right_eq]
  rfl

theorem bracketed_joinFlagged {ι : Type} (item : ι → Option Text) (is : List ι) :
    bracketed (fun out => joinFlagged comma item out is) = arrayText (is.filterMap item) :=
  bracketed_eq_iff.mpr (joinFlagged_eq comma item ['['] is)

theorem bracketed_joinDown_iff (item : ℕ → Option Text) (n : ℕ) :
    bracketed (fun out => joinDown comma item out n) = arrayText ((downFrom n).filterMap item) ↔
      KeepsHighest item n :=
  bracketed_eq_iff.trans (joinDown_iff comma item (List.cons_ne_nil _ _) ['['] n)

namespace Readings

variable (r : Readings) (field : Reader)

theorem symbolsArray_eq : r.symbolsArray field = arrayText (r.entries field .symbols) :=
  bracketed_joinFlagged _ _

theorem positionsArray_eq : r.positionsArray = arrayText (r.entries field .positions) :=
  bracketed_joinFlagged _ _

theorem ordersArray_eq : r.ordersArray = arrayText (r.entries field .orders) :=
  bracketed_joinFlagged _ _

theorem historyLoop_eq (out : Text) :
    r.historyLoop field out =
      (out ++ comma.intercalate (r.entries field .history), (r.entries field .history).length) :=
  joinFlaggedUpTo_eq comma (r.dealItem field) _ out _

theorem historyArray_eq : r.historyArray field = arrayText (r.entries field .history) := by
  refine bracketed_eq_iff.mpr ?_
  rw [historyLoop_eq]

theorem statePositions_iff :
    r.statePositions = arrayText (r.entries field .statePositions) ↔
      KeepsHighest r.statePosition r.positionsTotal :=
  bracketed_joinDown_iff _ _

theorem stateOrders_iff :
    r.stateOrders = arrayText (r.entries field .stateOrders) ↔
      KeepsHighest r.stateOrder r.ordersTotal :=
  bracketed_joinDown_iff _ _

/-- **An array has its entries, in their order and with single commas between them, exactly
when the first entry of a loop that goes by the index is kept** or none is. -/
theorem arrays_written_iff (a : JsonArray) :
    r.written field a = arrayText (r.entries field a) ↔ r.FirstKept a := by
  cases a with
  | statePositions => exact r.statePositions_iff field
  | stateOrders => exact r.stateOrders_iff field
  | symbols => exact iff_of_true (r.symbolsArray_eq field) trivial
  | positions => exact iff_of_true (r.positionsArray_eq field) trivial
  | orders => exact iff_of_true (r.ordersArray_eq field) trivial
  | history => exact iff_of_true (r.historyArray_eq field) trivial

/-- A terminal with a position at index 0 and no ticket at index 1. -/
def withGap : Readings where
  positionsTotal := 2
  positionGetTicket i := if i = 0 then 7 else 0
  positionSelectByTicket ticket := some ⟨ticket, "EURUSD", 0, .buy, 1, 1, 1, 0, 0, 0, 0, [], 0⟩
  ordersTotal := 0
  orderGetTicket _ := 0
  orderSelect _ := none
  isBuyStopLimit _ := false
  symbolsTotal _ := 0
  symbolName _ _ := []
  symbolDigits _ := 5
  historyDealsTotal _ _ := 0
  historyDealGetTicket _ _ _ := 0
  historyDeal ticket := ⟨ticket, 0, 0, [], .in_, .buy, 0, 0, 0, 0, 0, 0⟩
  account := ⟨1, [], [], [], [], 1, true, 0, 0, 0, 0, 0, 0⟩
  terminalTradeAllowed := true
  timeCurrent := 0

/-- The array of the state begins with a comma. -/
theorem withGap_not_array :
    withGap.written (fun _ => []) .statePositions ≠
      arrayText (withGap.entries (fun _ => []) .statePositions) := by
  intro h
  have hkeeps := (withGap.statePositions_iff fun _ => []).mp h
  have hhighest : (withGap.statePosition 1).isSome = true := hkeeps 0 (by decide) (by rfl)
  exact absurd hhighest (by decide)

end Readings

/-! ## The handlers of `Queries` -/

/-- A deal that is not there. -/
def noDeal : DealRow := ⟨0, 0, 0, [], .in_, .other, 0, 0, 0, 0, 0, 0⟩

/-- What a terminal with these rows answers. -/
def Broker.readings (b : Broker) : Readings where
  positionsTotal := b.positions.length
  positionGetTicket i := (b.positions[i]?).elim 0 (·.ticket)
  positionSelectByTicket ticket := b.positions.find? (·.ticket = ticket)
  ordersTotal := b.orders.length
  orderGetTicket i := (b.orders[i]?).elim 0 (·.ticket)
  orderSelect ticket := b.orders.find? (·.ticket = ticket)
  isBuyStopLimit _ := false
  symbolsTotal mw := (b.symbols.filter fun s => !mw || s.inMarketWatch).length
  symbolName i mw := ((b.symbols.filter fun s => !mw || s.inMarketWatch)[i]?).elim [] (·.name)
  symbolDigits name := (b.symbolInfo name).digits
  historyDealsTotal start stop :=
    (b.deals.filter fun d => start ≤ d.time && d.time ≤ stop).length
  historyDealGetTicket start stop i :=
    ((b.deals.filter fun d => start ≤ d.time && d.time ≤ stop)[i]?).elim 0 (·.ticket)
  historyDeal ticket := (b.deals.find? (·.ticket = ticket)).getD noDeal
  account := b.account
  terminalTradeAllowed := b.account.tradeAllowed
  timeCurrent := b.now

section Handlers

variable {b : Broker} (field : Reader)

/-- Rows that are looked up by their tickets are the rows. -/
theorem filterMap_rows {ρ : Type} {rows : List ρ} {ticket : ρ → ℕ} (h : (rows.map ticket).Nodup)
    (text : ℕ → ρ → Text) :
    ((List.range rows.length).filterMap fun i =>
      let n := (rows[i]?).elim 0 ticket
      if n = 0 then none else (rows.find? (ticket · = n)).map (text n)) =
        (rows.filter (ticket · ≠ 0)).map fun row => text (ticket row) row := by
  rw [← List.filterMap_eq_map', List.filterMap_filter]
  refine filterMap_range fun i hi => ?_
  have hrow : rows.find? (ticket · = ticket rows[i]) = some rows[i] :=
    find?_key h (List.getElem_mem hi)
  -- no row without a ticket is looked up
  by_cases hzero : ticket rows[i] = 0
  · simp [hi, hzero]
  · simp [hi, hzero, hrow]

/-- The handler of the positions. -/
theorem handlePositions_readings (h : (b.positions.map (·.ticket)).Nodup) :
    b.readings.handlePositions = handlePositions b field := by
  have hentries : b.readings.entries field .positions = (b.positions.filter (·.ticket ≠ 0)).map
      fun p => positionText (b.symbolInfo p.symbol).digits p :=
    filterMap_rows h fun n p => positionText (b.symbolInfo p.symbol).digits { p with ticket := n }
  rw [Readings.handlePositions, Readings.positionsArray_eq _ field, hentries]
  rfl

/-- The handler of the orders. -/
theorem handleOrders_readings (h : (b.orders.map (·.ticket)).Nodup) :
    b.readings.handleOrders = handleOrders b field := by
  have hentries : b.readings.entries field .orders =
      (b.orders.filter (·.ticket ≠ 0)).map orderText :=
    filterMap_rows h fun n o => orderText { o with ticket := n }
  rw [Readings.handleOrders, Readings.ordersArray_eq _ field, hentries]
  rfl

/-- The two checks of a name as one. -/
theorem ite_filtered (name filter t : Text) :
    (if name = [] then none
      else if filter ≠ [] ∧ find filter name = none then none else some t) =
        if (decide (name ≠ []) && (decide (filter = []) || (find filter name).isSome)) = true then
          some t
        else none := by
  by_cases hname : name = []
  · simp [hname]
  · by_cases hfilter : filter = []
    · simp [hname, hfilter]
    · cases hfind : find filter name <;> simp [hname, hfilter]

/-- The handler of the symbols. -/
theorem handleSymbols_readings : b.readings.handleSymbols field = handleSymbols b field := by
  have hrows : (b.symbols.filter fun s => !Readings.selectMwOnly field || s.inMarketWatch) =
      b.symbols.filter fun s =>
        field "payload.market_watch_only" ≠ "true".toList || s.inMarketWatch := by
    simp only [Readings.selectMwOnly, ne_eq, decide_not]
  have hentries : b.readings.entries field .symbols =
      (((b.symbols.filter fun s =>
        field "payload.market_watch_only" ≠ "true".toList || s.inMarketWatch).map (·.name)).filter
          fun name => name ≠ [] &&
            (field "payload.pattern" = [] || (find (field "payload.pattern") name).isSome)).map
        fun name => rawString (jsonEscape name) := by
    rw [← hrows, ← List.filterMap_eq_map', List.filterMap_filter, List.filterMap_map]
    refine filterMap_range fun i hi => ?_
    simp only [Readings.symbolItem, Broker.readings, List.getElem?_eq_getElem hi, Option.elim_some]
    exact ite_filtered _ _ _
  rw [Readings.handleSymbols, Readings.symbolsArray_eq, hentries]
  simp only [Broker.readings, hrows]
  rfl

/-- The handler of the history. -/
theorem handleHistory_readings (h : (b.deals.map (·.ticket)).Nodup) :
    b.readings.handleHistory field = handleHistory b field := by
  have hentries : b.readings.entries field .history = (historyDeals b field).map dealText := by
    simp only [Readings.entries, historyDeals, List.map_take]
    congr 1
    rw [← List.filterMap_eq_map', List.filterMap_filter]
    refine filterMap_range fun i hi => ?_
    generalize hd : (List.filter _ b.deals)[i] = d
    have hmem : d ∈ b.deals := List.mem_of_mem_filter (hd ▸ List.getElem_mem hi)
    have hticket : b.readings.historyDealGetTicket (b.readings.historyRange field).1
        (b.readings.historyRange field).2.1 i = d.ticket :=
      congrArg (fun row => Option.elim row 0 DealRow.ticket)
        ((List.getElem?_eq_getElem hi).trans (congrArg some hd))
    have hdeal : b.readings.historyDeal d.ticket = d := by
      simp only [Broker.readings, find?_key h hmem, Option.getD_some]
    simp only [Readings.dealItem, hticket, hdeal]
    by_cases hzero : d.ticket = 0
    · simp [hzero]
    · by_cases hout : d.entry = .out
      · simp [hzero, hout]
      · simp [hzero, hout]
  rw [Readings.handleHistory, Readings.historyArray_eq, Readings.historyLoop_eq, hentries,
    List.length_map]
  rfl

end Handlers

end AkronSlot.Mql5
