import AkronSlot.Slot.ApiTokens
import AkronSlot.Slot.TradingReads

/-!
# The trading API (`api/trading.ts`)

All routes of `tradingRoutes`: the scope a request needs, the one command it asks of the
connector, and what is made of the answer.

## One command for a request

Every route asks the connector for one thing at most, and the connector dispatches one command
for it. `asks` names this command without running the route, and `run_congr` shows that it is
the right one: a route that is given two channels which answer this command alike gives the same
reply. So to know what a request can make SlotService do, it is enough to look at `asks`, and
`asked_trades` looks at it behind the scope.

## Main Definitions

* `Request`, `Request.scope`, `Request.run`
* `Request.asks` — the command of a request that has been let through
* `serve` — `requireScope` before the route

## Main Results

* `Request.run_congr`, `serve_congr` — nothing else is asked
* `asked_trades`
-/

namespace AkronSlot.Slot

open Wire Mt5Connector StreamSessions

/-! ## Queries -/

/-- A query that `QuerySymbolsSchema` accepts. -/
structure QuerySymbols where
  pattern : Option Text
  marketWatchOnly : Bool

/-- `z.union([z.literal('true'), z.literal('false')])`. -/
def booleanWord (v : Json) : Option Bool :=
  (asString v).bind fun s =>
    if s = "true" then some true else if s = "false" then some false else none

/-- `QuerySymbolsSchema.parse`. -/
def QuerySymbols.parse (query : Option Json) : Option QuerySymbols := do
  let v ← bodyObject query
  let pattern ← optional asString v "pattern"
  let watch ← optional booleanWord v "market_watch_only"
  return { pattern, marketWatchOnly := watch.getD false }

/-- `QueryQuoteSchema.parse`. -/
def parseQueryQuote (query : Option Json) : Option { s : Text // s ≠ [] } :=
  (bodyObject query).bind fun v => required nonEmptyString v "symbol"

/-! ## `getSymbol` -/

/-- The properties of `{ ...v }`. -/
def spread : Json → List (Text × Json)
  | .obj ms => ms
  | .arr vs => vs.zipIdx.map fun e => (natText e.2, e.1)
  | .str s => s.zipIdx.map fun e => (natText e.2, .str [e.1])
  | _ => []

/-- `{ ...ms, [key]: v }`. -/
def setMember (key : Text) (v : Json) (ms : List (Text × Json)) : List (Text × Json) :=
  if ms.any (·.1 = key) then ms.map fun m => if m.1 = key then (key, v) else m
  else ms ++ [(key, v)]

/-- `Mt5Connector.getSymbol`. -/
def Mt5Connector.getSymbol (dispatchCommand : DispatchCommand) (symbol : Text) :
    Except Text Json := do
  let result ← mt5Query dispatchCommand .symbol (quotePayload symbol)
  let name ← propertyOr result "symbol" (.str symbol)
  return .obj (setMember "symbol" name (spread result))

/-! ## Requests -/

/-- A request to one of the routes, with the parameters, the query and the body it has. -/
inductive Request where
  | getSymbols (query : Option Json)
  | getSymbol (symbol : Text)
  | getQuote (query : Option Json)
  | getAccount
  | getPositions
  | getOrders
  | getOrder (id : Text)
  | getFills (q : QueryFills)
  | postOrder (body : Option Json)
  | postClose (id : Text) (body : Option Json)
  | patchPosition (id : Text) (body : Option Json)
  | patchOrder (id : Text) (body : Option Json)
  | deleteOrder (id : Text)

namespace Request

/-- The scope of the route's `preHandler`. -/
def scope : Request → Scope
  | getSymbols _ | getSymbol _ | getQuote _ | getAccount | getPositions | getOrders | getOrder _
  | getFills _ => .read
  | postOrder _ | postClose .. | patchPosition .. | patchOrder .. | deleteOrder _ => .write

end Request

/-- What a route answers. -/
inductive Reply where
  | json (v : Json)
  | symbols (count : ℕ) (symbols : List SymbolSpec)
  | quote (q : Quote)
  /-- `{ count, positions }`, `{ count, orders }` and `{ count, history }`. -/
  | counted (r : FillsReply)
  | order (r : OrderResult)
  | manage (r : ManageResult)

/-- A call of the connector that may throw an `Error`, inside `withBrokerErrors`. -/
def brokerCall {α : Type} (answer : α → Reply) (result : Except Text α) :
    Except ReadProblem Reply :=
  ((withBrokerErrors (result.mapError Thrown.error)).map answer).mapError ReadProblem.broker

/-- `{ count: vs.length, ... }`, inside `withBrokerErrors`. -/
def countedCall (result : Except Text Json) : Except ReadProblem Reply :=
  ((withBrokerErrors (fillsReply result)).map Reply.counted).mapError ReadProblem.broker

section Routes

-- `String(n)` of a number that is not an integer, `Date.now()`, and the id of the trade call
variable (otherText : Numeral → Text) (now : Numeral) (clientOrderId : Uuid)

/-- The handlers of the routes. -/
def Request.run (deps : Deps) : Request → Except ReadProblem Reply
  | getSymbols query => do
      let q ← (orInvalid (QuerySymbols.parse query)).mapError ReadProblem.refused
      let _ ← (resolveAccountRef deps).mapError ReadProblem.refused
      brokerCall (fun syms => .symbols syms.length syms)
        (symbols deps.dispatchCommand ⟨q.pattern, some q.marketWatchOnly⟩)
  | getSymbol symbol => do
      let _ ← (resolveAccountRef deps).mapError ReadProblem.refused
      brokerCall (fun detail => .json (.obj (setMember "symbol" (.str symbol) (spread detail))))
        (Mt5Connector.getSymbol deps.dispatchCommand symbol)
  | getQuote query => do
      let symbol ← (orInvalid (parseQueryQuote query)).mapError ReadProblem.refused
      let _ ← (resolveAccountRef deps).mapError ReadProblem.refused
      brokerCall Reply.quote (quote deps.dispatchCommand now symbol)
  | getAccount => do
      let ref ← (resolveAccountRef deps).mapError ReadProblem.refused
      brokerCall Reply.json
        (Mt5Connector.getAccount deps.dispatchCommand (deps.registered ref) ref)
  | getPositions => do
      let ref ← (resolveAccountRef deps).mapError ReadProblem.refused
      countedCall (Mt5Connector.getPositions deps.dispatchCommand (deps.registered ref))
  | getOrders => do
      let ref ← (resolveAccountRef deps).mapError ReadProblem.refused
      countedCall (Mt5Connector.getOrders deps.dispatchCommand (deps.registered ref))
  | getOrder id => (Slot.getOrder otherText deps id).map Reply.json
  | getFills q => (Slot.getFills deps q).map Reply.counted
  | postOrder body =>
      ((Slot.postOrder deps clientOrderId body).mapError ReadProblem.refused).map Reply.order
  | postClose id body =>
      ((Slot.postClose deps clientOrderId id body).mapError ReadProblem.refused).map Reply.order
  | patchPosition id body =>
      ((Slot.patchPosition deps id body).mapError ReadProblem.refused).map Reply.manage
  | patchOrder id body =>
      ((Slot.patchOrder deps id body).mapError ReadProblem.refused).map Reply.manage
  | deleteOrder id => ((Slot.deleteOrder deps id).mapError ReadProblem.refused).map Reply.manage

end Routes

/-! ## What a request asks -/

/-- The command of a trade call, for a registered account. -/
def tradeCommand (deps : Deps) (call : TradeCall) : Option (Action × Payload) :=
  (addressedAccount deps).map fun rec => (call.action, call.payload rec)

/-- A command that is asked when an account is active, registered or not. -/
def readCommand (deps : Deps) (command : Text → Option (Action × Payload)) :
    Option (Action × Payload) :=
  match resolveAccountRef deps with
  | .error _ => none
  | .ok ref => command ref

namespace Request

/-- The command that a request asks of the connector, if its parameters and its body are valid and
there is an account for it. -/
def asks (deps : Deps) : Request → Option (Action × Payload)
  | getSymbols query =>
      (QuerySymbols.parse query).bind fun q => readCommand deps fun _ =>
        some (.symbols, symbolsPayload ⟨q.pattern, some q.marketWatchOnly⟩)
  | getSymbol symbol => readCommand deps fun _ => some (.symbol, quotePayload symbol)
  | getQuote query =>
      (parseQueryQuote query).bind fun symbol => readCommand deps fun _ =>
        some (.quote, quotePayload symbol)
  | getAccount => readCommand deps fun ref =>
      (deps.registered ref).map fun rec => (.account, ordersPayload (some rec))
  | getPositions => readCommand deps fun ref =>
      some (.positions, ordersPayload (deps.registered ref))
  | getOrders | getOrder _ => readCommand deps fun ref =>
      some (.orders, ordersPayload (deps.registered ref))
  | getFills q =>
      if q.Valid then readCommand deps fun ref =>
        some (.history, historyPayload (deps.registered ref) ⟨q.start, q.stop, q.limit⟩)
      else none
  | postOrder body =>
      (PlaceOrder.parse body).bind fun o => tradeCommand deps (.openTrade o.toNewOrder)
  | postClose id body =>
      (ClosePosition.parse body).bind fun b =>
        tradeCommand deps (.closeTrade id (b.volume.map (·.1)))
  | patchPosition id body =>
      (ModifyLevels.parse body).bind fun l =>
        tradeCommand deps (.modifyPosition id l.sl.join l.tp.join)
  | patchOrder id body =>
      (ModifyLevels.parse body).bind fun l =>
        tradeCommand deps (.modifyOrder id l.sl.join l.tp.join)
  | deleteOrder id => tradeCommand deps (.cancelOrder id)

end Request

/-- The slot, with another command channel. -/
def Deps.over (deps : Deps) (dispatchCommand : DispatchCommand) : Deps :=
  { deps with dispatchCommand }

section Congr

variable {d d' : DispatchCommand} {deps : Deps}

/-- Two channels that answer a command alike. Where no command is asked, any two do. -/
def Alike (d d' : DispatchCommand) (asked : Option (Action × Payload)) : Prop :=
  ∀ c ∈ asked, d c.1 c.2 = d' c.1 c.2

@[simp] theorem resolveAccountRef_over : resolveAccountRef (deps.over d) = resolveAccountRef deps :=
  rfl

@[simp] theorem registered_over : (deps.over d).registered = deps.registered := rfl

@[simp] theorem dispatchCommand_over : (deps.over d).dispatchCommand = d := rfl

/-- What follows a step that may be refused. -/
theorem bind_congr_ok {α β ε : Type} {x : Except ε α} {f f' : α → Except ε β}
    (h : ∀ a, x = .ok a → f a = f' a) : x >>= f = x >>= f' := by
  cases x with
  | error e => rfl
  | ok a => exact h a rfl

/-- What follows the resolution of the account. -/
theorem resolved_congr {α ε : Type} {refused : Problem → ε} {f f' : Text → Except ε α}
    (h : ∀ ref, resolveAccountRef deps = .ok ref → f ref = f' ref) :
    ((resolveAccountRef deps).mapError refused >>= f) =
      ((resolveAccountRef deps).mapError refused >>= f') := by
  cases href : resolveAccountRef deps with
  | error p => rfl
  | ok ref => exact h ref href

/-- What follows the parsing of a query. -/
theorem parsed_congr {α β ε : Type} {refused : Problem → ε} {parsed : Option β}
    {f f' : β → Except ε α} (h : ∀ b, parsed = some b → f b = f' b) :
    ((orInvalid parsed).mapError refused >>= f) = ((orInvalid parsed).mapError refused >>= f') := by
  cases hb : parsed with
  | none => rfl
  | some b => exact h b hb

theorem eq_some_of_orInvalid {β : Type} {parsed : Option β} {b : β} (h : orInvalid parsed = .ok b) :
    parsed = some b := by
  cases parsed with
  | none => cases h
  | some b' => rw [Except.ok.inj h]

namespace Alike

variable {asked : Option (Action × Payload)}

theorem parsed {β : Type} {parsed : Option β} {f : β → Option (Action × Payload)} {b : β}
    (h : Alike d d' (parsed.bind f)) (hb : parsed = some b) : Alike d d' (f b) := by
  rwa [hb, Option.bind_some] at h

theorem read {command : Text → Option (Action × Payload)} {ref : Text}
    (h : Alike d d' (readCommand deps command)) (href : resolveAccountRef deps = .ok ref) :
    Alike d d' (command ref) := by
  rwa [readCommand, href] at h

theorem trade {call : TradeCall} {ref : Text} (h : Alike d d' (tradeCommand deps call))
    (href : resolveAccountRef deps = .ok ref) {rec : AccountRecord}
    (hrec : deps.registered ref = some rec) :
    Alike d d' (some (call.action, call.payload rec)) := by
  rwa [tradeCommand, addressedAccount_eq href, hrec, Option.map_some] at h

theorem answer {a : Action} {p : Payload} (h : Alike d d' (some (a, p))) : d a p = d' a p :=
  h (a, p) rfl

theorem query {a : Action} {p : Payload} (h : Alike d d' (some (a, p))) :
    mt5Query d a p = mt5Query d' a p := by
  rw [mt5Query, mt5Query, h.answer]

theorem orders {rec : Option AccountRecord}
    (h : Alike d d' (some (.orders, ordersPayload rec))) :
    Mt5Connector.getOrders d rec = Mt5Connector.getOrders d' rec := by
  rw [Mt5Connector.getOrders, Mt5Connector.getOrders, h.query]

theorem closeTrade {rec : AccountRecord} {positionId : Text} {qty : Option JsNumber}
    (h : Alike d d' (some (.close, closePayload rec positionId qty))) (clientOrderId : Uuid) :
    Slot.closeTrade d (some rec) clientOrderId positionId qty =
      Slot.closeTrade d' (some rec) clientOrderId positionId qty := by
  simp only [Slot.closeTrade, h.answer]

end Alike

/-- **A route depends on the channel through the command that it asks.** -/
theorem Request.run_congr {r : Request} (h : Alike d d' (r.asks deps)) (otherText : Numeral → Text)
    (now : Numeral) (clientOrderId : Uuid) :
    r.run otherText now clientOrderId (deps.over d) =
      r.run otherText now clientOrderId (deps.over d') := by
  cases r with
  | getSymbols query =>
      refine parsed_congr fun q hq => resolved_congr fun ref href => ?_
      have hquery := ((h.parsed hq).read href).query
      simp only [symbols, dispatchCommand_over, hquery]
  | getSymbol symbol =>
      refine resolved_congr fun ref href => ?_
      have hquery := (h.read href).query
      simp only [Mt5Connector.getSymbol, dispatchCommand_over, hquery]
  | getQuote query =>
      refine parsed_congr fun symbol hq => resolved_congr fun ref href => ?_
      have hquery := ((h.parsed hq).read href).query
      simp only [Mt5Connector.quote, dispatchCommand_over, hquery]
  | getAccount =>
      refine resolved_congr fun ref href => ?_
      have hcommand := h.read href
      cases hrec : deps.registered ref with
      | none => simp only [Mt5Connector.getAccount, registered_over, hrec]
      | some rec =>
          rw [hrec] at hcommand
          simp only [Mt5Connector.getAccount, registered_over, hrec, dispatchCommand_over,
            hcommand.query]
  | getPositions =>
      refine resolved_congr fun ref href => ?_
      have hquery := (h.read href).query
      simp only [Mt5Connector.getPositions, dispatchCommand_over, registered_over, hquery]
  | getOrders =>
      refine resolved_congr fun ref href => ?_
      simp only [dispatchCommand_over, registered_over, (h.read href).orders]
  | getOrder id =>
      refine congrArg (Except.map Reply.json) (resolved_congr fun ref href => ?_)
      simp only [dispatchCommand_over, registered_over, (h.read href).orders]
  | getFills q =>
      refine congrArg (Except.map Reply.counted) ?_
      simp only [Slot.getFills]
      split
      · next hq =>
          rw [asks, if_pos hq] at h
          refine resolved_congr fun ref href => ?_
          simp only [getHistory, dispatchCommand_over, registered_over, (h.read href).query]
      · rfl
  | postOrder body =>
      refine congrArg (Except.map Reply.order) (congrArg (Except.mapError ReadProblem.refused)
        (bind_congr_ok fun o ho => bind_congr_ok fun ref href => congrArg Except.ok ?_))
      have hcommand := h.parsed (eq_some_of_orInvalid ho)
      cases hrec : deps.registered ref with
      | none => simp only [openTrade, registered_over, hrec]
      | some rec =>
          have hanswer := (hcommand.trade href hrec).answer
          simp only [TradeCall.action, TradeCall.payload] at hanswer
          simp only [openTrade, registered_over, hrec, dispatchCommand_over, hanswer]
  | postClose id body =>
      refine congrArg (Except.map Reply.order) (congrArg (Except.mapError ReadProblem.refused)
        (bind_congr_ok fun b hb => bind_congr_ok fun ref href => congrArg Except.ok ?_))
      have hcommand := h.parsed (eq_some_of_orInvalid hb)
      cases hrec : deps.registered ref with
      | none => simp only [closeTrade, registered_over, hrec]
      | some rec =>
          simp only [registered_over, hrec, dispatchCommand_over,
            (hcommand.trade href hrec).closeTrade]
  | patchPosition id body =>
      refine congrArg (Except.map Reply.manage) (congrArg (Except.mapError ReadProblem.refused)
        (bind_congr_ok fun l hl => bind_congr_ok fun ref href => congrArg Except.ok ?_))
      have hcommand := h.parsed (eq_some_of_orInvalid hl)
      cases hrec : deps.registered ref with
      | none => simp only [modifyPosition, registered_over, hrec]
      | some rec =>
          have hquery := (hcommand.trade href hrec).query
          simp only [TradeCall.action, TradeCall.payload] at hquery
          simp only [modifyPosition, registered_over, hrec, dispatchCommand_over, hquery]
  | patchOrder id body =>
      refine congrArg (Except.map Reply.manage) (congrArg (Except.mapError ReadProblem.refused)
        (bind_congr_ok fun l hl => bind_congr_ok fun ref href => congrArg Except.ok ?_))
      have hcommand := h.parsed (eq_some_of_orInvalid hl)
      cases hrec : deps.registered ref with
      | none => simp only [modifyOrder, registered_over, hrec]
      | some rec =>
          have hquery := (hcommand.trade href hrec).query
          simp only [TradeCall.action, TradeCall.payload] at hquery
          simp only [modifyOrder, registered_over, hrec, dispatchCommand_over, hquery]
  | deleteOrder id =>
      refine congrArg (Except.map Reply.manage) (congrArg (Except.mapError ReadProblem.refused)
        (bind_congr_ok fun ref href => congrArg Except.ok ?_))
      cases hrec : deps.registered ref with
      | none => simp only [cancelOrder, registered_over, hrec]
      | some rec =>
          have hquery := (h.trade href hrec).query
          simp only [TradeCall.action, TradeCall.payload] at hquery
          simp only [cancelOrder, registered_over, hrec, dispatchCommand_over, hquery]

end Congr

/-! ## The gate in front -/

/-- Why a request gets no reply. -/
inductive Refused where
  | auth (p : AuthProblem)
  | route (p : ReadProblem)

section Serve

variable (g : Gate) (deps : Deps) (seconds : ℤ) (authorization : Option Text)

/-- A request to a route, behind its `preHandler`. -/
def serve (otherText : Numeral → Text) (now : Numeral) (clientOrderId : Uuid) (r : Request) :
    Except Refused Reply :=
  match requireScope g deps r.scope seconds authorization with
  | .error p => .error (.auth p)
  | .ok () => (r.run otherText now clientOrderId deps).mapError Refused.route

/-- The command that a request asks, if it is let through. -/
def asked (r : Request) : Option (Action × Payload) :=
  match requireScope g deps r.scope seconds authorization with
  | .error _ => none
  | .ok () => r.asks deps

end Serve

section Asked

variable {g : Gate} {deps : Deps} {seconds : ℤ} {authorization : Option Text} {r : Request}

/-- **What is served depends on the channel through the command that is asked.** -/
theorem serve_congr {d d' : DispatchCommand} (h : Alike d d' (asked g deps seconds authorization r))
    (otherText : Numeral → Text) (now : Numeral) (clientOrderId : Uuid) :
    serve g (deps.over d) seconds authorization otherText now clientOrderId r =
      serve g (deps.over d') seconds authorization otherText now clientOrderId r := by
  have hscope : ∀ d, requireScope g (deps.over d) r.scope seconds authorization =
      requireScope g deps r.scope seconds authorization := fun _ => rfl
  rw [serve, serve, hscope, hscope]
  rw [asked] at h
  cases hgate : requireScope g deps r.scope seconds authorization with
  | error p => rfl
  | ok u =>
      rw [hgate] at h
      exact congrArg (Except.mapError Refused.route)
        (Request.run_congr h otherText now clientOrderId)

/-- The commands that make SlotService trade. -/
def Action.trades : Action → Bool
  | .open_ | .close | .cancel | .sltp | .modifyPosition => true
  | _ => false

/-- The trade call that a request is about, if its body is valid. -/
def Request.call : Request → Option TradeCall
  | postOrder body => (PlaceOrder.parse body).map fun o => .openTrade o.toNewOrder
  | postClose id body =>
      (ClosePosition.parse body).map fun b => .closeTrade id (b.volume.map (·.1))
  | patchPosition id body =>
      (ModifyLevels.parse body).map fun l => .modifyPosition id l.sl.join l.tp.join
  | patchOrder id body =>
      (ModifyLevels.parse body).map fun l => .modifyOrder id l.sl.join l.tp.join
  | deleteOrder id => some (.cancelOrder id)
  | _ => none

/-- A command of the API is that of the request's trade call, or it does not trade. -/
theorem Request.asks_trades {a : Action} {p : Payload} (h : r.asks deps = some (a, p))
    (htrades : a.trades = true) : r.scope = .write ∧ ∃ call rec, r.call = some call ∧
      addressedAccount deps = some rec ∧ a = call.action ∧ p = call.payload rec := by
  have hread : ∀ {command : Text → Option (Action × Payload)},
      readCommand deps command = some (a, p) → ∃ ref, command ref = some (a, p) := by
    intro command hcommand
    rw [readCommand] at hcommand
    split at hcommand
    · cases hcommand
    · exact ⟨_, hcommand⟩
  have htrade : ∀ {call : TradeCall}, tradeCommand deps call = some (a, p) → ∃ rec,
      addressedAccount deps = some rec ∧ a = call.action ∧ p = call.payload rec := by
    intro call hcommand
    obtain ⟨rec, hrec, heq⟩ := Option.map_eq_some_iff.mp hcommand
    obtain ⟨rfl, rfl⟩ := Prod.mk.inj heq
    exact ⟨rec, hrec, rfl, rfl⟩
  cases r with
  | getSymbols query =>
      obtain ⟨q, -, hcommand⟩ := Option.bind_eq_some_iff.mp h
      obtain ⟨ref, hcommand⟩ := hread hcommand
      obtain ⟨rfl, -⟩ := Prod.mk.inj (Option.some.inj hcommand)
      cases htrades
  | getSymbol symbol =>
      obtain ⟨ref, hcommand⟩ := hread h
      obtain ⟨rfl, -⟩ := Prod.mk.inj (Option.some.inj hcommand)
      cases htrades
  | getQuote query =>
      obtain ⟨q, -, hcommand⟩ := Option.bind_eq_some_iff.mp h
      obtain ⟨ref, hcommand⟩ := hread hcommand
      obtain ⟨rfl, -⟩ := Prod.mk.inj (Option.some.inj hcommand)
      cases htrades
  | getAccount =>
      obtain ⟨ref, hcommand⟩ := hread h
      obtain ⟨rec, -, hcommand⟩ := Option.map_eq_some_iff.mp hcommand
      obtain ⟨rfl, -⟩ := Prod.mk.inj hcommand
      cases htrades
  | getPositions | getOrders | getOrder id =>
      obtain ⟨ref, hcommand⟩ := hread h
      obtain ⟨rfl, -⟩ := Prod.mk.inj (Option.some.inj hcommand)
      cases htrades
  | getFills q =>
      obtain ⟨-, hcommand⟩ := Option.ite_none_right_eq_some.mp h
      obtain ⟨ref, hcommand⟩ := hread hcommand
      obtain ⟨rfl, -⟩ := Prod.mk.inj (Option.some.inj hcommand)
      cases htrades
  | postOrder body | postClose id body | patchPosition id body | patchOrder id body =>
      obtain ⟨b, hb, hcommand⟩ := Option.bind_eq_some_iff.mp h
      obtain ⟨rec, hrec, ha, hp⟩ := htrade hcommand
      exact ⟨rfl, _, rec, by rw [call, hb, Option.map_some], hrec, ha, hp⟩
  | deleteOrder id =>
      obtain ⟨rec, hrec, ha, hp⟩ := htrade h
      exact ⟨rfl, _, rec, rfl, hrec, ha, hp⟩

/-- **A command that trades is asked with a token that grants `slot:write`.** -/
theorem asked_trades {payloadOf : Text → Bytes → Option (List (Text × Json))}
    (haccepts : AcceptsExactly g.jwtVerify payloadOf) {a : Action} {p : Payload}
    (h : asked g deps seconds authorization r = some (a, p)) (htrades : a.trades = true) :
    (∃ token c, extractBearer authorization = some token ∧
      Grants g deps payloadOf .write seconds token c) ∧
    ∃ call rec, r.call = some call ∧ addressedAccount deps = some rec ∧ a = call.action ∧
      p = call.payload rec := by
  rw [asked] at h
  split at h
  · cases h
  · next hgate =>
      obtain ⟨hwrite, hcall⟩ := Request.asks_trades h htrades
      rw [hwrite] at hgate
      obtain ⟨token, c, htoken, -, hgrants⟩ := (requireScope_eq_ok_iff haccepts).mp hgate
      exact ⟨⟨token, c, htoken, hgrants⟩, hcall⟩

end Asked

end AkronSlot.Slot
