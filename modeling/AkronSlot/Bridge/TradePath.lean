import AkronSlot.Bridge.CommandLink
import AkronSlot.Slot.TradingApi

/-!
# Who makes SlotService trade

The trading API in front of the command link, over any interleaving of requests and of what
happens on the link.  Commands are asked by the routes, and by `connect` and `disconnect` of
the connector, which ask for `login` and `logout`; nothing else of the slot dispatches any.

## From a line back to a request

What SlotService submits is decided by a line that it handled, and the line is that of a call of
the command client (`CommandLink`). A call is made by a route or by the connector itself, and
`Traced` keeps for each call where its command came from. The commands of the connector itself
do not trade. So a line that trades leads to a request; that the request was let through is a
matter of `asked`, which puts the scope in front of the command.

## Main Definitions

* `TradePath`, `TradePath.step`
* `Traced` — where the command of a call comes from

## Main Results

* `allTraced_of_run`
* `trades_authorized`
-/

namespace AkronSlot.Bridge

open Wire Wire.Utf8 Mql5 Slot Systems Mt5CommandClient StreamSessions

/-- A request to the trading API, and the id that its command gets, if it asks one. The time and
the table are those of the moment when it is served. -/
structure Asker where
  id : Uuid
  deps : Deps
  seconds : ℤ
  authorization : Option Text
  request : Request

/-- The command that it asks. -/
def Asker.asked (g : Gate) (q : Asker) : Option (Action × Payload) :=
  Slot.asked g q.deps q.seconds q.authorization q.request

/-- The payload of `login` and `logout`. -/
def sessionPayload (server login : Text) : Payload :=
  Payload.ofProperties [("server", some (.str server)), ("login", some (.str login))] (by simp)

/-- The link, and the requests that have been made. A request is kept with what it was asked with,
so that a line of the link can be compared with it at any later time. -/
structure TradePath where
  link : CommandLink := {}
  askers : List Asker := []

namespace TradePath

inductive Event where
  | request (q : Asker)
  /-- `Mt5Connector.connect`. -/
  | connect (id : Uuid) (server login : Text)
  /-- `Mt5Connector.disconnect`. -/
  | disconnect (id : Uuid) (server login : Text)
  | link (e : CommandLink.Event)

/-- A command goes to the command client. -/
def dispatch (s : TradePath) (id : Uuid) (c : Action × Payload) : Option TradePath :=
  (s.link.step (.client (.dispatch id c.1.name c.2.toJson))).map ({ s with link := · })

/-- The call that an event of the link makes. -/
def call? (e : CommandLink.Event) : Option (Uuid × Text) := e.client?.bind Event.name?

def step (g : Gate) (s : TradePath) : Event → Option TradePath
  | .request q =>
      let s := { s with askers := s.askers ++ [q] }
      match q.asked g with
      | none => some s
      | some c => s.dispatch q.id c
  | .connect id server login => s.dispatch id (.login, sessionPayload server login)
  | .disconnect id server login => s.dispatch id (.logout, sessionPayload server login)
  | .link e => if (call? e).isSome then none else (s.link.step e).map ({ s with link := · })

/-! ## Where commands come from -/

/-- A command is that of a session, or a request has asked it. -/
def Traced (g : Gate) (askers : List Asker) (id : Uuid) (c : Action × Payload) : Prop :=
  c.1 = .login ∨ c.1 = .logout ∨ ∃ q ∈ askers, q.id = id ∧ q.asked g = some c

/-- Every call has the frame of a command that is traced. Calls are never taken away, so that this
can be kept as an invariant. -/
def AllTraced (g : Gate) (s : TradePath) : Prop :=
  ∀ id frame, (id, frame) ∈ s.link.client.calls.names → ∃ c,
    frame = commandFrame id c.1.name c.2.toJson ++ ['\n'] ∧ Traced g s.askers id c

section Steps

variable {g : Gate} {s s' : TradePath}

theorem Traced.append {askers : List Asker} {id : Uuid} {c : Action × Payload}
    (h : Traced g askers id c) (q : Asker) : Traced g (askers ++ [q]) id c := by
  rcases h with hlogin | hlogout | ⟨q', hq', hid, hasked⟩
  · exact .inl hlogin
  · exact .inr (.inl hlogout)
  · exact .inr (.inr ⟨q', List.mem_append_left _ hq', hid, hasked⟩)

/-- The calls after a step of the link. -/
theorem names_link {l l' : CommandLink} {e : CommandLink.Event} (h : l.step e = some l') :
    l'.client.calls.names = l.client.calls.names ++ (call? e).toList := by
  cases e with
  | client e =>
      obtain ⟨c, hc, rfl, -⟩ := CommandLink.step_client.mp h
      exact names_step hc
  | poll p peers =>
      obtain ⟨a, -, rfl, -⟩ := CommandLink.step_poll.mp h
      exact (List.append_nil _).symm

theorem allTraced_dispatch {id : Uuid} {c : Action × Payload} (h : AllTraced g s)
    (hc : Traced g s.askers id c) (hstep : s.dispatch id c = some s') : AllTraced g s' := by
  obtain ⟨link, hlink, rfl⟩ := Option.map_eq_some_iff.mp hstep
  intro id' frame hmem
  dsimp only at hmem ⊢
  rw [names_link hlink, List.mem_append] at hmem
  rcases hmem with hmem | hmem
  · exact h id' frame hmem
  · obtain ⟨rfl, rfl⟩ : id' = id ∧ frame = commandFrame id c.1.name c.2.toJson ++ ['\n'] := by
      simpa [call?, CommandLink.Event.client?, Event.name?] using hmem
    exact ⟨c, rfl, hc⟩

/-- **The step lemma.** -/
theorem allTraced_step {e : Event} (h : AllTraced g s) (hstep : s.step g e = some s') :
    AllTraced g s' := by
  cases e with
  | request q =>
      have hmore : AllTraced g { s with askers := s.askers ++ [q] } := fun id frame hmem =>
        (h id frame hmem).imp fun c hc => ⟨hc.1, hc.2.append q⟩
      rw [step] at hstep
      cases hasked : q.asked g with
      | none =>
          rw [hasked] at hstep
          exact Option.some.inj hstep ▸ hmore
      | some c =>
          rw [hasked] at hstep
          have hq : q ∈ s.askers ++ [q] := List.mem_append_right _ (List.mem_singleton_self q)
          exact allTraced_dispatch hmore (.inr (.inr ⟨q, hq, rfl, hasked⟩)) hstep
  | connect id server login => exact allTraced_dispatch h (.inl rfl) hstep
  | disconnect id server login => exact allTraced_dispatch h (.inr (.inl rfl)) hstep
  | link e =>
      obtain ⟨hnone, hmap⟩ := Option.ite_none_left_eq_some.mp hstep
      obtain ⟨link, hlink, rfl⟩ := Option.map_eq_some_iff.mp hmap
      intro id frame hmem
      rw [Option.not_isSome_iff_eq_none] at hnone
      dsimp only at hmem
      rw [names_link hlink, hnone, Option.toList_none, List.append_nil] at hmem
      exact h id frame hmem

/-- **In every run, every call is traced.** -/
theorem allTraced_of_run {es : List Event} (hrun : run (step g) {} es = some s) :
    AllTraced g s :=
  run_invariant (fun _ _ _ => allTraced_step) (fun _ _ hmem => absurd hmem List.not_mem_nil) hrun

/-- The event of the link in an event. -/
def Event.link? (g : Gate) : Event → Option CommandLink.Event
  | .request q => (q.asked g).map fun c => .client (.dispatch q.id c.1.name c.2.toJson)
  | .connect id server login =>
      some (.client (.dispatch id Action.login.name (sessionPayload server login).toJson))
  | .disconnect id server login =>
      some (.client (.dispatch id Action.logout.name (sessionPayload server login).toJson))
  | .link e => some e

/-- **A run is a run of the link.** -/
theorem link_run {es : List Event} (hrun : run (step g) {} es = some s) :
    run CommandLink.step {} (es.filterMap (Event.link? g)) = some s.link := by
  refine run_project TradePath.link (Event.link? g) (fun s e s' h => ?_) hrun
  cases e with
  | request q =>
      rw [step] at h
      rw [Event.link?]
      cases hasked : q.asked g with
      | none =>
          rw [hasked] at h
          exact Option.some.inj h ▸ rfl
      | some c =>
          rw [hasked] at h
          obtain ⟨link, hlink, rfl⟩ := Option.map_eq_some_iff.mp h
          exact hlink
  | connect id server login | disconnect id server login =>
      obtain ⟨link, hlink, rfl⟩ := Option.map_eq_some_iff.mp h
      exact hlink
  | link e =>
      obtain ⟨-, hmap⟩ := Option.ite_none_left_eq_some.mp h
      obtain ⟨link, hlink, rfl⟩ := Option.map_eq_some_iff.mp hmap
      exact hlink

end Steps

/-! ## Who may trade -/

/-- Only the handlers of the trade commands submit a request. -/
theorem trades_of_submitted {t : Terminal} {queries : QueryHandlers} {field : Reader} {a : Action}
    {req : MqlTradeRequest} (haction : field "action" = a.name)
    (h : (handleCommandAndRespond t queries field).2 = some req) : a.trades = true := by
  rw [handleCommandAndRespond, haction] at h
  cases a with
  | open_ | close | cancel | sltp | modifyPosition => rfl
  | symbols | symbol | positions | orders | history | quote | account | login | logout => cases h

section Authorized

variable {g : Gate} {s : TradePath} {payloadOf : Text → Bytes → Option (List (Text × Json))}

/-- A request that was let through to trade: its token grants `slot:write`, its body is valid,
and its account is active and registered. -/
structure Authorized (g : Gate) (payloadOf : Text → Bytes → Option (List (Text × Json)))
    (q : Asker) (call : TradeCall) (rec : AccountRecord) : Prop where
  token : ∃ token c, extractBearer q.authorization = some token ∧
    Grants g q.deps payloadOf .write q.seconds token c
  body : q.request.call = some call
  account : addressedAccount q.deps = some rec

/-- A line stands for a trade call. Its id and its action are those of the call whatever the
payload holds; the whole line is the frame of the call where the frame is ASCII, which no cut can
change. -/
structure Orders (line : Text) (q : Asker) (call : TradeCall) (rec : AccountRecord) : Prop where
  id : jsonField line "id" = q.id.text
  action : jsonField line "action" = call.action.name
  whole : AllAscii (commandFrame q.id call.action.name (call.payload rec).toJson) →
    line = commandFrame q.id call.action.name (call.payload rec).toJson

/-- **Trades are authorized**: in every run, a line of the slot that makes SlotService submit a
trade request is that of a request to the API that was let through to trade, it stands for the
trade call of that request, and no other line does. -/
theorem trades_authorized (haccepts : AcceptsExactly g.jwtVerify payloadOf) {es : List Event}
    (hrun : run (step g) {} es = some s) {i m : ℕ} {line : Text}
    (hat : s.link.HandledAt i m line) {t : Terminal} {queries : QueryHandlers}
    {req : MqlTradeRequest}
    (hsubmits : (handleCommandAndRespond t queries (jsonField line)).2 = some req) :
    ∃ q ∈ s.askers, ∃ call rec, Authorized g payloadOf q call rec ∧ Orders line q call rec ∧
      ∀ i' m' line', s.link.HandledAt i' m' line' → jsonField line' "id" = q.id.text →
        i' = i ∧ m' = m := by
  have hlink := link_run hrun
  obtain ⟨c, hc, hof⟩ := CommandLink.lineOf_handledAt hlink hat
  have hname : (c.id, c.frame) ∈ s.link.client.calls.names :=
    List.mem_map.mpr ⟨c.key, List.mem_map_of_mem hc, rfl⟩
  obtain ⟨⟨a, p⟩, hframe, hsource⟩ := allTraced_of_run hrun _ _ hname
  have haction := hof.action a p.toJson hframe
  have htrades := trades_of_submitted haction hsubmits
  rcases hsource with rfl | rfl | ⟨q, hq, hid, hasked⟩
  · cases htrades
  · cases htrades
  · obtain ⟨htoken, call, rec, hcall, hrec, rfl, rfl⟩ := asked_trades haccepts hasked htrades
    refine ⟨q, hq, call, rec, ⟨htoken, hcall, hrec⟩, ⟨hof.id.trans (congrArg Uuid.text hid.symm),
      haction, fun hascii => ?_⟩, fun i' m' line' hat' hid' => ?_⟩
    · rw [hid] at hascii ⊢
      exact hof.whole _ hframe hascii
    · exact CommandLink.handledAt_unique hlink hat' hat
        (hid'.trans ((congrArg Uuid.text hid).trans hof.id.symm))

end Authorized

/-! ## An order -/

/-- A run of the link that makes no call, as a run behind the API. -/
theorem run_link {g : Gate} {s : TradePath} {l : CommandLink} {es : List CommandLink.Event}
    (hquiet : ∀ e ∈ es, call? e = none) (hrun : run CommandLink.step s.link es = some l) :
    run (step g) s (es.map Event.link) = some { s with link := l } := by
  induction es generalizing s with
  | nil =>
      obtain rfl := Option.some.inj hrun
      rfl
  | cons e es ih =>
      obtain ⟨l', hl', hrest⟩ := (run_cons _).mp hrun
      obtain ⟨he, hes⟩ := List.forall_mem_cons.mp hquiet
      have hstep : s.step g (.link e) = some { s with link := l' } := by
        rw [step, he, hl']
        rfl
      exact (run_cons _).mpr ⟨_, hstep, ih hes hrest⟩

/-- `POST /v1/orders` for a market order. -/
def orderAsker : Asker where
  id := sampleId
  deps := sampleDeps
  seconds := 99940
  authorization := some mintedHeader
  request := .postOrder (some (marketBody .buy))

/-- Its command. -/
def orderCommand : Action × Payload :=
  (.open_, openPayload sampleRecord (marketOrder .buy).toNewOrder)

theorem orderAsker_asked : orderAsker.asked mintedGate = some orderCommand := by
  have hgate : requireScope mintedGate orderAsker.deps orderAsker.request.scope
      orderAsker.seconds orderAsker.authorization = .ok () := requireScope_mintedHeader
  rw [Asker.asked, Slot.asked, hgate]
  show (PlaceOrder.parse (some (marketBody .buy))).bind _ = _
  rw [parse_marketBody, Option.bind_some, tradeCommand]
  show (addressedAccount sampleDeps).map _ = _
  rw [sampleDeps_account]
  rfl

/-- Its line. -/
def orderLine : Text := commandFrame sampleId orderCommand.1.name orderCommand.2.toJson

/-- A poll that takes on the slot and reads the line. -/
def orderPoll : PollCalls where
  accepted i := if i = 0 then .client 7 else .error 0
  received _ := .bytes (encode (orderLine ++ ['\n']))
  terminal _ _ := sampleTerminal
  queries _ _ := queryHandlers emptyBroker

/-- What happens on the link behind the request. -/
def orderLink : List CommandLink.Event :=
  [.client (.ensured 0), .client (.execute 0), .poll orderPoll [some 0]]

/-- The run. -/
def orderRun : List Event :=
  .link (.client (.connected 0)) :: .request orderAsker :: orderLink.map Event.link

/-- SlotService handles the order. -/
theorem order_handled : ∃ s, run (step mintedGate) {} orderRun = some s ∧
    s.link.HandledAt 0 0 orderLine := by
  have hshape : (run CommandLink.step {} (.client (.connected 0) ::
      .client (.dispatch sampleId orderCommand.1.name orderCommand.2.toJson) :: orderLink)).any
        (fun s => s.peers = [some 0] && s.server.conns.map CmdConn.handled = [[orderLine]] &&
          s.client.sockets.length = 1) = true := by
    decide +kernel
  obtain ⟨l, hrun, hl⟩ := (Option.any_eq_true _ _).mp hshape
  simp only [Bool.and_eq_true, decide_eq_true_eq, List.map_eq_singleton_iff] at hl
  obtain ⟨⟨hpeers, k, hconns, hhandled⟩, hsocks⟩ := hl
  obtain ⟨l₁, hconnected, hrun⟩ := (run_cons _).mp hrun
  obtain ⟨l₂, hdispatch, hrun⟩ := (run_cons _).mp hrun
  refine ⟨{ link := l, askers := [orderAsker] }, ?_, ?_⟩
  · have hfirst : step mintedGate {} (.link (.client (.connected 0))) = some { link := l₁ } := by
      rw [step, hconnected]
      rfl
    have hrequest : step mintedGate { link := l₁ } (.request orderAsker) =
        some { link := l₂, askers := [orderAsker] } := by
      have hid : orderAsker.id = sampleId := rfl
      rw [step, orderAsker_asked]
      dsimp only [dispatch]
      rw [hid, hdispatch]
      rfl
    refine (run_cons _).mpr ⟨_, hfirst, (run_cons _).mpr ⟨_, hrequest, ?_⟩⟩
    exact run_link (by simp [orderLink, call?, CommandLink.Event.client?, Event.name?]) hrun
  · obtain ⟨k', hk'⟩ := List.length_eq_one_iff.mp hsocks
    exact ⟨0, k, k', ⟨by rw [hpeers]; rfl, by rw [hconns]; rfl, by rw [hk']; rfl⟩,
      by rw [hhandled]; rfl⟩

/-- And submits a request. -/
theorem order_submits :
    (handleCommandAndRespond sampleTerminal (queryHandlers emptyBroker)
      (jsonField orderLine)).2 = some (openRequest (jsonField orderLine)) := by
  have haction : jsonField orderLine "action" = Action.open_.name := by decide +kernel
  rw [handleCommandAndRespond, haction]
  rfl

/-- It was let through to do so. -/
theorem order_authorized : ∃ s, run (step mintedGate) {} orderRun = some s ∧
    ∃ q ∈ s.askers, ∃ call rec, Authorized mintedGate mintedPayloadOf q call rec ∧
      Orders orderLine q call rec := by
  obtain ⟨s, hrun, hat⟩ := order_handled
  obtain ⟨q, hq, call, rec, hauthorized, horders, -⟩ := trades_authorized
    (verifyWith_acceptsExactly mintedPayloadOf) hrun hat order_submits
  exact ⟨s, hrun, q, hq, call, rec, hauthorized, horders⟩

end TradePath

end AkronSlot.Bridge
