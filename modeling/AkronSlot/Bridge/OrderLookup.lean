import AkronSlot.Bridge.QueryResults
import AkronSlot.Bridge.ReplyPieces
import AkronSlot.Slot.TradingReads

/-!
# Looking up a pending order

A ticket is an unsigned number of 64 bits.  SlotService prints it as a signed one, the
slot parses that to a double, and `GET /v1/orders/:id` compares what `String` makes of
the double with the path.  A ticket that is not found is thrown as a 404 inside
`withBrokerErrors`, and nobody sees that one.

## Three forms of a ticket

The terminal has 64 bits, the wire a signed numeral, the slot a double and then its text.
Tickets up to 2^53 come through as they are, and of those above some fall together with their
neighbours or print in another way. `ticketKey` is what is left of a ticket at the end, and the
route finds the first order with the right key; so the answer is right exactly if that order has
the ticket.

## Main Definitions

* `Reported` — the orders that the broker sends have the tickets of the rows
* `LookedUp` — the route answers for the order with the ticket

## Main Results

* `findOrder_reported` — which order is found
* `lookedUp_iff`
-/

namespace AkronSlot.Bridge

open Wire Mql5 Slot

/-! ## Tickets -/

theorem integerOf_integerNumeral (i : ℤ) : integerOf (integerNumeral i) = some i := by
  rw [integerOf, if_pos ⟨rfl, rfl⟩]
  simp only [integerNumeral, Whole.value_ofNat, decide_eq_true_eq, Option.some.injEq]
  split <;> omega

theorem integerNumeral_injective : Function.Injective integerNumeral := by
  intro i j h
  have hinteger := integerOf_integerNumeral i
  rw [h, integerOf_integerNumeral] at hinteger
  exact (Option.some.inj hinteger).symm

theorem asLong_bound (u : ℕ) : -2 ^ 63 ≤ asLong u ∧ asLong u < 2 ^ 63 := by
  have hmod := Nat.mod_lt u (show 0 < 2 ^ 64 by decide)
  unfold asLong toSigned
  split <;> omega

/-- Tickets are told apart by what is printed of them. -/
theorem eq_of_asLong_eq {u v : ℕ} (hu : u < 2 ^ 64) (hv : v < 2 ^ 64)
    (h : asLong u = asLong v) : u = v := by
  unfold asLong toSigned at h
  rw [Nat.mod_eq_of_lt hu, Nat.mod_eq_of_lt hv] at h
  split_ifs at h <;> omega

/-- The numeral that is sent as the ticket. -/
def ticketNumeral (row : Mql5.OrderRow) : Numeral := integerNumeral (asLong row.ticket)

/-- What the route compares with the path: the text that JavaScript makes of the ticket, once it
has been printed as a signed number and parsed to a double. -/
def ticketKey (row : Mql5.OrderRow) : Text := stringOfInteger (asLong row.ticket)

/-- Each order has the ticket of its row. -/
def Reported : List Mql5.OrderRow → List Json → Prop :=
  List.Forall₂ fun row o => o.get "ticket" = some (.num (ticketNumeral row))

theorem ticketKey_of_lt {row : Mql5.OrderRow} (h : row.ticket < 2 ^ 53) :
    ticketKey row = natText row.ticket := by
  rw [ticketKey, asLong_of_lt (by omega), stringOfInteger_of_lt h]

theorem numberString_ticket (otherText : Numeral → Text) (row : Mql5.OrderRow) :
    numberString otherText (ticketNumeral row) = ticketKey row := by
  have hbound := asLong_bound row.ticket
  rw [numberString, ticketNumeral, integerOf_integerNumeral]
  exact if_pos (by omega)

/-! ## Which order is found -/

/-- A value with a property is an object. -/
theorem object_of_get {o v : Json} {key : Text} (h : o.get key = some v) :
    property o key = .ok (some v) ∧ Json.truthy (some o) = true := by
  cases o with
  | obj ms => exact ⟨congrArg Except.ok h, rfl⟩
  | null => cases h
  | bool b => cases h
  | num n => cases h
  | str s => cases h
  | arr vs => cases h

/-- **The first order whose ticket prints as the path is found.** -/
theorem findOrder_reported (otherText : Numeral → Text) (orderId : Text)
    {rows : List Mql5.OrderRow} {orders : List Json} (h : Reported rows orders) :
    (rows.find? (ticketKey · = orderId) = none ∧
      findOrder otherText orderId orders = .ok none) ∨
    ∃ p ∈ rows.zip orders, rows.find? (ticketKey · = orderId) = some p.1 ∧
      p.2.get "ticket" = some (.num (ticketNumeral p.1)) ∧
      findOrder otherText orderId orders = .ok (some p.2) := by
  induction h with
  | nil => exact .inl ⟨rfl, rfl⟩
  | @cons row o rows orders hticket _ ih =>
      have hstring : ticketString otherText (o.get "ticket") = ticketKey row := by
        rw [hticket]
        exact numberString_ticket otherText row
      have hfind : findOrder otherText orderId (o :: orders) =
          if ticketKey row = orderId then .ok (some o) else findOrder otherText orderId orders := by
        rw [findOrder, (object_of_get hticket).1, ← hticket]
        simp only [bind, Except.bind, hstring]
        rfl
      by_cases hkey : ticketKey row = orderId
      · refine .inr ⟨(row, o), List.mem_cons_self .., ?_, hticket, by rw [hfind, if_pos hkey]⟩
        rw [List.find?_cons_of_pos (by simpa using hkey)]
      · rw [hfind, if_neg hkey, List.find?_cons_of_neg (by simpa using hkey)]
        exact ih.imp_right fun ⟨p, hp, hfound⟩ => ⟨p, List.mem_cons_of_mem _ hp, hfound⟩

/-! ## The route -/

section Route

variable (otherText : Numeral → Text) (deps : Deps) (rows : List Mql5.OrderRow) (orderId : Text)

/-- What `getOrders` gives the route. -/
def ordersReply : Except Text Json :=
  Mt5Connector.getOrders deps.dispatchCommand (addressedAccount deps)

/-- The command of `getOrders` succeeds. The route cannot tell a failure of it from any other
error of the broker. -/
def ordersDispatched : Bool :=
  (deps.dispatchCommand .orders (Mt5Connector.ordersPayload (addressedAccount deps))).ok

/-- A broker that answers reports the orders of the rows. A broker that does not answer reports
nothing, and the route has to fail. -/
def Reports : Prop :=
  ordersDispatched deps = true → ∃ orders, ordersReply deps = .ok (.arr orders) ∧
    Reported rows orders

/-- `GET /v1/orders/:id` answers for the order with the ticket: with the order if it is pending,
and with a 404 if it is not, unless the broker could not be asked. -/
structure LookedUp : Prop where
  found : ordersDispatched deps = true → (∃ row ∈ rows, natText row.ticket = orderId) →
    ∃ orders, ordersReply deps = .ok (.arr orders) ∧
      ∃ p ∈ rows.zip orders, natText p.1.ticket = orderId ∧
        getOrder otherText deps orderId = .ok p.2
  missing : ordersDispatched deps = true → (∀ row ∈ rows, natText row.ticket ≠ orderId) →
    ∃ e, getOrder otherText deps orderId = .error e ∧ e.status = 404 ∧ e.code = .notFound
  same : ∀ o, getOrder otherText deps orderId = .ok o →
    ∃ orders, ordersReply deps = .ok (.arr orders) ∧
      ∃ p ∈ rows.zip orders, natText p.1.ticket = orderId ∧ o = p.2
  down : ∀ e, getOrder otherText deps orderId = .error e → e.status = 502 ∨ e.code = .brokerDown →
    ordersDispatched deps = false

/-- The first order whose ticket prints as the path has that ticket. Above `2 ^ 53` two tickets
may print alike, because a JSON number becomes a double. -/
def FoundByTicket : Prop :=
  ∃ row, rows.find? (ticketKey · = orderId) = some row ∧ natText row.ticket = orderId

variable {otherText deps rows orderId}

theorem getOrder_eq {ref : Text} (href : resolveAccountRef deps = .ok ref) :
    getOrder otherText deps orderId = (withBrokerErrors (orderReply otherText orderId
      (ordersReply deps))).mapError ReadProblem.broker := by
  rw [getOrder, ordersReply, addressedAccount_eq href, href]
  rfl

theorem ordersReply_of_failed (hfailed : ordersDispatched deps = false) :
    ∃ message, ordersReply deps = .error message := by
  rw [ordersDispatched] at hfailed
  simp only [ordersReply, Mt5Connector.getOrders, mt5Query, hfailed]
  exact ⟨_, rfl⟩

theorem orderReply_none {orders : List Json}
    (h : findOrder otherText orderId orders = .ok none) :
    orderReply otherText orderId (.ok (.arr orders)) =
      .error (.problem (orderNotFound orderId)) := by
  simp only [orderReply, Except.mapError, bind, Except.bind, h]
  rfl

theorem orderReply_some {orders : List Json} {o v : Json}
    (h : findOrder otherText orderId orders = .ok (some o))
    (hticket : o.get "ticket" = some v) :
    orderReply otherText orderId (.ok (.arr orders)) = .ok o := by
  simp only [orderReply, Except.mapError, bind, Except.bind, h, (object_of_get hticket).2]
  rfl

/-- A ticket that no order prints is a 502, not a 404. -/
theorem getOrder_of_not_found {ref : Text} {orders : List Json}
    (href : resolveAccountRef deps = .ok ref) (hreply : ordersReply deps = .ok (.arr orders))
    (hfind : findOrder otherText orderId orders = .ok none) :
    getOrder otherText deps orderId =
      .error (.broker (brokerDown (orderNotFound orderId).message)) := by
  rw [getOrder_eq href, hreply, orderReply_none hfind]
  rfl

/-- Tickets below `2 ^ 53` print as they are. -/
theorem foundByTicket_iff (hsmall : ∀ row ∈ rows, row.ticket < 2 ^ 53) :
    FoundByTicket rows orderId ↔ ∃ row ∈ rows, natText row.ticket = orderId := by
  have hkeys : rows.find? (ticketKey · = orderId) = rows.find? (natText ·.ticket = orderId) := by
    refine List.find?_congr fun row hrow => ?_
    rw [ticketKey_of_lt (hsmall row hrow)]
  rw [FoundByTicket, hkeys]
  constructor
  · rintro ⟨row, hrow, hid⟩
    exact ⟨row, List.mem_of_find?_eq_some hrow, hid⟩
  · intro hpending
    have hsome : (rows.find? (natText ·.ticket = orderId)).isSome :=
      List.find?_isSome.mpr (by simpa using hpending)
    obtain ⟨row, hrow⟩ := Option.isSome_iff_exists.mp hsome
    exact ⟨row, hrow, by simpa using List.find?_some hrow⟩

/-- Two rows whose orders are the same have one ticket. -/
theorem ticket_eq_of_reported {orders : List Json} {p q : Mql5.OrderRow × Json}
    (htickets : ∀ row ∈ rows, row.ticket < 2 ^ 64) (h : Reported rows orders)
    (hp : p ∈ rows.zip orders) (hq : q ∈ rows.zip orders) (hsame : p.2 = q.2) :
    p.1.ticket = q.1.ticket := by
  have hzip : ∀ r ∈ rows.zip orders, r.2.get "ticket" = some (.num (ticketNumeral r.1)) :=
    fun r hr => (List.forall₂_iff_zip.mp h).2 hr
  have hnumeral := hzip p hp
  rw [hsame, hzip q hq] at hnumeral
  have hlong := integerNumeral_injective (Json.num.inj (Option.some.inj hnumeral))
  exact (eq_of_asLong_eq (htickets _ (List.of_mem_zip hq).1) (htickets _ (List.of_mem_zip hp).1)
    hlong).symm

/-- **The route answers for the ticket exactly when the command fails, or when the first order
whose ticket prints as the path has that ticket.** A failure is answered as one; an order that is
not found is answered in the same way. -/
theorem lookedUp_iff {ref : Text} (href : resolveAccountRef deps = .ok ref)
    (htickets : ∀ row ∈ rows, row.ticket < 2 ^ 64) (hreports : Reports deps rows) :
    LookedUp otherText deps rows orderId ↔
      ordersDispatched deps = false ∨ FoundByTicket rows orderId := by
  by_cases hfailed : ordersDispatched deps = false
  · obtain ⟨message, hreply⟩ := ordersReply_of_failed hfailed
    have hanswer : getOrder otherText deps orderId = .error (.broker (brokerDown message)) := by
      rw [getOrder_eq href, hreply]
      rfl
    refine iff_of_true ⟨?_, ?_, ?_, fun _ _ _ => hfailed⟩ (.inl hfailed)
    · simp [hfailed]
    · simp [hfailed]
    · simp [hanswer]
  · rw [or_iff_right hfailed]
    obtain ⟨orders, hreply, hreported⟩ := hreports (by simpa using hfailed)
    rcases findOrder_reported otherText orderId hreported with
      ⟨hrows, hfind⟩ | ⟨p, hp, hrows, hticket, hfind⟩
    · -- the 404 comes out as a 502
      have hanswer := getOrder_of_not_found href hreply hfind
      refine iff_of_false (fun h => hfailed (h.down _ hanswer (.inl rfl))) ?_
      rintro ⟨row, hrow, -⟩
      cases hrows.symm.trans hrow
    · have hanswer : getOrder otherText deps orderId = .ok p.2 := by
        rw [getOrder_eq href, hreply, orderReply_some hfind hticket]
        rfl
      constructor
      · intro h
        obtain ⟨orders', horders, q, hq, hid, hsame⟩ := h.same p.2 hanswer
        obtain rfl : orders = orders' := by simpa [hreply] using horders
        exact ⟨p.1, hrows, ticket_eq_of_reported htickets hreported hp hq hsame ▸ hid⟩
      · rintro ⟨row, hrow, hid⟩
        obtain rfl : p.1 = row := Option.some.inj (hrows.symm.trans hrow)
        refine ⟨fun _ _ => ⟨orders, hreply, p, hp, hid, hanswer⟩, fun _ hno => ?_, ?_, ?_⟩
        · exact absurd hid (hno _ (List.of_mem_zip hp).1)
        · intro o ho
          exact ⟨orders, hreply, p, hp, hid, Except.ok.inj (ho.symm.trans hanswer)⟩
        · intro e he
          cases he.symm.trans hanswer

end Route

/-! ## A terminal -/

/-- An order is the object of its text, and its ticket comes first. -/
theorem orderText_ticket {o : Mql5.OrderRow} (hsymbol : PlainText o.symbol)
    (hcomment : ¬ HasRawControl o.comment) :
    ∃ v, orderText o = Json.print v ∧ v.get "ticket" = some (.num (ticketNumeral o)) := by
  have htype : PlainText (orderTypeText o.type) := by
    unfold orderTypeText
    split <;> decide
  obtain ⟨js, hjs, hnames⟩ := @membersText_eq
    [("symbol", rawString o.symbol), ("magic", integerToString o.magic),
      ("type", rawString (orderTypeText o.type)), ("state", intText o.state),
      ("volume_initial", doubleToString o.volumeInitial 2),
      ("volume_current", doubleToString o.volumeCurrent 2), ("price", doubleToString o.priceOpen 5),
      ("sl", doubleToString o.sl 5), ("tp", doubleToString o.tp 5),
      ("comment", rawString (jsonEscape o.comment)), ("setup_time", intText o.timeSetup)]
    (by simp only [List.map_cons, List.map_nil]; decide +kernel) (by
      simp only [List.map_cons, List.map_nil, List.forall_mem_cons, intText, prints_integer,
        prints_double, prints_raw hsymbol, prints_raw htype, prints_escaped hcomment]
      simp)
  refine ⟨.obj (("ticket".toList, .num (ticketNumeral o)) :: js), ?_, ?_⟩
  · have hticket : escapeText "ticket" = "ticket".toList := by decide
    have htext : ticketText o.ticket = Json.print (.num (ticketNumeral o)) :=
      integerToString_eq _
    rw [Json.print, quote_append, hticket, ← htext, ← hjs]
    rfl
  · have hnone : Json.lookup "ticket" js = none :=
      @get_eq_none js _ (by rw [hnames]; simp only [List.map_cons, List.map_nil]; decide +kernel)
    rw [Json.get, Json.lookup, hnone]
    exact if_pos rfl

/-- A terminal whose strings need no escape reports its pending orders. -/
theorem reports_queryChannel {t : Terminal} {b : Broker} {id : Uuid} {deps : Deps}
    (hdeps : deps.dispatchCommand = queryChannel t b id)
    (hplain : ∀ o ∈ pendingOrders b, PlainText o.symbol ∧ ¬ HasRawControl o.comment) :
    ordersDispatched deps = true ∧ Reports deps (pendingOrders b) := by
  obtain ⟨orders, hanswer, horders⟩ := @getOrders_answer t b id (addressedAccount deps) hplain
  rw [← hdeps] at hanswer
  refine ⟨?_, fun _ => ⟨orders, hanswer, ?_⟩⟩
  · by_contra hfailed
    obtain ⟨message, herror⟩ := ordersReply_of_failed (by simpa using hfailed)
    cases hanswer.symm.trans herror
  have htexts : List.Forall₂ (fun o v => orderText o = Json.print v) (pendingOrders b) orders := by
    have heq : List.Forall₂ Eq ((pendingOrders b).map orderText) (orders.map Json.print) :=
      horders ▸ List.forall₂_refl _
    exact List.forall₂_map_left_iff.mp (List.forall₂_map_right_iff.mp heq)
  obtain ⟨hlength, hpairs⟩ := List.forall₂_iff_zip.mp htexts
  refine List.forall₂_iff_zip.mpr ⟨hlength, fun {o v} hmem => ?_⟩
  obtain ⟨hsymbol, hcomment⟩ := hplain o (List.of_mem_zip hmem).1
  obtain ⟨w, hw, hticket⟩ := orderText_ticket hsymbol hcomment
  rw [print_injective ((hpairs hmem).symm.trans hw)]
  exact hticket

/-- The routes in front of a terminal with one pending order. -/
def tradingDeps : Deps :=
  { sampleDeps with dispatchCommand := queryChannel sampleTerminal tradingBroker sampleId }

theorem tradingDeps_resolve : resolveAccountRef tradingDeps =
    .ok (accountRef "mt5" ⟨"a", "t", "Demo", "5001", .active, 0⟩) := by
  simp [resolveAccountRef, listAccounts, tradingDeps, sampleDeps]

theorem tradingDeps_reports :
    ordersDispatched tradingDeps = true ∧ Reports tradingDeps (pendingOrders tradingBroker) := by
  have hdeps : tradingDeps.dispatchCommand =
      queryChannel sampleTerminal tradingBroker sampleId := by simp only [tradingDeps]
  refine reports_queryChannel hdeps fun o ho => ?_
  exact tradingBroker_plain.orders o (List.mem_of_mem_filter ho)

theorem tradingBroker_tickets : ∀ row ∈ pendingOrders tradingBroker, row.ticket = 9 := by
  intro row hrow
  obtain rfl := List.mem_singleton.mp (List.mem_of_mem_filter hrow)
  rfl

/-- The order is there under its ticket. -/
theorem tradingDeps_lookedUp :
    LookedUp Numeral.text tradingDeps (pendingOrders tradingBroker) "9" := by
  refine (lookedUp_iff tradingDeps_resolve (fun row hrow => ?_) tradingDeps_reports.2).mpr (.inr ?_)
  · rw [tradingBroker_tickets row hrow]
    norm_num
  · rw [foundByTicket_iff fun row hrow => by rw [tradingBroker_tickets row hrow]; norm_num]
    exact ⟨_, List.mem_cons_self .., by decide⟩

/-- A ticket that is not pending is answered with a 502. -/
theorem tradingDeps_not_lookedUp :
    ¬ LookedUp Numeral.text tradingDeps (pendingOrders tradingBroker) "8" := by
  intro h
  obtain ⟨hdispatched, hreports⟩ := tradingDeps_reports
  obtain ⟨orders, hreply, hreported⟩ := hreports hdispatched
  have hfind : findOrder Numeral.text "8" orders = .ok none := by
    rcases findOrder_reported Numeral.text "8" hreported with ⟨-, hfind⟩ | ⟨p, hp, hrow, -⟩
    · exact hfind
    · have hticket := tradingBroker_tickets p.1 (List.of_mem_zip hp).1
      have hkey := List.find?_some hrow
      rw [decide_eq_true_eq, ticketKey_of_lt (by rw [hticket]; norm_num), hticket] at hkey
      exact absurd hkey (by decide)
  have hno : ∀ row ∈ pendingOrders tradingBroker, natText row.ticket ≠ "8" := by
    intro row hrow
    rw [tradingBroker_tickets row hrow]
    decide
  obtain ⟨e, hanswer, hstatus, -⟩ := h.missing hdispatched hno
  rw [getOrder_of_not_found tradingDeps_resolve hreply hfind, Except.error.injEq] at hanswer
  rw [← hanswer] at hstatus
  cases hstatus

end AkronSlot.Bridge
