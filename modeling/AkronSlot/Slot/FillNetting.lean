import AkronSlot.Slot.Ledger
import AkronSlot.Slot.Trading
import AkronSlot.Systems.Runs

/-!
# Orders, fills and the positions that are reported

A run of accepted `POST /v1/orders` calls and of fill events for the tickets
that the broker gave them.  The side of a fill is not on the wire: it has to
come from the row of its order.  The route writes no such row, so every fill is
netted as a buy, and it is recorded for the fallback account.

## From an order to a position

Three parties know a part of an order: the route its side, the broker its ticket, the ledger its
fills. `Book` holds what each of them has seen, and a run lets orders and fills come in any
order. `Recorded` says what the ledger has after it, in sums over the accepted orders and
executions; what the positions report is arithmetic on these sums, since
`reportedNet_positionsFor` has turned the loop of `positionsFor` into one.

## Main Definitions

* `Book`, `TradingEvent`, `tradingStep`
* `bought`, `sold`, `orderedNet`
* `ReportsOrdered` — what the ledger should report

## Main Results

* `recorded_run` — what is recorded after a run
* `reportsOrdered_iff`
-/

namespace AkronSlot.Slot

open Wire Systems Ledger

/-! ## Runs -/

/-- An order the broker accepted under a ticket. The route writes no row for it, so the ledger
does not have its side. -/
structure AcceptedOrder where
  ticket : Text
  side : Side
  instrument : Text

/-- An executed quantity, with the side that was ordered. It is what an observer of the requests
and the fills would book. -/
structure Execution where
  side : Side
  instrument : Text
  qty : ℚ

/-- The ledger, the orders the broker accepted, and what it executed. The last two are what
happened; the first is what the slot has kept of it. -/
structure Book where
  ledger : Ledger := {}
  accepted : List AcceptedOrder := []
  executions : List Execution := []

inductive TradingEvent where
  | post (clientOrderId : Uuid) (body : Option Json) (ticket : Text)
  | fill (data : FillData) (ts : Option Numeral) (now : ℚ)

/-- A slot whose broker accepts the next order under this ticket. -/
def acceptingDeps (deps : Deps) (ticket : Text) : Deps :=
  { deps with
    dispatchCommand := fun _ _ =>
      ⟨true, some (.obj [("order_id", .str ticket), ("broker_order_id", .str ticket)]), none⟩ }

/-- The order and the quantity of a well-formed fill event: it names the ticket
of an accepted order, has the order's instrument and a positive quantity. -/
def filledOrder (accepted : List AcceptedOrder) (data : FillData) : Option (AcceptedOrder × ℚ) := do
  let order ← accepted.find? fun o => data.brokerOrderId = some o.ticket
  let qty ← data.qty
  if data.symbol = order.instrument ∧ 0 < qty.value then some (order, qty.value) else none

/-- One step.  A `POST` is answered with `ok: true`; the route works with the
accounts and the connector only. -/
def tradingStep (deps : Deps) (book : Book) : TradingEvent → Option Book
  | .post clientOrderId body ticket =>
      if ticket ∈ book.accepted.map (·.ticket) then none
      else
        match PlaceOrder.parse body, postOrder (acceptingDeps deps ticket) clientOrderId body with
        | some o, .ok (.placed _ _) =>
            some { book with accepted := book.accepted ++ [⟨ticket, o.side, o.instrument⟩] }
        | _, _ => none
  | .fill data ts now =>
      match filledOrder book.accepted data with
      | none => none
      | some (order, qty) =>
          some { book with
            ledger := handleEvent deps.accounts now book.ledger (.fill data ts)
            executions := book.executions ++ [⟨order.side, order.instrument, qty⟩] }

/-! ## Quantities -/

namespace Book

variable (book : Book) (instrument : Text)

/-- The quantity of an instrument executed for one side. -/
def executed (side : Side) : ℚ :=
  ((book.executions.filter fun e => e.instrument = instrument && e.side = side).map (·.qty)).sum

def bought : ℚ := book.executed instrument .buy

def sold : ℚ := book.executed instrument .sell

/-- The net quantity that was ordered and executed. -/
def orderedNet : ℚ :=
  ((book.executions.filter (·.instrument = instrument)).map fun e => sign e.side * e.qty).sum

/-- A weight of the sides is summed side by side. -/
theorem sum_weighted (w : Side → ℚ) :
    ((book.executions.filter (·.instrument = instrument)).map fun e => w e.side * e.qty).sum =
      w .buy * book.bought instrument + w .sell * book.sold instrument := by
  simp only [bought, sold, executed]
  induction book.executions with
  | nil => simp
  | cons e es ih =>
      by_cases hname : e.instrument = instrument
      · cases hside : e.side <;> simp [hname, hside, ih] <;> ring
      · simp [hname, ih]

theorem orderedNet_eq :
    book.orderedNet instrument = book.bought instrument - book.sold instrument := by
  rw [orderedNet, sum_weighted]
  simp only [sign]
  ring

/-- The quantity of an instrument that was executed at all. -/
theorem executed_total :
    ((book.executions.filter (·.instrument = instrument)).map (·.qty)).sum =
      book.bought instrument + book.sold instrument := by
  simpa using book.sum_weighted instrument fun _ => 1

end Book

/-! ## What is recorded -/

/-- No order is recorded; every executed quantity is, for the fallback account and as a buy. It is
the invariant of a run, and exact: nothing else is in the ledger. -/
structure Recorded (deps : Deps) (book : Book) : Prop where
  no_orders : book.ledger.orders = []
  net : ∀ accountId instrument, book.ledger.netFilled accountId instrument =
    if (fallbackAccount deps.accounts).map (·.id) = some accountId then
      book.bought instrument + book.sold instrument
    else 0
  qty_pos : ∀ e ∈ book.executions, 0 < e.qty

theorem recorded_initial (deps : Deps) : Recorded deps {} where
  no_orders := rfl
  net accountId instrument := by
    rw [← Book.executed_total]
    simp [netFilled]
  qty_pos := by simp

/-- Without orders every fill is a buy. -/
theorem netFilled_of_no_orders {L : Ledger} (h : L.orders = []) (accountId instrument : Text) :
    L.netFilled accountId instrument =
      (((L.fills.filter (·.accountId = accountId)).filter (·.instrument = instrument)).map
        (·.qty)).sum := by
  have hside : ∀ f, L.fillSide f = .buy := by
    intro f
    cases hid : f.orderId <;> simp [fillSide, h, hid]
  simp only [netFilled, hside, sign_buy, one_mul]

theorem netFilled_insertFill {L : Ledger} (h : L.orders = []) (row : FillRow)
    (accountId instrument : Text) :
    (L.insertFill row).netFilled accountId instrument =
      L.netFilled accountId instrument +
        if row.accountId = accountId ∧ row.instrument = instrument then row.qty else 0 := by
  have hafter : (L.insertFill row).orders = [] := h
  rw [netFilled_of_no_orders hafter, netFilled_of_no_orders h, insertFill]
  simp only [List.filter_append, List.map_append, List.sum_append]
  by_cases haccount : row.accountId = accountId <;> by_cases hname : row.instrument = instrument <;>
    simp [haccount, hname]

/-- What the handler of a fill event does without recorded orders. -/
theorem handleEvent_fill {L : Ledger} (h : L.orders = []) (accounts : List AccountRow) (now : ℚ)
    (data : FillData) (ts : Option Numeral) :
    handleEvent accounts now L (.fill data ts) =
      match fallbackAccount accounts with
      | none => L
      | some account => L.insertFill
          { orderId := none
            accountId := account.id
            instrument := data.symbol
            qty := ((data.qty.or data.volume).map Numeral.value).getD 0
            price := (data.price.map Numeral.value).getD 0
            ts := (ts.map Numeral.value).getD now } := by
  have hrow : ∀ accountId, (data.brokerOrderId.bind fun id =>
      if id.isEmpty then none else L.getOrderByBrokerId accountId id) = none := by
    intro accountId
    cases data.brokerOrderId with
    | none => rfl
    | some id => simp [getOrderByBrokerId, h]
  simp only [handleEvent, resolveAccount_nil, hrow]
  cases fallbackAccount accounts <;> rfl

theorem filledOrder_spec {accepted : List AcceptedOrder} {data : FillData} {order : AcceptedOrder}
    {qty : ℚ} (h : filledOrder accepted data = some (order, qty)) :
    data.symbol = order.instrument ∧ 0 < qty ∧ data.qty.map Numeral.value = some qty := by
  simp only [filledOrder, Option.bind_eq_bind, Option.bind_eq_some_iff] at h
  obtain ⟨o, -, q, hq, h⟩ := h
  split_ifs at h with hok
  cases h
  exact ⟨hok.1, hok.2, by rw [hq]; rfl⟩

/-- **One step keeps what is recorded.** -/
theorem recorded_step (deps : Deps) {book book' : Book} {e : TradingEvent}
    (hrec : Recorded deps book) (h : tradingStep deps book e = some book') :
    Recorded deps book' := by
  cases e with
  | post clientOrderId body ticket =>
      simp only [tradingStep] at h
      split_ifs at h
      split at h
      · cases h
        exact ⟨hrec.no_orders, hrec.net, hrec.qty_pos⟩
      · cases h
  | fill data ts now =>
      simp only [tradingStep] at h
      split at h
      · cases h
      · next order qty hfilled =>
          obtain ⟨hsymbol, hpos, hqty⟩ := filledOrder_spec hfilled
          cases h
          have hvalue : ((data.qty.or data.volume).map Numeral.value).getD 0 = qty := by
            obtain ⟨q, hq, rfl⟩ := Option.map_eq_some_iff.mp hqty
            simp [hq]
          refine ⟨?_, fun accountId instrument => ?_, ?_⟩
          · rw [handleEvent_fill hrec.no_orders]
            cases fallbackAccount deps.accounts <;> exact hrec.no_orders
          · have hnet := hrec.net accountId instrument
            rw [← Book.executed_total] at hnet ⊢
            rw [handleEvent_fill hrec.no_orders]
            cases hfallback : fallbackAccount deps.accounts with
            | none => simpa [hfallback] using hnet
            | some account =>
                simp only [netFilled_insertFill hrec.no_orders, hnet, hfallback, hvalue, hsymbol]
                by_cases haccount : account.id = accountId <;>
                  by_cases hname : order.instrument = instrument <;> simp [haccount, hname]
          · intro e he
            rcases List.mem_append.mp he with he | he
            · exact hrec.qty_pos e he
            · rw [List.mem_singleton.mp he]
              exact hpos

/-- **What is recorded after a run.** -/
theorem recorded_run (deps : Deps) {events : List TradingEvent} {book : Book}
    (h : run (tradingStep deps) {} events = some book) : Recorded deps book :=
  run_invariant (fun _ _ _ hrec hstep => recorded_step deps hrec hstep) (recorded_initial deps) h

/-! ## What is reported -/

/-- The ledger reports for every instrument what was ordered and executed. A quantity that is dust
counts as none, on both sides. -/
def ReportsOrdered (book : Book) (accountId : Text) : Prop :=
  ∀ instrument, reportedNet (book.ledger.positionsFor accountId) instrument =
    settled (book.orderedNet instrument)

/-- The executions that are reported right.  If the account that is traded is
also the fallback account: nothing was sold, or next to nothing was traded.  If
it is not: what was bought and sold cancels. -/
def NetsAsOrdered (deps : Deps) (book : Book) (accountId : Text) : Prop :=
  if (fallbackAccount deps.accounts).map (·.id) = some accountId then
    ∀ instrument, book.sold instrument = 0 ∨ book.bought instrument + book.sold instrument < dust
  else ∀ instrument, |book.bought instrument - book.sold instrument| < dust

theorem dust_pos : 0 < dust := by norm_num [dust]

theorem settled_zero : settled 0 = 0 := by simp [settled]

theorem settled_eq_zero_iff (x : ℚ) : settled x = 0 ↔ |x| < dust := by
  unfold settled
  split_ifs with h
  · simp [h]
  · simp only [h, iff_false]
    rintro rfl
    exact h (by simpa using dust_pos)

/-- A sum and a difference of quantities settle alike only if nothing is
subtracted or nothing is left of the sum. -/
theorem settled_add_eq_sub_iff {b s : ℚ} (hb : 0 ≤ b) (hs : 0 ≤ s) :
    settled (b + s) = settled (b - s) ↔ s = 0 ∨ b + s < dust := by
  have habs : |b + s| = b + s := abs_of_nonneg (by linarith)
  constructor
  · intro h
    by_cases hsum : b + s < dust
    · exact Or.inr hsum
    · left
      rw [settled, habs, if_neg hsum, settled] at h
      have hpos := dust_pos
      split_ifs at h <;> linarith
  · rintro (rfl | hsum)
    · simp
    · have hdiff : |b - s| < dust := by
        rw [abs_lt]
        constructor <;> linarith
      rw [(settled_eq_zero_iff _).mpr (by rwa [habs]), (settled_eq_zero_iff _).mpr hdiff]

theorem executed_nonneg {book : Book} (h : ∀ e ∈ book.executions, 0 < e.qty) (instrument : Text)
    (side : Side) : 0 ≤ book.executed instrument side := by
  apply List.sum_nonneg
  intro x hx
  obtain ⟨e, he, rfl⟩ := List.mem_map.mp hx
  exact (h e (List.mem_of_mem_filter he)).le

/-- What is reported after a run, exactly. -/
theorem reports_recorded_iff {deps : Deps} {book : Book} (hrec : Recorded deps book)
    (accountId : Text) :
    ReportsOrdered book accountId ↔ NetsAsOrdered deps book accountId := by
  unfold ReportsOrdered NetsAsOrdered
  simp only [reportedNet_positionsFor, hrec.net, Book.orderedNet_eq]
  split_ifs with hfallback
  · exact forall_congr' fun instrument => settled_add_eq_sub_iff
      (executed_nonneg hrec.qty_pos instrument .buy) (executed_nonneg hrec.qty_pos instrument .sell)
  · refine forall_congr' fun instrument => ?_
    rw [settled_zero, eq_comm, settled_eq_zero_iff]

/-- **After every run the reported positions are the ordered ones exactly when**
the executions net as if all of them were buys of the fallback account. -/
theorem reportsOrdered_iff (deps : Deps) {events : List TradingEvent} {book : Book}
    (hrun : run (tradingStep deps) {} events = some book) (accountId : Text) :
    ReportsOrdered book accountId ↔ NetsAsOrdered deps book accountId :=
  reports_recorded_iff (recorded_run deps hrun) accountId

/-- The fill of two lots of ticket 42. -/
def sampleFill : FillData where
  brokerOrderId := some "42"
  deal := some "7"
  symbol := "EURUSD"
  qty := some (Numeral.ofNat 2)
  price := some (Numeral.ofNat 1)
  volume := none

theorem sampleDeps_fallback :
    fallbackAccount sampleDeps.accounts = some ⟨"a", "t", "Demo", "5001", .active, 0⟩ := by
  simp [fallbackAccount, sampleDeps]

theorem sampleDeps_fallback_id :
    (fallbackAccount sampleDeps.accounts).map (·.id) = some "a".toList := by
  rw [sampleDeps_fallback]
  rfl

/-- An accepted order. -/
theorem tradingStep_post (side : Side) :
    tradingStep sampleDeps {} (.post sampleId (some (marketBody side)) "42") =
      some { accepted := [⟨"42", side, "EURUSD"⟩] } := by
  have hpost : postOrder (acceptingDeps sampleDeps "42") sampleId (some (marketBody side)) =
      .ok (.placed (.str "42") (.str "42")) := by
    have hresolve : resolveAccountRef (acceptingDeps sampleDeps "42") = _ := sampleDeps_resolve
    simp only [postOrder, parse_marketBody, orInvalid, hresolve]
    rfl
  simp only [tradingStep, parse_marketBody, hpost]
  rfl

/-- The book after the fill. -/
def filledBook (side : Side) : Book where
  ledger := ({} : Ledger).insertFill
    { orderId := none, accountId := "a", instrument := "EURUSD",
      qty := (Numeral.ofNat 2).value, price := (Numeral.ofNat 1).value, ts := 0 }
  accepted := [⟨"42", side, "EURUSD"⟩]
  executions := [⟨side, "EURUSD", (Numeral.ofNat 2).value⟩]

theorem run_order_and_fill (side : Side) :
    run (tradingStep sampleDeps) {} [.post sampleId (some (marketBody side)) "42",
      .fill sampleFill none 0] = some (filledBook side) := by
  have hfilled : filledOrder [⟨"42", side, "EURUSD"⟩] sampleFill =
      some (⟨"42", side, "EURUSD"⟩, (Numeral.ofNat 2).value) := by
    simp [filledOrder, sampleFill]
  have hevent : handleEvent sampleDeps.accounts 0 {} (.fill sampleFill none) =
      (filledBook side).ledger := by
    rw [handleEvent_fill rfl, sampleDeps_fallback]
    rfl
  have hfill : tradingStep sampleDeps { accepted := [⟨"42", side, "EURUSD"⟩] }
      (.fill sampleFill none 0) = some (filledBook side) := by
    simp only [tradingStep, hfilled, hevent]
    rfl
  rw [run, tradingStep_post, Option.bind_some, run, hfill]
  rfl

/-- A buy is reported as it was ordered. -/
theorem buy_reported : ReportsOrdered (filledBook .buy) "a" := by
  refine (reportsOrdered_iff sampleDeps (run_order_and_fill .buy) "a").mpr ?_
  rw [NetsAsOrdered, if_pos sampleDeps_fallback_id]
  intro instrument
  left
  simp [Book.sold, Book.executed, filledBook]

/-- An account that only sold is reported long. -/
theorem sell_reported_long :
    run (tradingStep sampleDeps) {} [.post sampleId (some (marketBody .sell)) "42",
        .fill sampleFill none 0] = some (filledBook .sell) ∧
      ¬ ReportsOrdered (filledBook .sell) "a" := by
  refine ⟨run_order_and_fill .sell, fun h => ?_⟩
  have hnets := (reports_recorded_iff (recorded_run sampleDeps (run_order_and_fill .sell)) "a").mp h
  rw [NetsAsOrdered, if_pos sampleDeps_fallback_id] at hnets
  have hone := hnets "EURUSD"
  simp [Book.sold, Book.bought, Book.executed, filledBook, dust] at hone
  norm_num at hone

end AkronSlot.Slot
