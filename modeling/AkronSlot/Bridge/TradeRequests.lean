import AkronSlot.Bridge.PayloadFields
import AkronSlot.Bridge.TradeReplies
import AkronSlot.Slot.Trading

/-!
# What the handlers submit for an API call

The payload of a command, **delivered** value by value, and the trade request
that the handler makes of it.  The order type is never looked at, a close takes
its symbol, volume and direction from whatever position stands at the index that
equals the ticket, and a number that is absent or infinite is read as zero.

## Delivered payloads

`JsonField` loses values on the way (see `PayloadFields`), and what the handlers
make of the values they do get is a question of its own.  `deliveredReader`
separates the two: it is `JsonField` as it should be, and the handlers are run
on it unchanged.

## What is meant

`Places` and `Closes` say what the trade request of an API request should be,
field by field and from the body alone.  `Faithful` is the condition under which
it is that, and speaks of the body and of the open positions only.

## Main Definitions

* `deliveredReader` — `JsonField` as it should be
* `Places`, `Closes` — what a request means
* `ApiRequest`, `ApiRequest.Means`, `ApiRequest.Faithful`

## Main Results

* `place_means_iff`, `close_means_iff`
* `apiRequest_means_iff`
-/

namespace AkronSlot.Bridge

open Wire Mql5 Slot

/-! ## Delivered payloads -/

/-- The reader that delivers the values of a command. With it the handlers are judged apart from
`JsonField`, which has failings of its own. -/
def deliveredReader (id : Uuid) (a : Action) (p : Payload) : Reader := fun path =>
  if path = "id" then id.text
  else if path = "action" then a.name
  else if payloadPath [] <+: path then ((p.get (path.drop 8)).map Scalar.text).getD []
  else []

section Delivered

variable (id : Uuid) (a : Action) (p : Payload)

@[simp] theorem deliveredReader_id : deliveredReader id a p "id" = id.text := rfl

@[simp] theorem deliveredReader_action : deliveredReader id a p "action" = a.name := rfl

/-- A value is delivered as its text, an absent one as the empty text. -/
theorem deliveredReader_payload (k : Text) :
    deliveredReader id a p (payloadPath k) = ((p.get k).map Scalar.text).getD [] := by
  have hpath : payloadPath k = 'p' :: 'a' :: 'y' :: 'l' :: 'o' :: 'a' :: 'd' :: '.' :: k := rfl
  have hid : payloadPath k ≠ "id" := by rw [hpath]; simp
  have haction : payloadPath k ≠ "action" := by rw [hpath]; simp
  have hstart : payloadPath [] <+: payloadPath k := ⟨k, rfl⟩
  have hdrop : (payloadPath k).drop 8 = k := rfl
  simp only [deliveredReader, if_neg hid, if_neg haction, if_pos hstart, hdrop]

/-- A property of an object literal is delivered. -/
theorem deliveredReader_ofProperties {l : List (Text × Option Scalar)} (h : (l.map Prod.fst).Nodup)
    {k : Text} {v : Option Scalar} (hkv : (k, v) ∈ l) :
    deliveredReader id a (Payload.ofProperties l h) (payloadPath k) =
      (v.map Scalar.text).getD [] := by
  rw [deliveredReader_payload, Payload.get_ofProperties h hkv]

end Delivered

/-- What the handlers read for a number of the payload.  An absent number is no
text, an infinite one the text `null`, and `StringToDouble` makes zero of both. -/
def numberRead (x : Option JsNumber) : ℚ := (x.bind JsNumber.value?).getD 0

theorem stringToDouble_null : stringToDouble Scalar.null.text = 0 :=
  stringToDouble_of_noNumber (by decide) (by decide) (by decide)

theorem stringToDouble_numberScalar (x : JsNumber) :
    stringToDouble (numberScalar x).text = x.value?.getD 0 := by
  cases x with
  | finite x => exact (stringToDouble_text _).trans (nearest_decimal x.nearest_val)
  | infinite => exact stringToDouble_null

theorem stringToDouble_number (x : Option JsNumber) :
    stringToDouble (((x.map numberScalar).map Scalar.text).getD []) = numberRead x := by
  cases x with
  | none => exact stringToDouble_nil
  | some x => exact stringToDouble_numberScalar x

theorem stringToDouble_level (x : Option JsNumber) :
    stringToDouble (levelScalar x).text = numberRead x := by
  cases x with
  | none => exact stringToDouble_null
  | some x => exact stringToDouble_numberScalar x

/-- A field of a trade request holds the number that was given, zero being the
notation for none. -/
def CarriesNumber (given : Option JsNumber) (field : ℚ) : Prop :=
  match given with
  | none => field = 0
  | some x => x.value? = some field

/-- Of the numbers that are given, exactly the finite ones arrive. -/
theorem carriesNumber_numberRead_iff (given : Option JsNumber) :
    CarriesNumber given (numberRead given) ↔ ∀ x ∈ given, x.isFinite := by
  cases given with
  | none => simp [CarriesNumber, numberRead]
  | some x => cases x <;> simp [CarriesNumber, numberRead, JsNumber.value?, JsNumber.isFinite]

/-! ## Orders and closes -/

/-- A request that opens a position or closes one. A position is named by its ticket in the path.
-/
inductive ApiRequest where
  | place (o : PlaceOrder)
  | close (p : OpenPosition) (body : ClosePosition)

namespace ApiRequest

/-- The request is about an open position, and not about more than its volume. Of other requests
nothing is asked, since there is nothing that they could mean. -/
def Admitted (t : Terminal) : ApiRequest → Prop
  | place _ => True
  | close p body => p ∈ t.positions ∧ ∀ v ∈ body.volume, ¬ v.1.Exceeds p.volume

/-- The trade call of the route. -/
def call : ApiRequest → TradeCall
  | place o => .openTrade o.toNewOrder
  | close p body => .closeTrade (natText p.ticket) (body.volume.map (·.1))

end ApiRequest

/-- The order type of a kind and a side. -/
def orderType : OrderKind → Side → Mql5.OrderType
  | .market, .buy => .buy
  | .market, .sell => .sell
  | .limit, .buy => .buyLimit
  | .limit, .sell => .sellLimit
  | .stop, .buy => .buyStop
  | .stop, .sell => .sellStop

/-- The request places the order: a market order is a deal, any other kind is a
pending order at its price.  A market order has no price of its own to keep. -/
structure Places (o : PlaceOrder) (req : MqlTradeRequest) : Prop where
  symbol : req.symbol = o.instrument
  volume : o.qty.1.value? = some req.volume
  action : req.action = if o.type = .market then .deal else .pending
  type : req.type = orderType o.type o.side
  price : o.type ≠ .market → ∃ p ∈ o.price, p.1.value? = some req.price
  sl : CarriesNumber (o.sl.map (·.1)) req.sl
  tp : CarriesNumber (o.tp.map (·.1)) req.tp

/-- The deal type that closes a position. -/
def closingType : PositionType → Mql5.OrderType
  | .buy => .sell
  | .sell => .buy

/-- The volume a close is about.  One that is asked for is finite, since it does
not exceed the position's. -/
def closeVolume (p : OpenPosition) (body : ClosePosition) : ℚ :=
  (body.volume.bind (·.1.value?)).getD p.volume

/-- The request closes the position by the volume asked for: a deal in its
symbol and against its direction. -/
structure Closes (p : OpenPosition) (body : ClosePosition) (req : MqlTradeRequest) : Prop where
  action : req.action = .deal
  position : req.position = p.ticket
  symbol : req.symbol = p.symbol
  type : req.type = closingType p.type
  volume : req.volume = closeVolume p body

/-- A market order that `HandleOpen` places.  A finite price would make a limit
order of it; an infinite one is sent as `null`, like the other numbers, and only
there that does no harm. -/
structure PlainMarket (o : PlaceOrder) : Prop where
  market : o.type = .market
  price : ∀ x ∈ o.price, x.1.isFinite = false
  qty : o.qty.1.isFinite
  sl : ∀ x ∈ o.sl, x.1.isFinite
  tp : ∀ x ∈ o.tp, x.1.isFinite

namespace ApiRequest

/-- The trade request means what the API request says. Both cases ask for every field of the
request that decides what the broker does. -/
def Means (req : MqlTradeRequest) : ApiRequest → Prop
  | place o => Places o req
  | close p body => Closes p body req

/-- The API requests that are carried out as they are meant: a plain market
order, and the close of a position when the position at the index `(int)ticket`
happens to have its symbol, the other direction and the volume to close. -/
def Faithful (t : Terminal) : ApiRequest → Prop
  | place o => PlainMarket o
  | close p body =>
      p.ticket < 2 ^ 63 ∧ ∃ q, t.positionGetSymbol (asInt p.ticket) = some q ∧
        q.symbol = p.symbol ∧ q.type ≠ p.type ∧ q.volume = closeVolume p body

end ApiRequest

section Place

variable (id : Uuid) (rec : AccountRecord) (o : PlaceOrder)

/-- The reader `HandleOpen` works with. -/
def openReader : Reader := deliveredReader id .open_ (openPayload rec o.toNewOrder)

/-- A property of the open command is delivered. -/
theorem openReader_payload {k : Text} {v : Option Scalar}
    (hkv : (k, v) ∈ [("account_id".toList, some (Scalar.str rec.brokerLogin)),
      ("instrument".toList, some (.str o.instrument.1)), ("side".toList, some (.str o.side.text)),
      ("qty".toList, some (numberScalar o.qty.1)), ("type".toList, some (.str o.type.text)),
      ("price".toList, (o.price.map (·.1)).map numberScalar),
      ("sl".toList, (o.sl.map (·.1)).map numberScalar),
      ("tp".toList, (o.tp.map (·.1)).map numberScalar)]) :
    openReader id rec o (payloadPath k) = (v.map Scalar.text).getD [] :=
  deliveredReader_ofProperties id .open_ _ hkv

/-- The price that is read is positive exactly when a finite one is given. -/
theorem numberRead_price_pos (price : Option PosNumber) :
    0 < numberRead (price.map (·.1)) ↔ ∃ x ∈ price, x.1.isFinite := by
  cases price with
  | none => simp [numberRead]
  | some x =>
      obtain ⟨x, hx⟩ := x
      cases x with
      | finite x => exact ⟨fun _ => ⟨_, rfl, rfl⟩, fun _ => hx⟩
      | infinite neg =>
          refine ⟨fun h => absurd h (lt_irrefl 0), ?_⟩
          rintro ⟨_, ⟨⟩, hfinite⟩
          cases hfinite

theorem sideText_ne_sell (side : Side) : side.text ≠ "sell" ↔ side = .buy := by
  cases side <;> decide

/-- The kind of order that `HandleOpen` derives from the price alone. -/
def derivedKind (o : PlaceOrder) : OrderKind :=
  if 0 < numberRead (o.price.map (·.1)) then .limit else .market

/-- What `HandleOpen` submits for an order: always a deal, and a limit type when
there is a price. -/
theorem openRequest_delivered :
    openRequest (openReader id rec o) =
      { action := .deal
        symbol := o.instrument.1
        volume := o.qty.1.value?.getD 0
        type := orderType (derivedKind o) o.side
        price := numberRead (o.price.map (·.1))
        sl := numberRead (o.sl.map (·.1))
        tp := numberRead (o.tp.map (·.1))
        deviation := 10
        comment := id.text
        typeFilling := .fok } := by
  have hprice : openReader id rec o "payload.price" = _ :=
    openReader_payload id rec o (k := "price") (v := (o.price.map (·.1)).map numberScalar)
      (by simp)
  have hsl : openReader id rec o "payload.sl" = _ :=
    openReader_payload id rec o (k := "sl") (v := (o.sl.map (·.1)).map numberScalar) (by simp)
  have htp : openReader id rec o "payload.tp" = _ :=
    openReader_payload id rec o (k := "tp") (v := (o.tp.map (·.1)).map numberScalar) (by simp)
  have hqty : openReader id rec o "payload.qty" = (numberScalar o.qty.1).text :=
    openReader_payload id rec o (k := "qty") (v := some (numberScalar o.qty.1)) (by simp)
  have hside : openReader id rec o "payload.side" = o.side.text :=
    openReader_payload id rec o (k := "side") (v := some (.str o.side.text)) (by simp)
  have hsymbol : openReader id rec o "payload.instrument" = o.instrument.1 :=
    openReader_payload id rec o (k := "instrument") (v := some (.str o.instrument.1)) (by simp)
  have hid : openReader id rec o "id" = id.text := rfl
  have htype : (if 0 < numberRead (o.price.map (·.1)) then
      (if o.side = .buy then .buyLimit else .sellLimit)
      else if o.side = .buy then .buy else .sell) = orderType (derivedKind o) o.side := by
    unfold derivedKind
    split <;> cases o.side <;> rfl
  delta openRequest
  simp only [hprice, hqty, hsl, htp, hside, hsymbol, hid, stringToDouble_number,
    stringToDouble_numberScalar, gt_iff_lt, sideText_ne_sell, decide_eq_true_eq, htype]

/-- The derived type is the one of a market order exactly when it is that of a
market order without a finite price. -/
theorem orderType_derived_iff (hmarket : o.type = .market) :
    orderType (derivedKind o) o.side = orderType o.type o.side ↔
      ∀ x ∈ o.price, x.1.isFinite = false := by
  have hpos := numberRead_price_pos o.price
  rw [hmarket]
  unfold derivedKind
  split
  · next hprice =>
      obtain ⟨x, hx, hfinite⟩ := hpos.mp hprice
      refine ⟨fun h => ?_, fun h => ?_⟩
      · cases hside : o.side <;> rw [hside] at h <;> cases h
      · rw [h x hx] at hfinite
        cases hfinite
  · next hprice =>
      refine ⟨fun _ x hx => ?_, fun _ => rfl⟩
      by_contra hne
      exact hprice (hpos.mpr ⟨x, hx, by simpa using hne⟩)

theorem volume_read_iff (x : JsNumber) : x.value? = some (x.value?.getD 0) ↔ x.isFinite := by
  cases x <;> simp [JsNumber.value?, JsNumber.isFinite]

theorem carriesNumber_read_iff (x : Option PosNumber) :
    CarriesNumber (x.map (·.1)) (numberRead (x.map (·.1))) ↔ ∀ y ∈ x, y.1.isFinite := by
  rw [carriesNumber_numberRead_iff]
  cases x <;> simp

/-- **An order is placed as it is meant exactly when it is a plain market
order.** -/
theorem place_means_iff (t : Terminal) (queries : QueryHandlers) :
    (∃ req, submittedBy t queries (openReader id rec o) = some req ∧ Places o req) ↔
      PlainMarket o := by
  have hsubmitted : submittedBy t queries (openReader id rec o) =
      some (openRequest (openReader id rec o)) := rfl
  rw [hsubmitted, openRequest_delivered]
  constructor
  · rintro ⟨_, ⟨⟩, hplaces⟩
    have hmarket : o.type = .market := by
      by_contra hne
      have haction := hplaces.action
      rw [if_neg hne] at haction
      exact absurd haction (by simp)
    exact ⟨hmarket, (orderType_derived_iff o hmarket).mp hplaces.type,
      (volume_read_iff _).mp hplaces.volume, (carriesNumber_read_iff _).mp hplaces.sl,
      (carriesNumber_read_iff _).mp hplaces.tp⟩
  · intro h
    refine ⟨_, rfl, rfl, (volume_read_iff _).mpr h.qty, ?_,
      (orderType_derived_iff o h.market).mpr h.price, fun hne => absurd h.market hne,
      (carriesNumber_read_iff _).mpr h.sl, (carriesNumber_read_iff _).mpr h.tp⟩
    simp [h.market]

end Place

/-! ## Closing -/

/-- The ticket that is read for a decimal ticket. -/
theorem asUlong_natText (n : ℕ) : asUlong (stringToInteger (natText n)) = min n (2 ^ 63 - 1) := by
  rw [stringToInteger_natText]
  unfold asUlong
  omega

/-- Without a `ticket` member only `position_id` counts. -/
theorem positionTicket_eq {field : Reader} (h : field "payload.ticket" = []) :
    positionTicket field = asUlong (stringToInteger (field "payload.position_id")) := by
  have hzero : ticketField field "payload.ticket" = 0 := by
    rw [ticketField, h]
    rfl
  unfold positionTicket
  rw [hzero]
  split
  · next h => exact h.symm
  · rfl

/-- A handler that acts on a position submits only what it submits for it. -/
theorem withPosition_submitted (t : Terminal) (ticket : ℕ) (act : OpenPosition → Handled)
    (req : MqlTradeRequest) :
    (t.withPosition ticket act).submitted = some req ↔
      ticket ≠ 0 ∧ ∃ p, t.positionSelectByTicket ticket = some p ∧
        (act p).submitted = some req := by
  unfold Terminal.withPosition
  split
  · next h => simp [h, Handled.early]
  · next h =>
      cases t.positionSelectByTicket ticket with
      | none => simp [Handled.early]
      | some p => simp [h]

section Close

variable (id : Uuid) (rec : AccountRecord) (p : OpenPosition) (body : ClosePosition)

/-- The reader `HandleClose` works with. -/
def closeReader : Reader :=
  deliveredReader id .close (closePayload rec (natText p.ticket) (body.volume.map (·.1)))

theorem positionTicket_closeReader :
    positionTicket (closeReader id rec p body) = min p.ticket (2 ^ 63 - 1) := by
  have hticket : closeReader id rec p body "payload.ticket" = [] := by
    refine (deliveredReader_payload id .close _ "ticket").trans ?_
    cases body.volume <;> rfl
  have hposition : closeReader id rec p body "payload.position_id" = natText p.ticket :=
    deliveredReader_ofProperties id .close _ (k := "position_id")
      (v := some (.str (natText p.ticket))) (by simp)
  rw [positionTicket_eq hticket, hposition, asUlong_natText]

/-- **A close is carried out as it is meant exactly when** the position at the
index that equals the ticket has its symbol, the other direction and the volume
to close. -/
theorem close_means_iff (t : Terminal) (queries : QueryHandlers) (hp : p ∈ t.positions) :
    (∃ req, submittedBy t queries (closeReader id rec p body) = some req ∧ Closes p body req) ↔
      p.ticket < 2 ^ 63 ∧ ∃ q, t.positionGetSymbol (asInt p.ticket) = some q ∧
        q.symbol = p.symbol ∧ q.type ≠ p.type ∧ q.volume = closeVolume p body := by
  have hsubmitted : submittedBy t queries (closeReader id rec p body) =
      (handleClose t (closeReader id rec p body)).submitted := rfl
  have hpos := t.ticket_pos p hp
  simp only [hsubmitted, handleClose, withPosition_submitted, positionTicket_closeReader]
  constructor
  · rintro ⟨_, ⟨-, selected, hselected, ⟨⟩⟩, hcloses⟩
    have hticket : min p.ticket (2 ^ 63 - 1) = p.ticket := hcloses.position
    have hsymbol := hcloses.symbol
    have htype := hcloses.type
    have hvolume := hcloses.volume
    rw [hticket] at hselected
    rw [t.positionSelectByTicket_mem hp, Option.some.injEq] at hselected
    subst hselected
    simp only [hticket, closeRequest] at hsymbol htype hvolume
    refine ⟨by omega, ?_⟩
    cases hindex : t.positionGetSymbol (asInt p.ticket) with
    | none =>
        -- nothing at the index: the position itself stays selected, with its own direction
        rw [hindex] at htype
        cases hdir : p.type <;> simp [hdir, closingType] at htype
    | some q =>
        rw [hindex] at hsymbol htype hvolume
        refine ⟨q, rfl, hsymbol, ?_, hvolume⟩
        cases hdir : p.type <;> cases hother : q.type <;>
          simp [hdir, hother, closingType] at htype ⊢
  · rintro ⟨hlt, q, hindex, hsymbol, hne, hvolume⟩
    have hticket : min p.ticket (2 ^ 63 - 1) = p.ticket := by omega
    rw [hticket]
    refine ⟨_, ⟨by omega, p, t.positionSelectByTicket_mem hp, rfl⟩, rfl, rfl, ?_, ?_, ?_⟩
    · simp only [closeRequest, hindex, Option.map_some, Option.getD_some, hsymbol]
    · simp only [closeRequest, hindex, Option.getD_some]
      cases hdir : p.type <;> cases hother : q.type <;> simp [hdir, hother, closingType] at hne ⊢
    · simp only [closeRequest, hindex, Option.getD_some, hvolume]

end Close

/-- **The request that is submitted means what the API request says exactly when
the API request is faithful.** -/
theorem apiRequest_means_iff (t : Terminal) (queries : QueryHandlers) (id : Uuid)
    (rec : AccountRecord) (r : ApiRequest) (h : r.Admitted t) :
    (∃ req, submittedBy t queries (deliveredReader id r.call.action (r.call.payload rec)) =
        some req ∧ r.Means req) ↔ r.Faithful t := by
  cases r with
  | place o => exact place_means_iff id rec o t queries
  | close p body => exact close_means_iff id rec p body t queries h.1

/-- A position of two lots. -/
def samplePosition (ticket : ℕ) (type : PositionType) : OpenPosition where
  ticket := ticket
  symbol := "EURUSD"
  volume := 2
  type := type
  sl := 0
  tp := 0

/-- A terminal with one position that refuses nothing. -/
def oneBuyTerminal : Terminal where
  positions := [samplePosition 42 .buy]
  nodup_tickets := by simp
  ticket_pos := by simp [samplePosition]
  ticket_lt := by simp [samplePosition]
  orderSend _ := (true, ⟨10009, 7, []⟩)

/-- A terminal with two opposite positions. -/
def hedgedTerminal : Terminal where
  positions := [samplePosition 1 .buy, samplePosition 2 .sell]
  nodup_tickets := by simp [samplePosition]
  ticket_pos := by simp [samplePosition]
  ticket_lt := by simp [samplePosition]
  orderSend _ := (true, ⟨10009, 7, []⟩)

/-- Ticket 1 is closed as meant, because index 1 holds the opposite position. -/
theorem close_hedged_as_meant :
    ∃ req, submittedBy hedgedTerminal noQueries
        (deliveredReader sampleId .close (closePayload sampleRecord "1" none)) = some req ∧
      Closes (samplePosition 1 .buy) ⟨none⟩ req := by
  have hfaithful : (ApiRequest.close (samplePosition 1 .buy) ⟨none⟩).Faithful hedgedTerminal :=
    ⟨by decide, samplePosition 2 .sell, rfl, rfl, by decide, rfl⟩
  exact (apiRequest_means_iff hedgedTerminal noQueries sampleId sampleRecord
    (.close (samplePosition 1 .buy) ⟨none⟩) ⟨by simp [hedgedTerminal], by simp⟩).mpr hfaithful

/-- The only position is a buy, and closing it buys as much again. -/
theorem close_buy_doubles :
    oneBuyTerminal.positions = [samplePosition 42 .buy] ∧
      ¬ ∃ req, submittedBy oneBuyTerminal noQueries
          (closeReader sampleId sampleRecord (samplePosition 42 .buy) ⟨none⟩) = some req ∧
        Closes (samplePosition 42 .buy) ⟨none⟩ req := by
  refine ⟨rfl, fun h => ?_⟩
  obtain ⟨-, q, hindex, -⟩ := (close_means_iff sampleId sampleRecord (samplePosition 42 .buy)
    ⟨none⟩ oneBuyTerminal noQueries (by simp [oneBuyTerminal])).mp h
  have hnone : oneBuyTerminal.positionGetSymbol (asInt 42) = none := by decide
  rw [show (samplePosition 42 .buy).ticket = 42 from rfl, hnone] at hindex
  cases hindex

end AkronSlot.Bridge
