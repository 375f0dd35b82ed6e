import AkronSlot.Slot.LastWrites
import AkronSlot.Slot.Ledger

/-!
# The account an event is booked on

An event frame goes to the ledger and to the connector.  Its raw data may carry a
login and a server, but the schemas of fills and order states drop both, and of an
account event only the login is read.  All effects of a frame are those of one row
(`effects_receive`); whether it is the row that the data name is a question about
the accounts table (`concerns_receive_iff`).

## Three things that have to be right

For a frame to be booked where its data say, its login must reach the resolver, the resolver
must find the row that the data mean, and the reference of the row must not be that of another
account. zod drops the login of fills and order states, so for these the first always fails and
the oldest account is taken; the server of a frame is read by nobody. `Identifies` says what the
data mean, `Attributed` when the code finds the same.

The effects are compared over the whole state, ledger and connector together: `Effects` bounds
what a frame may touch, and `Concerns` asks that it touch one account and no other.

## Main Definitions

* `Books`, `receive`
* `Effects`, `Concerns`
* `Identifies`, `Attributed`

## Main Results

* `effects_receive`
* `concerns_receive_iff`
-/

namespace AkronSlot.Slot

open Wire Systems Mt5Connector

/-! ## Books -/

/-- What event frames write: the ledger and the connector. `handleEvent` of the TCP server goes to
both, the connector through `onEvent`. -/
structure Books where
  ledger : Ledger := {}
  connector : Mt5Connector := {}

/-- `Mt5TcpServer.handleEvent`. -/
def Books.receive (numberText : Numeral → Text) (rows : List AccountRow) (now : ℚ) (b : Books)
    (f : Frame) : Books where
  ledger := handleEvent rows now b.ledger f
  connector := b.connector.tcpEvent numberText rows f now

/-! ## Effects -/

/-- What differs between two states is about accounts and references with a property: fills are
only added, orders only change, and so on. A frame that is resolved to nothing has no effects, and
satisfies this with any property. -/
structure Effects (account ref : Text → Prop) (b b' : Books) : Prop where
  fills : ∃ fs : List FillRow, b'.ledger.fills = b.ledger.fills ++ fs ∧
    ∀ f ∈ fs, account f.accountId
  orders : List.Forall₂ (fun o o' : OrderRow => o' = o ∨ account o.accountId)
    b.ledger.orders b'.ledger.orders
  records : ∀ k, b'.connector.accounts.get k ≠ b.connector.accounts.get k → ref k
  subscribers : ∃ es : List (BrokerEvent × Text), b'.connector.bus = b.connector.bus ++ es ∧
    ∀ e ∈ es, ref e.2

theorem Effects.mono {account account' ref ref' : Text → Prop} {b b' : Books}
    (h : Effects account ref b b') (haccount : ∀ id, account id → account' id)
    (href : ∀ k, ref k → ref' k) : Effects account' ref' b b' where
  fills := h.fills.imp fun _ hfs => ⟨hfs.1, fun f hf => haccount _ (hfs.2 f hf)⟩
  orders := h.orders.imp fun _ _ ho => ho.imp id (haccount _)
  records k hk := href k (h.records k hk)
  subscribers := h.subscribers.imp fun _ hes => ⟨hes.1, fun e he => href _ (hes.2 e he)⟩

/-- A status update changes orders of its account only. -/
theorem forall₂_updateOrderStatus (L : Ledger) (accountId id status : Text)
    (brokerOrderId : Option Text) (tsClose : Option ℚ) :
    List.Forall₂ (fun o o' : OrderRow => o' = o ∨ o.accountId = accountId) L.orders
      (L.updateOrderStatus accountId id status brokerOrderId tsClose).orders := by
  refine List.forall₂_map_right_iff.mpr (List.forall₂_same.mpr ?_)
  intro o _
  split
  · next h => exact Or.inr h.2
  · exact Or.inl rfl

theorem forall₂_refl (account : Text → Prop) (orders : List OrderRow) :
    List.Forall₂ (fun o o' : OrderRow => o' = o ∨ account o.accountId) orders orders :=
  List.forall₂_same.mpr fun _ _ => Or.inl rfl

section Receive

variable {numberText : Numeral → Text} {rows : List AccountRow}

/-- The kinds of events that the connector handles. -/
def Frame.booked : Frame → Bool
  | .fill _ _ | .orderState _ _ | .account _ _ => true
  | _ => false

theorem connector_receive {f : Frame} {a : AccountRow} (hf : f.booked)
    (ha : resolveAccount rows (f.loginText numberText) = some a) (now : ℚ) (b : Books) :
    (b.receive numberText rows now f).connector = b.connector.handleEventAt (refOf a) now f := by
  cases f with
  | fill data ts =>
      unfold Books.receive tcpEvent
      dsimp only
      rw [ha]
      rfl
  | orderState data ts =>
      unfold Books.receive tcpEvent
      dsimp only
      rw [ha]
      rfl
  | account data ts =>
      unfold Books.receive tcpEvent
      dsimp only
      rw [ha]
      rfl
  | position data ts => cases hf
  | startup ts => cases hf
  | response id ok result error => cases hf

/-- A fill is a new row of the fallback account, and its order one of that account. -/
theorem ledger_fill {a : AccountRow} (ha : fallbackAccount rows = some a) (now : ℚ) (L : Ledger)
    (data : FillData) (ts : Option Numeral) :
    (∃ f : FillRow, (handleEvent rows now L (.fill data ts)).fills = L.fills ++ [f] ∧
      f.accountId = a.id) ∧
    List.Forall₂ (fun o o' : OrderRow => o' = o ∨ o.accountId = a.id) L.orders
      (handleEvent rows now L (.fill data ts)).orders := by
  rw [handleEvent, resolveAccount_nil, ha]
  dsimp only
  split
  · exact ⟨⟨_, rfl, rfl⟩, forall₂_refl (· = a.id) _⟩
  · exact ⟨⟨_, rfl, rfl⟩, forall₂_updateOrderStatus _ _ _ _ _ _⟩

/-- An order state changes an order of the fallback account. -/
theorem ledger_orderState {a : AccountRow} (ha : fallbackAccount rows = some a) (now : ℚ)
    (L : Ledger) (data : OrderStateData) (ts : Option Numeral) :
    (handleEvent rows now L (.orderState data ts)).fills = L.fills ∧
    List.Forall₂ (fun o o' : OrderRow => o' = o ∨ o.accountId = a.id) L.orders
      (handleEvent rows now L (.orderState data ts)).orders := by
  rw [handleEvent, resolveAccount_nil, ha]
  dsimp only
  split
  · exact ⟨rfl, forall₂_refl (· = a.id) _⟩
  · exact ⟨rfl, forall₂_updateOrderStatus _ _ _ _ _ _⟩

/-- **All effects of a frame are on the row that it is resolved to.** -/
theorem effects_receive {f : Frame} {a : AccountRow} (hf : f.booked)
    (ha : resolveAccount rows (f.loginText numberText) = some a) (now : ℚ) (b : Books) :
    Effects (· = a.id) (· = refOf a) b (b.receive numberText rows now f) := by
  have hconnector := connector_receive hf ha now b
  cases f with
  | fill data ts =>
      obtain ⟨⟨row, hfills, hrow⟩, horders⟩ := ledger_fill ha now b.ledger data ts
      refine ⟨⟨[row], hfills, by simpa using hrow⟩, horders, ?_, ?_⟩
      · intro k hk
        rw [hconnector] at hk
        exact absurd rfl hk
      · rw [hconnector]
        exact ⟨[_], rfl, fun e he => by rw [List.mem_singleton.mp he]⟩
  | orderState data ts =>
      obtain ⟨hfills, horders⟩ := ledger_orderState ha now b.ledger data ts
      refine ⟨⟨[], by rw [List.append_nil]; exact hfills, by simp⟩, horders, ?_, ?_⟩
      · intro k hk
        rw [hconnector] at hk
        exact absurd rfl hk
      · rw [hconnector]
        exact ⟨[_], rfl, fun e he => by rw [List.mem_singleton.mp he]⟩
  | account data ts =>
      refine ⟨⟨[], (List.append_nil _).symm, by simp⟩, forall₂_refl (· = a.id) _, ?_, ?_⟩
      · intro k hk
        rw [hconnector] at hk
        cases data with
        | none => exact absurd rfl hk
        | some data =>
            have haccounts := accounts_onAccount b.connector (refOf a) data
            show k = refOf a
            by_contra hne
            apply hk
            show (b.connector.onAccount (refOf a) (some data)).accounts.get k = _
            rw [haccounts, Registry.get_modify, if_neg hne]
      · rw [hconnector]
        cases data with
        | none => exact ⟨[], (List.append_nil _).symm, by simp⟩
        | some data =>
            refine ⟨_, bus_onAccount b.connector (refOf a) data, ?_⟩
            intro e he
            obtain ⟨n, -, rfl⟩ := List.mem_map.mp he
            rfl
  | position data ts => cases hf
  | startup ts => cases hf
  | response id ok result error => cases hf

end Receive

/-! ## The row that the data of an event name -/

/-- Data that carry the login of a row, and its server if they carry one. -/
def Carries (numberText : Numeral → Text) (data : List (Text × Json)) (a : AccountRow) : Prop :=
  ((Json.obj data).get "login").map (stringOf numberText) = some a.brokerLogin ∧
    ∀ server, (Json.obj data).get "server" = some (.str server) → server = a.brokerServer

/-- A row is the only one that is not disabled that the data of a value carry. The data are those
of the raw value, before any schema has dropped a key. -/
def Identifies (numberText : Numeral → Text) (rows : List AccountRow) (v : Json)
    (r : AccountRow) : Prop :=
  ∃ data, v.get "data" = some (.obj data) ∧
    ∀ a, a ∈ enabledAccounts rows ∧ Carries numberText data a ↔ a = r

/-- The reference of a row, and of no other broker account. -/
def OnlyRefOf (rows : List AccountRow) (r : AccountRow) (ref : Text) : Prop :=
  ref = refOf r ∧ ∀ a ∈ rows, refOf a = ref → credsOf a = credsOf r

/-- All effects concern one row and no other: what is written to the ledger, what is changed in a
record, and what the subscribers are told. -/
def Concerns (rows : List AccountRow) (r : AccountRow) (b b' : Books) : Prop :=
  Effects (· = r.id) (OnlyRefOf rows r) b b'

/-- Data that neither tell the subscribers anything nor change a record. Such an account event has
no effects to attribute, wherever it is booked. -/
structure Quiet (data : List (Text × Json)) (rec : Option SessionRecord) : Prop where
  logged_in : written asBoolean "logged_in" data = none
  last_error : ¬ Json.truthy ((Json.obj data).get "last_error")
  balance : ∀ s ∈ rec, ∀ x ∈ written asNumber "balance" data, x.value = s.balance
  equity : ∀ s ∈ rec, ∀ x ∈ written asNumber "equity" data, x.value = s.equity
  error_kept : ∀ s ∈ rec, ∀ e ∈ written asString "last_error" data, s.lastError = some e

/-- When the effects of a frame that names a row are those of the row. The schemas keep the login
of an account event only, so the other kinds go to the oldest row. -/
def Attributed (rows : List AccountRow) (r : AccountRow) (b : Books) : Frame → Prop
  | .account (some data) _ =>
      (FoundBy rows r.brokerLogin r ∧ OnlyRefOf rows r (refOf r)) ∨
      ∃ a, FoundBy rows r.brokerLogin a ∧ Quiet data (b.connector.accounts.get (refOf a))
  | _ => OldestEnabled rows r ∧ OnlyRefOf rows r (refOf r)

theorem accountNotice_eq_none_iff (data : List (Text × Json)) :
    accountNotice data = none ↔
      written asBoolean "logged_in" data = none ∧
        ¬ Json.truthy ((Json.obj data).get "last_error") := by
  rw [accountNotice]
  cases written asBoolean "logged_in" data with
  | some loggedIn => simp
  | none =>
      cases (Json.obj data).get "last_error" with
      | none => simp [Json.truthy]
      | some e =>
          dsimp only
          split <;> simp_all

theorem getD_map_eq_iff {α β : Type} (o : Option α) (f : α → β) (b : β) :
    (o.map f).getD b = b ↔ ∀ x ∈ o, f x = b := by cases o <;> simp

theorem or_eq_iff {α : Type} (o b : Option α) : o.or b = b ↔ ∀ e ∈ o, b = some e := by
  cases o <;> simp [eq_comm]

/-- Quiet data are those that leave everything as it is. -/
theorem quiet_iff (data : List (Text × Json)) (rec : Option SessionRecord) :
    Quiet data rec ↔ accountNotice data = none ∧ rec.map (writeAccount data) = rec := by
  rw [accountNotice_eq_none_iff]
  constructor
  · intro h
    refine ⟨⟨h.logged_in, h.last_error⟩, ?_⟩
    cases rec with
    | none => rfl
    | some s =>
        have hbalance := (getD_map_eq_iff _ _ _).mpr (h.balance s rfl)
        have hequity := (getD_map_eq_iff _ _ _).mpr (h.equity s rfl)
        have herror := (or_eq_iff _ _).mpr (h.error_kept s rfl)
        rw [Option.map_some, writeAccount, h.logged_in, hbalance, hequity, herror]
        rfl
  · rintro ⟨⟨hlogged, herror⟩, hsame⟩
    have hfixed : ∀ s ∈ rec, writeAccount data s = s := by
      rintro s hs
      rw [Option.mem_def.mp hs] at hsame
      exact Option.some.inj hsame
    refine ⟨hlogged, herror, ?_, ?_, ?_⟩
    · exact fun s hs => (getD_map_eq_iff _ _ _).mp (congrArg SessionRecord.balance (hfixed s hs))
    · exact fun s hs => (getD_map_eq_iff _ _ _).mp (congrArg SessionRecord.equity (hfixed s hs))
    · exact fun s hs => (or_eq_iff _ _).mp (congrArg SessionRecord.lastError (hfixed s hs))

/-! ## Frames -/

/-- The data of an account event come as they are through `AnyFrame`. -/
theorem data_of_anyFrame {v : Json} {data : Option (List (Text × Json))} {ts : Option Numeral}
    (h : anyFrame v = some (.account data ts)) : optional asObject v "data" = some data := by
  obtain ⟨schema, hmem, hschema⟩ := List.exists_of_findSome?_eq_some h
  simp only [List.mem_cons, List.not_mem_nil, or_false] at hmem
  rcases hmem with rfl | rfl | rfl | rfl | rfl | rfl
  · obtain ⟨e, -, he⟩ := Option.map_eq_some_iff.mp hschema
    cases he
  · obtain ⟨e, -, he⟩ := Option.map_eq_some_iff.mp hschema
    cases he
  · obtain ⟨e, -, he⟩ := Option.map_eq_some_iff.mp hschema
    cases he
  · obtain ⟨⟨data, ts⟩, hevent, he⟩ := Option.map_eq_some_iff.mp hschema
    cases he
    obtain ⟨-, -, hkind⟩ := Option.bind_eq_some_iff.mp hevent
    obtain ⟨-, -, hdata⟩ := Option.bind_eq_some_iff.mp hkind
    obtain ⟨d, hd, hts⟩ := Option.bind_eq_some_iff.mp hdata
    obtain ⟨t, -, hpair⟩ := Option.bind_eq_some_iff.mp hts
    cases hpair
    exact hd
  · obtain ⟨e, -, he⟩ := Option.map_eq_some_iff.mp hschema
    cases he
  · obtain ⟨-, -, hid⟩ := Option.bind_eq_some_iff.mp hschema
    obtain ⟨id, -, hok⟩ := Option.bind_eq_some_iff.mp hid
    obtain ⟨ok, -, herror⟩ := Option.bind_eq_some_iff.mp hok
    obtain ⟨error, -, hframe⟩ := Option.bind_eq_some_iff.mp herror
    cases hframe

section Main

variable {numberText : Numeral → Text} {rows : List AccountRow} {v : Json} {f : Frame}
  {r : AccountRow}

theorem Identifies.enabled (h : Identifies numberText rows v r) : r ∈ enabledAccounts rows := by
  obtain ⟨data, -, hiff⟩ := h
  exact ((hiff r).mpr rfl).1

/-- A row that is not disabled and has the server and the login of the row that is
named is that row. -/
theorem Identifies.eq_of_credsOf (h : Identifies numberText rows v r) {a : AccountRow}
    (ha : a ∈ enabledAccounts rows) (hcreds : credsOf a = credsOf r) : a = r := by
  obtain ⟨data, -, hiff⟩ := h
  obtain ⟨-, hlogin, hserver⟩ := (hiff r).mpr rfl
  obtain ⟨hs, hl⟩ := BrokerCreds.mk.inj hcreds
  refine (hiff a).mp ⟨ha, ?_, ?_⟩
  · rw [hlogin, hl]
  · intro server h
    rw [hserver server h, hs]

/-- The data of a named account event are there, with the login of the row. -/
theorem Identifies.account (h : Identifies numberText rows v r)
    {data : Option (List (Text × Json))} {ts : Option Numeral}
    (hv : anyFrame v = some (.account data ts)) :
    ∃ ms, data = some ms ∧ (Frame.account data ts).loginText numberText = r.brokerLogin := by
  obtain ⟨ms, hms, hiff⟩ := h
  obtain ⟨-, hlogin, -⟩ := (hiff r).mpr rfl
  have hdata := data_of_anyFrame hv
  rw [optional, hms] at hdata
  obtain rfl : data = some ms := (Option.some.inj hdata).symm
  exact ⟨ms, rfl, by rw [Frame.loginText, Frame.login, Option.bind_some, hlogin]; rfl⟩

/-- What the row of a notice is. -/
theorem eq_of_onlyRefOf (h : Identifies numberText rows v r) {a : AccountRow}
    (ha : a ∈ enabledAccounts rows) (href : OnlyRefOf rows r (refOf a)) :
    a = r ∧ OnlyRefOf rows r (refOf r) := by
  obtain ⟨heq, honly⟩ := href
  have hsame : a = r := h.eq_of_credsOf ha (honly a (List.mem_of_mem_filter ha) rfl)
  refine ⟨hsame, rfl, ?_⟩
  rw [← heq]
  exact honly

theorem concerns_of_resolved (hf : f.booked)
    (ha : resolveAccount rows (f.loginText numberText) = some r)
    (href : OnlyRefOf rows r (refOf r)) (now : ℚ) (b : Books) :
    Concerns rows r b (b.receive numberText rows now f) :=
  (effects_receive hf ha now b).mono (fun _ h => h) fun _ h => h ▸ href

/-- What the subscribers of a reference are told is about the account. -/
theorem Concerns.of_notice {b b' : Books} (h : Concerns rows r b b') {e : BrokerEvent} {k : Text}
    (hbus : b'.connector.bus = b.connector.bus ++ [(e, k)]) : OnlyRefOf rows r k := by
  obtain ⟨es, hes, href⟩ := h.subscribers
  rw [hbus] at hes
  have hmem : (e, k) ∈ es := List.append_cancel_left hes ▸ List.mem_singleton_self _
  exact href _ hmem

/-- The fallback account is the one whose fill it is. -/
theorem Concerns.fallback_id {a : AccountRow} (ha : fallbackAccount rows = some a) {b : Books}
    {now : ℚ} {data : FillData} {ts : Option Numeral}
    (h : Concerns rows r b (b.receive numberText rows now (.fill data ts))) : a.id = r.id := by
  obtain ⟨⟨row, hfills, hrow⟩, -⟩ := ledger_fill ha now b.ledger data ts
  obtain ⟨fs, hfs, haccount⟩ := h.fills
  have hmem : row ∈ fs :=
    List.append_cancel_left (hfills.symm.trans hfs) ▸ List.mem_singleton_self row
  rw [← hrow, haccount row hmem]

/-- Quiet data have no effects. -/
theorem effects_of_quiet {data : List (Text × Json)} {ts : Option Numeral} {a : AccountRow}
    (ha : resolveAccount rows ((Frame.account (some data) ts).loginText numberText) = some a)
    {b : Books} (hquiet : Quiet data (b.connector.accounts.get (refOf a))) (now : ℚ) :
    Effects (fun _ => False) (fun _ => False) b
      (b.receive numberText rows now (.account (some data) ts)) := by
  have hconnector := connector_receive rfl ha now b
  obtain ⟨hnotice, hsame⟩ := (quiet_iff _ _).mp hquiet
  refine ⟨⟨[], (List.append_nil _).symm, by simp⟩, forall₂_refl (fun _ => False) _, ?_, [], ?_,
    by simp⟩
  · intro k hk
    apply hk
    rw [hconnector]
    show (b.connector.onAccount (refOf a) (some data)).accounts.get k = _
    rw [accounts_onAccount, Registry.get_modify]
    split
    · next heq => rw [hsame, heq]
    · rfl
  · rw [hconnector]
    refine (bus_onAccount b.connector (refOf a) data).trans ?_
    rw [hnotice]
    rfl

/-- Data that are not quiet have an effect on the reference they are written to. -/
theorem Concerns.of_not_quiet {data : List (Text × Json)} {ts : Option Numeral} {a : AccountRow}
    (ha : resolveAccount rows ((Frame.account (some data) ts).loginText numberText) = some a)
    {b : Books} (hquiet : ¬ Quiet data (b.connector.accounts.get (refOf a))) {now : ℚ}
    (h : Concerns rows r b (b.receive numberText rows now (.account (some data) ts))) :
    OnlyRefOf rows r (refOf a) := by
  have hconnector := connector_receive rfl ha now b
  cases hnotice : accountNotice data with
  | some n =>
      have hbus := bus_onAccount b.connector (refOf a) data
      rw [hnotice] at hbus
      exact h.of_notice ((congrArg Mt5Connector.bus hconnector).trans hbus)
  | none =>
      apply h.records
      intro hsame
      apply hquiet
      refine (quiet_iff _ _).mpr ⟨hnotice, ?_⟩
      rw [hconnector] at hsame
      have hget : (b.connector.onAccount (refOf a) (some data)).accounts.get (refOf a) = _ := hsame
      rw [accounts_onAccount, Registry.get_modify, if_pos rfl] at hget
      exact hget

/-- **Attribution**: all effects of an event that names a row concern that row and no
other if and only if the row is the one that its login finds (for a fill or an order
state, the oldest one), and its reference is that of no other broker account; or
the event is an account event that changes nothing. -/
theorem concerns_receive_iff (hv : anyFrame v = some f) (hf : f.booked)
    (hid : Identifies numberText rows v r) (now : ℚ) (b : Books) :
    Concerns rows r b (b.receive numberText rows now f) ↔ Attributed rows r b f := by
  have hr := hid.enabled
  obtain ⟨a, ha⟩ := exists_resolveAccount hr (f.loginText numberText)
  have hmem := mem_enabledAccounts_of_resolveAccount ha
  -- a frame without a usable login that tells the subscribers of its account something
  have hfallback : f.loginText numberText = [] → ∀ {e : BrokerEvent},
      (b.receive numberText rows now f).connector.bus = b.connector.bus ++ [(e, refOf a)] →
      (Concerns rows r b (b.receive numberText rows now f) ↔
        OldestEnabled rows r ∧ OnlyRefOf rows r (refOf r)) := by
    intro hlogin e hbus
    rw [hlogin, resolveAccount_nil] at ha
    constructor
    · intro h
      obtain ⟨rfl, honly⟩ := eq_of_onlyRefOf hid hmem (h.of_notice hbus)
      exact ⟨fallbackAccount_eq_some_iff.mp ha, honly⟩
    · rintro ⟨holdest, honly⟩
      refine concerns_of_resolved hf ?_ honly now b
      rw [hlogin, resolveAccount_nil]
      exact fallbackAccount_eq_some_iff.mpr holdest
  cases f with
  | fill data ts => exact hfallback rfl (congrArg bus (connector_receive hf ha now b))
  | orderState data ts => exact hfallback rfl (congrArg bus (connector_receive hf ha now b))
  | account data ts =>
      obtain ⟨data, rfl, hlogin⟩ := hid.account hv
      have hfound : ∀ {c}, resolveAccount rows
          ((Frame.account (some data) ts).loginText numberText) = some c ↔
            FoundBy rows r.brokerLogin c := by
        intro c
        rw [hlogin, resolveAccount_eq_some_iff hr]
      constructor
      · intro h
        by_cases hquiet : Quiet data (b.connector.accounts.get (refOf a))
        · exact Or.inr ⟨a, hfound.mp ha, hquiet⟩
        · obtain ⟨rfl, honly⟩ := eq_of_onlyRefOf hid hmem (h.of_not_quiet ha hquiet)
          exact Or.inl ⟨hfound.mp ha, honly⟩
      · rintro (⟨hself, honly⟩ | ⟨c, hc, hquiet⟩)
        · exact concerns_of_resolved hf (hfound.mpr hself) honly now b
        · exact (effects_of_quiet (hfound.mpr hc) hquiet now).mono (fun _ => False.elim)
            fun _ => False.elim
  | position data ts => cases hf
  | startup ts => cases hf
  | response id ok result error => cases hf

/-- A login that one row alone has names the row. -/
theorem identifies_of_distinct {data : List (Text × Json)}
    (hdistinct : ((enabledAccounts rows).map (·.brokerLogin)).Nodup)
    (hr : r ∈ enabledAccounts rows) (hdata : v.get "data" = some (.obj data))
    (hlogin : (Json.obj data).get "login" = some (.str r.brokerLogin))
    (hserver : (Json.obj data).get "server" = none) : Identifies numberText rows v r := by
  refine ⟨data, hdata, ?_⟩
  intro a
  rw [Carries, hlogin, hserver]
  constructor
  · rintro ⟨ha, hsame, -⟩
    exact List.inj_on_of_nodup_map hdistinct ha hr (Option.some.inj hsame).symm
  · rintro rfl
    exact ⟨hr, rfl, fun server h => by cases h⟩

end Main

/-- The frame of a fill that carries a login. -/
def loginFill (login : Text) : Json :=
  .obj [("type", .str "event"), ("kind", .str "fill"),
    ("data", .obj [("login", .str login), ("symbol", .str "EURUSD"),
      ("qty", .num (Numeral.ofNat 1))])]

/-- What `AnyFrame` keeps of its data. -/
def strippedData : FillData where
  brokerOrderId := none
  deal := none
  symbol := "EURUSD"
  qty := some (Numeral.ofNat 1)
  price := none
  volume := none

theorem anyFrame_loginFill (login : Text) :
    anyFrame (loginFill login) = some (.fill strippedData none) := rfl

theorem identifies_loginFill {r : AccountRow} (hr : r ∈ twoRows) :
    Identifies Numeral.text twoRows (loginFill r.brokerLogin) r := by
  have henabled : enabledAccounts twoRows = twoRows := by decide
  exact identifies_of_distinct (by decide) (henabled ▸ hr) rfl rfl rfl

/-- A fill of the oldest account. -/
theorem first_fill_attributed :
    Concerns twoRows (accountRow "a" "Deriv-Demo" "32141235") {}
      (Books.receive Numeral.text twoRows 0 {} (.fill strippedData none)) ↔
    Attributed twoRows (accountRow "a" "Deriv-Demo" "32141235") {} (.fill strippedData none) :=
  concerns_receive_iff (anyFrame_loginFill "32141235") rfl
    (identifies_loginFill List.mem_cons_self) 0 {}

/-- A fill of the other account is booked on the oldest one. -/
theorem second_fill_misattributed :
    anyFrame (loginFill "32324375") = some (.fill strippedData none) ∧
    Identifies Numeral.text twoRows (loginFill "32324375")
      (accountRow "b" "Deriv-Server-02" "32324375") ∧
    ¬ Concerns twoRows (accountRow "b" "Deriv-Server-02" "32324375") {}
      (Books.receive Numeral.text twoRows 0 {} (.fill strippedData none)) := by
  have hsecond : accountRow "b" "Deriv-Server-02" "32324375" ∈ twoRows := by decide
  have hfallback : fallbackAccount twoRows = some (accountRow "a" "Deriv-Demo" "32141235") := by
    rw [fallbackAccount_eq_some_iff]
    refine ⟨rfl, [], [accountRow "b" "Deriv-Server-02" "32324375"], rfl, ?_, ?_⟩
    · intro b hb
      cases hb
    · intro b hb _
      rw [List.mem_singleton.mp hb]
      rfl
  refine ⟨anyFrame_loginFill _, identifies_loginFill hsecond, ?_⟩
  intro h
  exact absurd (h.fallback_id hfallback) (by decide)

end AkronSlot.Slot
