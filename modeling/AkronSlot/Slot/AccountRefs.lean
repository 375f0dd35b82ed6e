import AkronSlot.Slot.LastWrites

/-!
# Which account a route means

`GET /v1/state`, the trading routes and `/v1/stream` each pick a row of the accounts
table and build a reference from it; an event without a usable login picks a row
with another query.  The four agree when one row is the answer to both queries
(`sameAccount_iff`).  The reference is built again by `connect`, and the two
connectors do not build it alike (`refAgrees_iff`).

## References are texts

A reference is put together from the server and the login, with a hyphen between them, and
nobody takes it apart again. It identifies an account only if the pair can be recovered from it,
which a hyphen in a server or a login prevents (`Confusable`). The simulated connector puts
another word in front than the routes do, so that no reference of it is ever found.

## Main Definitions

* `stateAccount`, `Ws.resolveAccountRef`
* `SameAccount`, `SoleAccount`
* `ConnectorKind`, `SimConnector.connect`
* `RefAgrees`, `Confusable`

## Main Results

* `sameAccount_iff`
* `refAgrees_iff`
-/

namespace AkronSlot.Slot

open Wire Systems Mt5Connector

/-! ## The routes -/

/-- The row that `GET /v1/state` reports: the newest one of the tenant, whatever its status. -/
def stateAccount (deps : Deps) : Option AccountRow :=
  (listAccounts deps.accounts deps.tenantId).head?

/-- The reference whose state `GET /v1/state` asks for. -/
def stateRef (deps : Deps) : Option Text := (stateAccount deps).map (accountRef deps.connectorId)

/-- The row that the trading routes address. -/
def tradingAccount (deps : Deps) : Option AccountRow :=
  (stateAccount deps).filter (·.status ≠ .disabled)

theorem resolveAccountRef_eq (deps : Deps) :
    resolveAccountRef deps =
      ((tradingAccount deps).map (accountRef deps.connectorId)).elim
        (.error .noActiveAccount) .ok := by
  rw [resolveAccountRef, tradingAccount, stateAccount]
  cases (listAccounts deps.accounts deps.tenantId).head? with
  | none => rfl
  | some row =>
      by_cases h : row.status = .disabled
      · simp [Option.filter, h]
      · simp [Option.filter, h]

namespace Ws

/-- `resolveAccountRef` of `ws.ts`. -/
def resolveAccountRef (deps : Deps) : Except Problem Text :=
  match (listAccounts deps.accounts deps.tenantId).head? with
  | none => .error .noActiveAccount
  | some row =>
      if row.status = .disabled then .error .noActiveAccount
      else .ok (accountRef deps.connectorId row)

/-- The row that `/v1/stream` listens to. -/
def streamAccount (deps : Deps) : Option AccountRow :=
  (listAccounts deps.accounts deps.tenantId).head?.filter (·.status ≠ .disabled)

theorem resolveAccountRef_eq (deps : Deps) :
    resolveAccountRef deps =
      ((streamAccount deps).map (accountRef deps.connectorId)).elim
        (.error .noActiveAccount) .ok := Slot.resolveAccountRef_eq deps

end Ws

/-- A login that no row that is not disabled has. -/
def Unusable (rows : List AccountRow) (brokerLogin : Text) : Prop :=
  brokerLogin = [] ∨ ∀ a ∈ enabledAccounts rows, a.brokerLogin ≠ brokerLogin

/-- An event without a usable login is attributed to the fallback. -/
theorem resolveAccount_of_unusable {rows : List AccountRow} {brokerLogin : Text}
    (h : Unusable rows brokerLogin) : resolveAccount rows brokerLogin = fallbackAccount rows := by
  rcases h with rfl | hnone
  · rfl
  · have hfind : (rows.find? fun a => a.brokerLogin = brokerLogin && a.status ≠ .disabled) =
        none := by
      rw [List.find?_eq_none]
      intro a ha hfound
      rw [Bool.and_eq_true, decide_eq_true_iff] at hfound
      exact hnone a (List.mem_filter.mpr ⟨ha, hfound.2⟩) hfound.1
    rw [resolveAccount, hfind]
    split <;> rfl

/-! ## One account -/

/-- Events without a usable login, `/v1/state`, the trading routes and `/v1/stream` mean one
account. It is an agreement of four queries, so each field names one of them. -/
structure SameAccount (deps : Deps) : Prop where
  state : ∀ login, Unusable deps.accounts login →
    resolveAccount deps.accounts login = stateAccount deps
  trading : ∀ login, Unusable deps.accounts login →
    resolveAccount deps.accounts login = tradingAccount deps
  stream : ∀ login, Unusable deps.accounts login →
    resolveAccount deps.accounts login = Ws.streamAccount deps
  tenant : ∀ login, Unusable deps.accounts login →
    ∀ a ∈ resolveAccount deps.accounts login, a.tenantId = deps.tenantId
  enabled : (∃ a ∈ deps.accounts, a.tenantId = deps.tenantId ∧ a.status ≠ .disabled) →
    ∀ login, Unusable deps.accounts login →
      ∃ a, resolveAccount deps.accounts login = some a ∧ a.status ≠ .disabled

/-- The table has no account that any query could mean, or one row comes first: it is not
disabled and of the tenant, no other row that is not disabled is older, and no row
of the tenant is newer.  Of rows of one time the first one comes first. -/
def SoleAccount (deps : Deps) : Prop :=
  (∀ a ∈ deps.accounts, a.status = .disabled ∧ a.tenantId ≠ deps.tenantId) ∨
  ∃ r front back, deps.accounts = front ++ r :: back ∧
    r.status ≠ .disabled ∧ r.tenantId = deps.tenantId ∧
    (∀ b ∈ front, (b.status ≠ .disabled → r.createdAt < b.createdAt) ∧
      (b.tenantId = deps.tenantId → b.createdAt < r.createdAt)) ∧
    ∀ b ∈ back, (b.status ≠ .disabled → r.createdAt ≤ b.createdAt) ∧
      (b.tenantId = deps.tenantId → b.createdAt ≤ r.createdAt)

/-- The fallback and the newest row of the tenant are one row. -/
theorem oldestEnabled_and_newestOf_iff (deps : Deps) (r : AccountRow) :
    OldestEnabled deps.accounts r ∧ NewestOf deps.tenantId deps.accounts r ↔
      r.status ≠ .disabled ∧ r.tenantId = deps.tenantId ∧
      ∃ front back, deps.accounts = front ++ r :: back ∧
        (∀ b ∈ front, (b.status ≠ .disabled → r.createdAt < b.createdAt) ∧
          (b.tenantId = deps.tenantId → b.createdAt < r.createdAt)) ∧
        ∀ b ∈ back, (b.status ≠ .disabled → r.createdAt ≤ b.createdAt) ∧
          (b.tenantId = deps.tenantId → b.createdAt ≤ r.createdAt) := by
  rw [OldestEnabled, NewestOf, firstLeast_both_iff (by simp) (by simp)]
  simp only [decide_eq_true_eq, not_le]

/-- There is no row to report if and only if the tenant has none. -/
theorem stateAccount_eq_none_iff {deps : Deps} :
    stateAccount deps = none ↔ ∀ a ∈ deps.accounts, a.tenantId ≠ deps.tenantId := by
  have hperm := List.mergeSort_perm (deps.accounts.filter (·.tenantId = deps.tenantId))
    fun a b => decide (b.createdAt ≤ a.createdAt)
  rw [stateAccount, List.head?_eq_none_iff, listAccounts]
  constructor
  · intro h a ha htenant
    rw [h] at hperm
    have hmem : a ∈ deps.accounts.filter (·.tenantId = deps.tenantId) :=
      List.mem_filter.mpr ⟨ha, decide_eq_true htenant⟩
    rw [hperm.symm.eq_nil] at hmem
    cases hmem
  · intro h
    have hnil : deps.accounts.filter (·.tenantId = deps.tenantId) = [] :=
      List.filter_eq_nil_iff.mpr fun a ha htenant => h a ha (of_decide_eq_true htenant)
    rw [hnil, List.mergeSort_nil]

theorem soleAccount_iff (deps : Deps) :
    SoleAccount deps ↔ (fallbackAccount deps.accounts = none ∧ stateAccount deps = none) ∨
      ∃ r, fallbackAccount deps.accounts = some r ∧ stateAccount deps = some r := by
  rw [SoleAccount, fallbackAccount_eq_none_iff, stateAccount_eq_none_iff]
  apply or_congr
  · constructor
    · exact fun h => ⟨fun a ha => (h a ha).1, fun a ha => (h a ha).2⟩
    · exact fun h a ha => ⟨h.1 a ha, h.2 a ha⟩
  · constructor
    · rintro ⟨r, front, back, hrows, hstatus, htenant, hfront, hback⟩
      obtain ⟨holdest, hnewest⟩ := (oldestEnabled_and_newestOf_iff deps r).mpr
        ⟨hstatus, htenant, front, back, hrows, hfront, hback⟩
      exact ⟨r, fallbackAccount_eq_some_iff.mpr holdest,
        head?_listAccounts_eq_some_iff.mpr hnewest⟩
    · rintro ⟨r, hfallback, hstate⟩
      obtain ⟨hstatus, htenant, front, back, h⟩ := (oldestEnabled_and_newestOf_iff deps r).mp
        ⟨fallbackAccount_eq_some_iff.mp hfallback, head?_listAccounts_eq_some_iff.mp hstate⟩
      exact ⟨r, front, back, h.1, hstatus, htenant, h.2⟩

/-- **One account for every way in**: events without a usable login and the routes mean
the same account of the tenant, and not a disabled one, if and only if the table
has one account that comes first for both queries, or none for either. -/
theorem sameAccount_iff (deps : Deps) : SameAccount deps ↔ SoleAccount deps := by
  rw [soleAccount_iff]
  constructor
  · intro h
    have hsame : fallbackAccount deps.accounts = stateAccount deps := h.state [] (Or.inl rfl)
    cases hfallback : fallbackAccount deps.accounts with
    | none => exact Or.inl ⟨rfl, hsame ▸ hfallback⟩
    | some r => exact Or.inr ⟨r, rfl, hsame ▸ hfallback⟩
  · intro hsole
    have hsame : fallbackAccount deps.accounts = stateAccount deps := by
      rcases hsole with ⟨hfallback, hstate⟩ | ⟨r, hfallback, hstate⟩
      · exact hfallback.trans hstate.symm
      · exact hfallback.trans hstate.symm
    have hresolve : ∀ login, Unusable deps.accounts login →
        resolveAccount deps.accounts login = stateAccount deps := fun login hlogin =>
      (resolveAccount_of_unusable hlogin).trans hsame
    -- the first account of the tenant is the fallback, so it is not disabled
    have henabled : ∀ r, stateAccount deps = some r → r.status ≠ .disabled := fun r hr =>
      of_decide_eq_true (fallbackAccount_eq_some_iff.mp (hsame.trans hr)).1
    have htrading : tradingAccount deps = stateAccount deps := by
      rw [tradingAccount]
      cases hstate : stateAccount deps with
      | none => rfl
      | some r => rw [Option.filter, if_pos (decide_eq_true (henabled r hstate))]
    refine ⟨?_, ?_, ?_, ?_, ?_⟩
    · exact hresolve
    · exact fun login hlogin => (hresolve login hlogin).trans htrading.symm
    · exact fun login hlogin => (hresolve login hlogin).trans htrading.symm
    · intro login hlogin a ha
      have hstate := (hresolve login hlogin).symm.trans ha
      exact of_decide_eq_true (head?_listAccounts_eq_some_iff.mp hstate).1
    · rintro ⟨a, ha, -, hstatus⟩ login hlogin
      cases hstate : stateAccount deps with
      | none =>
          have hnone := fallbackAccount_eq_none_iff.mp (hsame.trans hstate) a ha
          exact absurd hnone hstatus
      | some r => exact ⟨r, (hresolve login hlogin).trans hstate, henabled r hstate⟩

/-- An active account of the tenant `t`. -/
def activeAccount (brokerLogin : Text) (createdAt : ℤ) : AccountRow where
  id := brokerLogin
  tenantId := "t"
  brokerServer := "Demo"
  brokerLogin := brokerLogin
  status := .active
  createdAt := createdAt

/-- A slot whose tenant has two active accounts. -/
def twoActive : Deps where
  tenantId := "t"
  connectorId := "mt5"
  accounts := [activeAccount "1" 1, activeAccount "2" 2]
  registered _ := none
  dispatchCommand _ _ := ⟨false, none, none⟩

/-- An event is attributed to the older account, and the routes address the newer one. -/
theorem twoActive_apart : ¬ SameAccount twoActive := by
  intro h
  have hfallback : fallbackAccount twoActive.accounts = some (activeAccount "1" 1) := by
    rw [fallbackAccount_eq_some_iff]
    refine ⟨rfl, [], [activeAccount "2" 2], rfl, ?_, ?_⟩
    · intro b hb
      cases hb
    · intro b hb _
      rw [List.mem_singleton.mp hb]
      rfl
  have hstate : stateAccount twoActive = some (activeAccount "2" 2) := by
    rw [stateAccount, head?_listAccounts_eq_some_iff]
    refine ⟨rfl, [activeAccount "1" 1], [], rfl, ?_, ?_⟩
    · intro b hb _
      rw [List.mem_singleton.mp hb]
      decide
    · intro b hb
      cases hb
  have hsame := h.state [] (Or.inl rfl)
  rw [resolveAccount_nil, hfallback, hstate] at hsame
  exact absurd hsame (by decide)

/-! ## References -/

/-- What a simulated account starts with. -/
structure SimAccount where
  brokerServer : Text
  brokerLogin : Text
  loggedIn : Bool
  balance : ℚ

/-- `SimConnector`, as far as `connect` goes. -/
structure SimConnector where
  initialBalance : ℚ := 100000
  accounts : Text → Option SimAccount := fun _ => none

/-- The reference that `SimConnector.connect` derives. -/
def simRefFor (creds : BrokerCreds) : Text :=
  "sim-".toList ++ (creds.server ++ '-' :: creds.login)

/-- `SimConnector.connect`. -/
def SimConnector.connect (s : SimConnector) (creds : BrokerCreds) : Text × SimConnector :=
  let account : SimAccount :=
    { brokerServer := creds.server
      brokerLogin := creds.login
      loggedIn := true
      balance := s.initialBalance }
  (simRefFor creds, { s with accounts := Function.update s.accounts (simRefFor creds) account })

/-- The connectors of the registry. -/
inductive ConnectorKind where
  | sim | mt5
  deriving DecidableEq

namespace ConnectorKind

/-- `connector.id`. -/
def id : ConnectorKind → Text
  | .sim => "mt5"
  | .mt5 => "mt5"

/-- The reference that `connect` returns. -/
def connectRef : ConnectorKind → BrokerCreds → Text
  | .sim, creds => (({} : SimConnector).connect creds).1
  | .mt5, creds => refFor creds

end ConnectorKind

/-- After `connect` the connector keeps an account under a reference. -/
def Keeps (creds : BrokerCreds) (ref : Text) : ConnectorKind → Prop
  | .sim => ∀ s : SimConnector, ((s.connect creds).2.accounts ref).isSome
  | .mt5 => ∀ s : Mt5Connector, ((s.connect creds).accounts.get ref).isSome

/-- The reference that `connect` returns is the one under which the connector keeps the account,
and the one that the routes and events build from a row with the same server and login. The three
are built in three places of the source. -/
structure RefAgrees (k : ConnectorKind) (creds : BrokerCreds) : Prop where
  keeps : Keeps creds (k.connectRef creds) k
  state : ∀ deps row, deps.connectorId = k.id → stateAccount deps = some row →
    credsOf row = creds → stateRef deps = some (k.connectRef creds)
  trading : ∀ deps row, deps.connectorId = k.id → tradingAccount deps = some row →
    credsOf row = creds → resolveAccountRef deps = .ok (k.connectRef creds)
  stream : ∀ deps row, deps.connectorId = k.id → Ws.streamAccount deps = some row →
    credsOf row = creds → Ws.resolveAccountRef deps = .ok (k.connectRef creds)
  event : k = .mt5 → ∀ numberText (s : Mt5Connector) f row, credsOf row = creds →
    s.eventRef numberText f (some row) = some (k.connectRef creds)

/-- One pair of a server and a login, cut elsewhere, is the other one: the two give one reference
although they are different accounts. -/
def Confusable (creds creds' : BrokerCreds) : Prop :=
  (∃ m, creds'.server = creds.server ++ '-' :: m ∧ creds.login = m ++ '-' :: creds'.login) ∨
  ∃ m, creds.server = creds'.server ++ '-' :: m ∧ creds'.login = m ++ '-' :: creds.login

/-- Texts joined by a character: the same parts, or one is cut elsewhere. -/
theorem append_cons_eq_append_cons_iff {c : Char} {s l s' l' : Text} :
    s ++ c :: l = s' ++ c :: l' ↔ (s = s' ∧ l = l') ∨
      (∃ m, s' = s ++ c :: m ∧ l = m ++ c :: l') ∨ ∃ m, s = s' ++ c :: m ∧ l' = m ++ c :: l := by
  constructor
  · intro h
    rcases List.append_eq_append_iff.mp h with ⟨m, rfl, hm⟩ | ⟨m, rfl, hm⟩
    · cases m with
      | nil => exact Or.inl ⟨by simp, (List.cons.inj hm).2⟩
      | cons d m =>
          obtain ⟨rfl, hl⟩ := List.cons.inj hm
          exact Or.inr (Or.inl ⟨m, rfl, hl⟩)
    · cases m with
      | nil => exact Or.inl ⟨by simp, (List.cons.inj hm).2.symm⟩
      | cons d m =>
          obtain ⟨rfl, hl⟩ := List.cons.inj hm
          exact Or.inr (Or.inr ⟨m, rfl, hl⟩)
  · rintro (⟨rfl, rfl⟩ | ⟨m, rfl, rfl⟩ | ⟨m, rfl, rfl⟩)
    · rfl
    · simp
    · simp

theorem Confusable.ne {creds creds' : BrokerCreds} (h : Confusable creds creds') :
    creds ≠ creds' := by
  rintro rfl
  rcases h with ⟨m, hm, -⟩ | ⟨m, hm, -⟩
  · simpa using congrArg List.length hm
  · simpa using congrArg List.length hm

/-- References are the same for the same credentials and for confusable ones. -/
theorem refFor_eq_refFor_iff {creds creds' : BrokerCreds} :
    refFor creds = refFor creds' ↔ creds = creds' ∨ Confusable creds creds' := by
  have hparts : creds = creds' ↔ creds.server = creds'.server ∧ creds.login = creds'.login := by
    cases creds
    cases creds'
    exact BrokerCreds.mk.injEq .. ▸ Iff.rfl
  have hcancel : refFor creds = refFor creds' ↔
      creds.server ++ '-' :: creds.login = creds'.server ++ '-' :: creds'.login := by
    delta refFor
    exact ⟨List.append_cancel_left, congrArg ("mt5-".toList ++ ·)⟩
  rw [hcancel, append_cons_eq_append_cons_iff, hparts, Confusable]

theorem refAgrees_mt5 (creds : BrokerCreds) : RefAgrees .mt5 creds where
  keeps s := by
    show ((s.accounts.createIfAbsent (refFor creds) _).get (refFor creds)).isSome
    rw [Registry.get_createIfAbsent, if_pos rfl]
    cases s.accounts.get (refFor creds) with
    | none => rfl
    | some rec => rfl
  state deps row hid hrow hcreds := by
    rw [stateRef, hrow, Option.map_some, hid, ← hcreds]
    rfl
  trading deps row hid hrow hcreds := by
    rw [resolveAccountRef_eq, hrow, hid, ← hcreds]
    rfl
  stream deps row hid hrow hcreds := by
    rw [Ws.resolveAccountRef_eq, hrow, hid, ← hcreds]
    rfl
  event _ numberText s f row hcreds := by
    rw [← hcreds]
    rfl

/-- A slot whose only account has given credentials. -/
def soleDeps (creds : BrokerCreds) : Deps where
  tenantId := "t"
  connectorId := "mt5"
  accounts := [⟨"a", "t", creds.server, creds.login, .active, 0⟩]
  registered _ := none
  dispatchCommand _ _ := ⟨false, none, none⟩

/-- The simulator returns a reference that no route builds. -/
theorem not_refAgrees_sim (creds : BrokerCreds) : ¬ RefAgrees .sim creds := by
  intro h
  have hstate : stateAccount (soleDeps creds) =
      some ⟨"a", "t", creds.server, creds.login, .active, 0⟩ := by
    rw [stateAccount, head?_listAccounts_eq_some_iff]
    refine ⟨rfl, [], [], rfl, ?_, ?_⟩
    · intro b hb
      cases hb
    · intro b hb
      cases hb
  have href := h.state (soleDeps creds) _ rfl hstate rfl
  rw [stateRef, hstate, Option.map_some] at href
  have hhead := congrArg List.head? (Option.some.inj href)
  have hm : some 'm' = some 's' := hhead
  exact absurd hm (by decide)

/-- **References**: a connector is addressed by the reference that its `connect` has
returned, and two accounts by two references, if and only if it is the MT5
connector and the credentials are not confusable. -/
theorem refAgrees_iff (k : ConnectorKind) (creds creds' : BrokerCreds) :
    (RefAgrees k creds ∧ (creds ≠ creds' → k.connectRef creds ≠ k.connectRef creds')) ↔
      k = .mt5 ∧ ¬ Confusable creds creds' := by
  cases k with
  | sim =>
      constructor
      · exact fun h => absurd h.1 (not_refAgrees_sim creds)
      · rintro ⟨h, -⟩
        cases h
  | mt5 =>
      constructor
      · rintro ⟨-, hapart⟩
        refine ⟨rfl, ?_⟩
        intro hconfusable
        exact hapart hconfusable.ne (refFor_eq_refFor_iff.mpr (Or.inr hconfusable))
      · rintro ⟨-, hapart⟩
        refine ⟨refAgrees_mt5 creds, ?_⟩
        intro hne href
        rcases refFor_eq_refFor_iff.mp href with heq | hconfusable
        · exact hne heq
        · exact hapart hconfusable

/-- The simulator's reference is not the one of `/v1/state`, and two accounts of the MT5
connector share one. -/
theorem refs_disagree :
    ¬ RefAgrees .sim ⟨"Demo", "5001"⟩ ∧
      ConnectorKind.mt5.connectRef ⟨"Demo", "A-1"⟩ = ConnectorKind.mt5.connectRef ⟨"Demo-A", "1"⟩ :=
  ⟨not_refAgrees_sim _, refFor_eq_refFor_iff.mpr (Or.inr (Or.inl ⟨"A", rfl, rfl⟩))⟩

end AkronSlot.Slot
