import AkronSlot.Slot.AccountRecords

/-!
# What `state` reports of an account

An account event carries the login of its account, and `connect` and `disconnect`
are called for the rows of the accounts table.  The log of an account is what its
events have brought since its record was created; `state` should report, field by
field, the last value that the log has written.  It does so in every run exactly
when the account has a record of its own: no other row has its reference, and
an event with an empty login finds it if and only if its login is empty.

## A record as a replayed log

What `state` should say has nothing to do with the connector: it is the last write of each field
in the history of one account. `accountLog` takes that history out of a run, by the login that
an event carries; `replay` writes it to a fresh record. The connector is right when its record
is the replay, and `recordAfter_replay` is the one lemma in which the two meet, event by event.

The condition is on the table alone. It has to be: whether two rows share a reference, or an
event with an empty login falls back to the row, is decided before anything happens.

## Main Definitions

* `lastWritten`, `lastWrites`
* `accountLog`, `ReportsLastWrites`
* `OwnRecord`

## Main Results

* `get_eq_replay` — the record of an account is its log, replayed
* `reportsLastWrites_iff`
-/

namespace AkronSlot.Slot.Mt5Connector

open Wire Systems

/-! ## Last writes -/

/-- The value of the last item that has one, or what there was at first. One definition serves all
fields, as each of them is written independently. -/
def lastWritten {α β : Type} (field : α → Option β) (initial : β) (log : List α) : β :=
  (log.filterMap field).getLast?.getD initial

theorem foldl_getD {α β : Type} (field : α → Option β) (initial : β) (log : List α) :
    log.foldl (fun x a => (field a).getD x) initial = lastWritten field initial log := by
  induction log using List.reverseRecOn with
  | nil => rfl
  | append_singleton log a ih =>
      rw [List.foldl_append, ih, lastWritten, lastWritten, List.filterMap_append]
      cases h : field a with
      | none => simp [h]
      | some b => simp [h]

/-- A field that every item sets or keeps holds its last write. -/
theorem foldl_field {α β ρ : Type} (write : ρ → α → ρ) (get : ρ → β) (field : α → Option β)
    (hwrite : ∀ r a, get (write r a) = (field a).getD (get r)) (r : ρ) (log : List α) :
    get (log.foldl write r) = lastWritten field (get r) log := by
  rw [← foldl_getD]
  exact (List.foldl_hom get fun r a => (hwrite r a).symm).symm

/-- What `state` should report: the last write of each field. -/
def lastWrites (ref : Text) (log : List (List (Text × Json))) : AccountState where
  accountRef := ref
  loggedIn := lastWritten (written asBoolean "logged_in") false log
  balance := some <|
    lastWritten (fun data => (written asNumber "balance" data).map Numeral.value) 0 log
  equity := some <|
    lastWritten (fun data => (written asNumber "equity" data).map Numeral.value) 0 log
  lastError := lastWritten (fun data => (written asString "last_error" data).map some) none log

/-! ## The log of an account -/

/-- The credentials of a row. -/
def credsOf (r : AccountRow) : BrokerCreds where
  server := r.brokerServer
  login := r.brokerLogin

/-- The reference of a row. -/
def refOf (r : AccountRow) : Text := accountRef "mt5" r

/-- The record of a log: each item is written to the record that `connect` makes for the row. -/
def replay (r : AccountRow) (log : List (List (Text × Json))) : SessionRecord :=
  log.foldl (fun rec data => writeAccount data rec) (freshRecord (credsOf r))

/-- A replayed record has the last write in each of its fields. -/
theorem state_of_replay {s : Mt5Connector} {r : AccountRow} {log : List (List (Text × Json))}
    (h : s.accounts.get (refOf r) = some (replay r log)) :
    s.state (refOf r) = lastWrites (refOf r) log := by
  have hloggedIn : (replay r log).loggedIn = (lastWrites (refOf r) log).loggedIn :=
    foldl_field _ SessionRecord.loggedIn _ (fun _ _ => rfl) _ log
  have hbalance : some (replay r log).balance = (lastWrites (refOf r) log).balance :=
    congrArg some (foldl_field _ SessionRecord.balance _ (fun _ _ => rfl) _ log)
  have hequity : some (replay r log).equity = (lastWrites (refOf r) log).equity :=
    congrArg some (foldl_field _ SessionRecord.equity _ (fun _ _ => rfl) _ log)
  have hlastError : (replay r log).lastError = (lastWrites (refOf r) log).lastError := by
    apply foldl_field _ SessionRecord.lastError
    intro rec data
    show (written asString "last_error" data).or rec.lastError = _
    cases written asString "last_error" data with
    | none => rfl
    | some e => rfl
  rw [state, h]
  dsimp only
  rw [hloggedIn, hbalance, hequity, hlastError]
  rfl

section Log

variable (numberText : Numeral → Text)

/-- The data of an account event. -/
def accountData : Frame → Option (List (Text × Json))
  | .account data _ => data
  | _ => none

/-- The data of an account event that carries the login of a row. -/
def reports (r : AccountRow) (f : Frame) : Option (List (Text × Json)) :=
  if f.login.map (stringOf numberText) = some r.brokerLogin then accountData f else none

/-- What an event does to the log of an account. -/
def logAfter (r : AccountRow) (log : Option (List (List (Text × Json)))) :
    Event → Option (List (List (Text × Json)))
  | .connect creds => if creds = credsOf r then log.or (some []) else log
  | .disconnect ref => if ref = refOf r then none else log
  | .frame f _ =>
      match reports numberText r f with
      | none => log
      | some data => log.map (· ++ [data])
  | _ => log

/-- The data that the events of an account have brought since its record was
created; `none` while the account is not registered. -/
def accountLog (r : AccountRow) (es : List Event) : Option (List (List (Text × Json))) :=
  es.foldl (logAfter numberText r) none

/-- A registered account is reported as its log says. An account that is not registered has no
log, and nothing is asked of it. -/
def ReportsLastWrites (r : AccountRow) (s : Mt5Connector) (es : List Event) : Prop :=
  ∀ log, accountLog numberText r es = some log → s.state (refOf r) = lastWrites (refOf r) log

/-- `connect` and `disconnect` for rows that are not disabled, account events that carry the login
of such a row, and what the pending calls wait for. Other events are about nobody in the table. -/
inductive OfRows (rows : List AccountRow) : Event → Prop
  | connect {r : AccountRow} (hr : r ∈ enabledAccounts rows) : OfRows rows (.connect (credsOf r))
  | slept (j : ℕ) : OfRows rows (.slept j)
  | timedOut (j : ℕ) : OfRows rows (.timedOut j)
  | disconnect {r : AccountRow} (hr : r ∈ enabledAccounts rows) :
      OfRows rows (.disconnect (refOf r))
  | loggedOut (j : ℕ) : OfRows rows (.loggedOut j)
  | account {r : AccountRow} (hr : r ∈ enabledAccounts rows) (data : List (Text × Json))
      (ts : Option Numeral) (now : ℚ)
      (hlogin : (Frame.account (some data) ts).login.map (stringOf numberText) =
        some r.brokerLogin) :
      OfRows rows (.frame (.account (some data) ts) now)

end Log

/-- An account has a record of its own: no other row that is not disabled has its reference, and
where some row has an empty login, it is this one exactly if this one is the oldest. It is decided
by the table. -/
structure OwnRecord (rows : List AccountRow) (r : AccountRow) : Prop where
  ref_apart : ∀ r' ∈ enabledAccounts rows, refOf r' = refOf r → r' = r
  empty_login : ∀ r' ∈ enabledAccounts rows, r'.brokerLogin = [] →
    (OldestEnabled rows r ↔ r' = r)

/-! ## Accounts with a record of their own -/

section Law

variable {numberText : Numeral → Text} {rows : List AccountRow}

/-- What a run does to the record of a reference. -/
theorem get_run {s s' : Mt5Connector} {es : List Event}
    (h : run (step numberText rows) s es = some s') (ref : Text) :
    s'.accounts.get ref =
      es.foldl (fun rec e => recordAfter numberText rows rec ref e) (s.accounts.get ref) := by
  induction es generalizing s with
  | nil =>
      cases h
      rfl
  | cons e es ih =>
      obtain ⟨t, ht, hrest⟩ := (run_cons _).mp h
      rw [ih hrest, get_step numberText rows ht, List.foldl_cons]

/-- The account that an account event with a login is resolved to. -/
theorem frameWrites_account {login : Text} {data : List (Text × Json)} {ts : Option Numeral}
    (hlogin : (Frame.account (some data) ts).login.map (stringOf numberText) = some login) :
    frameWrites numberText rows (.account (some data) ts) =
      (resolveAccount rows login).map fun account => (refOf account, data) := by
  rw [frameWrites, Frame.loginText, hlogin]
  rfl

/-- An account event with the login of a row reports that row alone. -/
theorem reports_of_login {r r' : AccountRow} (hr : r ∈ enabledAccounts rows)
    (hr' : r' ∈ enabledAccounts rows)
    (hdistinct : ((enabledAccounts rows).map (·.brokerLogin)).Nodup)
    {data : List (Text × Json)} {ts : Option Numeral}
    (hlogin : (Frame.account (some data) ts).login.map (stringOf numberText) =
      some r'.brokerLogin) :
    reports numberText r (.account (some data) ts) = if r' = r then some data else none := by
  rw [reports, hlogin]
  by_cases hsame : r' = r
  · rw [if_pos (congrArg (some ·.brokerLogin) hsame), if_pos hsame]
    rfl
  · have hne : some r'.brokerLogin ≠ some r.brokerLogin := fun heq =>
      hsame (List.inj_on_of_nodup_map hdistinct hr' hr (Option.some.inj heq))
    rw [if_neg hne, if_neg hsame]

/-- The login of a row is resolved to an account that shares the reference of an own record
only if the row is its account. -/
theorem resolveAccount_own {r r' : AccountRow} (hown : OwnRecord rows r)
    (hr' : r' ∈ enabledAccounts rows)
    (hdistinct : ((enabledAccounts rows).map (·.brokerLogin)).Nodup) :
    ∃ a, resolveAccount rows r'.brokerLogin = some a ∧ (refOf r = refOf a ↔ r' = r) := by
  by_cases hempty : r'.brokerLogin = []
  · -- an empty login stands for the fallback account
    obtain ⟨a, ha⟩ := exists_fallbackAccount hr'
    refine ⟨a, by rw [hempty, resolveAccount_nil, ha], ?_⟩
    rw [← hown.empty_login r' hr' hempty, ← fallbackAccount_eq_some_iff, ha]
    constructor
    · intro heq
      rw [hown.ref_apart a (mem_enabledAccounts_of_fallbackAccount ha) heq.symm]
    · intro heq
      rw [Option.some.inj heq]
  · refine ⟨r', resolveAccount_of_distinct hdistinct hr' hempty, ?_⟩
    constructor
    · intro heq
      exact hown.ref_apart r' hr' heq.symm
    · intro heq
      rw [heq]

/-- **The step law**: an event of the rows does to an own record what it does to the
log of the account. -/
theorem recordAfter_replay {r : AccountRow} {e : Event}
    (hr : r ∈ enabledAccounts rows)
    (hdistinct : ((enabledAccounts rows).map (·.brokerLogin)).Nodup) (hown : OwnRecord rows r)
    (he : OfRows numberText rows e) (log : Option (List (List (Text × Json)))) :
    recordAfter numberText rows (log.map (replay r)) (refOf r) e =
      (logAfter numberText r log e).map (replay r) := by
  cases he with
  | @connect r' hr' =>
      show (if refOf r = refOf r' then _ else _) =
        Option.map _ (if credsOf r' = credsOf r then _ else _)
      by_cases hsame : r' = r
      · subst hsame
        rw [if_pos rfl, if_pos rfl]
        -- a record that is there is kept; a new one starts with an empty log
        cases log with
        | none => rfl
        | some log => rfl
      · have href : refOf r ≠ refOf r' := fun heq => hsame (hown.ref_apart r' hr' heq.symm)
        have hcreds : credsOf r' ≠ credsOf r := fun heq => href (congrArg refFor heq.symm)
        rw [if_neg href, if_neg hcreds]
  | slept j => rfl
  | timedOut j => rfl
  | @disconnect r' hr' =>
      show (if refOf r = refOf r' then _ else _) =
        Option.map _ (if refOf r' = refOf r then _ else _)
      by_cases href : refOf r = refOf r'
      · rw [if_pos href, if_pos href.symm]
        rfl
      · rw [if_neg href, if_neg (Ne.symm href)]
  | loggedOut j => rfl
  | @account r' hr' data ts now hlogin =>
      obtain ⟨a, ha, hiff⟩ := resolveAccount_own hown hr' hdistinct
      rw [recordAfter, logAfter, frameWrites_account hlogin, ha,
        reports_of_login hr hr' hdistinct hlogin]
      by_cases hsame : r' = r
      · rw [if_pos hsame]
        dsimp only [Option.map_some]
        rw [if_pos (hiff.mpr hsame), Option.map_map, Option.map_map]
        -- one more write is replayed last
        congr 1
        funext log
        show writeAccount data (replay r log) = replay r (log ++ [data])
        rw [replay, replay, List.foldl_append]
        rfl
      · rw [if_neg hsame]
        dsimp only [Option.map_some]
        rw [if_neg (mt hiff.mp hsame)]

/-- The record of an account is its log, replayed. -/
theorem get_eq_replay {r : AccountRow} (hr : r ∈ enabledAccounts rows)
    (hdistinct : ((enabledAccounts rows).map (·.brokerLogin)).Nodup) (hown : OwnRecord rows r)
    {s : Mt5Connector} {es : List Event} (hes : ∀ e ∈ es, OfRows numberText rows e)
    (hrun : run (step numberText rows) {} es = some s) :
    s.accounts.get (refOf r) = (accountLog numberText r es).map (replay r) := by
  have hfold : ∀ log : Option (List (List (Text × Json))),
      es.foldl (fun rec e => recordAfter numberText rows rec (refOf r) e) (log.map (replay r)) =
        (es.foldl (logAfter numberText r) log).map (replay r) := by
    clear hrun
    induction es with
    | nil => exact fun _ => rfl
    | cons e es ih =>
        intro log
        rw [List.foldl_cons, List.foldl_cons,
          recordAfter_replay hr hdistinct hown (hes e List.mem_cons_self)]
        exact ih (fun e' he' => hes e' (List.mem_cons_of_mem e he')) _
  rw [get_run hrun]
  exact hfold none

end Law

/-! ## Accounts without one -/

section Misreports

variable {numberText : Numeral → Text} {rows : List AccountRow}

/-- Data that carries a login and a balance. -/
def balanceData (login : Text) : List (Text × Json) :=
  [("login", .str login), ("balance", .num (Numeral.ofNat 5))]

/-- An account event that carries a login and a balance. -/
def balanceEvent (login : Text) : Event := .frame (.account (some (balanceData login)) none) 0

theorem ofRows_balanceEvent {r : AccountRow} (hr : r ∈ enabledAccounts rows) :
    OfRows numberText rows (balanceEvent r.brokerLogin) := .account hr _ _ _ rfl

theorem balance_writeAccount (login : Text) (rec : SessionRecord) :
    (writeAccount (balanceData login) rec).balance = 5 := by
  show (Numeral.ofNat 5).value = 5
  rw [Numeral.value_ofNat]
  rfl

theorem recordAfter_balanceEvent {login : Text} {a : AccountRow}
    (ha : resolveAccount rows login = some a) (rec : Option SessionRecord) (ref : Text) :
    recordAfter numberText rows rec ref (balanceEvent login) =
      if ref = refOf a then rec.map (writeAccount (balanceData login)) else rec := by
  have hwrites : frameWrites numberText rows (.account (some (balanceData login)) none) =
      some (refOf a, balanceData login) := by
    rw [@frameWrites_account _ _ login _ _ rfl, ha]
    rfl
  rw [balanceEvent, recordAfter, hwrites]

theorem logAfter_balanceEvent (r : AccountRow) (login : Text)
    (log : Option (List (List (Text × Json)))) :
    logAfter numberText r log (balanceEvent login) =
      if login = r.brokerLogin then log.map (· ++ [balanceData login]) else log := by
  have hreports : reports numberText r (.account (some (balanceData login)) none) =
      if login = r.brokerLogin then some (balanceData login) else none := by
    show (if some login = some r.brokerLogin then _ else _) = _
    by_cases h : login = r.brokerLogin
    · rw [if_pos (congrArg some h), if_pos h]
      rfl
    · rw [if_neg (mt Option.some.inj h), if_neg h]
  rw [balanceEvent, logAfter, hreports]
  by_cases h : login = r.brokerLogin
  · rw [if_pos h, if_pos h]
  · rw [if_neg h, if_neg h]

/-- The balance that is reported is the last one of the log. -/
theorem balance_of_reports {r : AccountRow} {s : Mt5Connector} {es : List Event}
    (h : ReportsLastWrites numberText r s es) {log : List (List (Text × Json))}
    (hlog : accountLog numberText r es = some log) {rec : SessionRecord}
    (hrec : s.accounts.get (refOf r) = some rec) :
    some rec.balance = (lastWrites (refOf r) log).balance := by
  rw [← h log hlog, state, hrec]

/-- An event of another account that is written to the reference of an account is
reported for it. -/
theorem misreports_foreign_event {r a : AccountRow} {login : Text}
    (ha : resolveAccount rows login = some a) (href : refOf a = refOf r)
    (hne : login ≠ r.brokerLogin) {s : Mt5Connector}
    (hrun : run (step numberText rows) {} [.connect (credsOf r), balanceEvent login] = some s) :
    ¬ ReportsLastWrites numberText r s [.connect (credsOf r), balanceEvent login] := by
  intro hreports
  have hlog : accountLog numberText r [.connect (credsOf r), balanceEvent login] = some [] := by
    show logAfter numberText r (if credsOf r = credsOf r then _ else _) (balanceEvent login) = _
    rw [logAfter_balanceEvent, if_neg hne, if_pos rfl]
    rfl
  have hrec : s.accounts.get (refOf r) =
      some (writeAccount (balanceData login) (freshRecord (credsOf r))) := by
    rw [get_run hrun]
    show recordAfter numberText rows (if refOf r = refOf r then _ else _) _
      (balanceEvent login) = _
    rw [recordAfter_balanceEvent ha, if_pos href.symm, if_pos rfl]
    rfl
  have hbalance := balance_of_reports hreports hlog hrec
  rw [balance_writeAccount] at hbalance
  exact absurd (Option.some.inj hbalance) (by decide)

/-- An event of an account that is written elsewhere is not reported for it. -/
theorem misreports_own_event {r a : AccountRow}
    (ha : resolveAccount rows r.brokerLogin = some a) (href : refOf a ≠ refOf r)
    {s : Mt5Connector}
    (hrun : run (step numberText rows) {}
      [.connect (credsOf r), balanceEvent r.brokerLogin] = some s) :
    ¬ ReportsLastWrites numberText r s [.connect (credsOf r), balanceEvent r.brokerLogin] := by
  intro hreports
  have hlog : accountLog numberText r [.connect (credsOf r), balanceEvent r.brokerLogin] =
      some [balanceData r.brokerLogin] := by
    show logAfter numberText r (if credsOf r = credsOf r then _ else _) (balanceEvent _) = _
    rw [logAfter_balanceEvent, if_pos rfl, if_pos rfl]
    rfl
  have hrec : s.accounts.get (refOf r) = some (freshRecord (credsOf r)) := by
    rw [get_run hrun]
    show recordAfter numberText rows (if refOf r = refOf r then _ else _) _ (balanceEvent _) = _
    rw [recordAfter_balanceEvent ha, if_neg (Ne.symm href), if_pos rfl]
    rfl
  have hbalance := Option.some.inj (balance_of_reports hreports hlog hrec)
  have hlast : (0 : ℚ) = (Numeral.ofNat 5).value := hbalance
  rw [Numeral.value_ofNat] at hlast
  exact absurd hlast (by decide)

/-- The record that another account has made is not the account's own. -/
theorem misreports_foreign_connect {r r' a : AccountRow}
    (ha : resolveAccount rows r.brokerLogin = some a) (href : refOf a = refOf r)
    (href' : refOf r' = refOf r) (hne : credsOf r' ≠ credsOf r) {s : Mt5Connector}
    (hrun : run (step numberText rows) {} [.connect (credsOf r'), balanceEvent r.brokerLogin,
      .connect (credsOf r)] = some s) :
    ¬ ReportsLastWrites numberText r s [.connect (credsOf r'), balanceEvent r.brokerLogin,
      .connect (credsOf r)] := by
  intro hreports
  have hlog : accountLog numberText r [.connect (credsOf r'), balanceEvent r.brokerLogin,
      .connect (credsOf r)] = some [] := by
    show (if credsOf r = credsOf r then (logAfter numberText r
      (if credsOf r' = credsOf r then _ else _) (balanceEvent _)).or (some []) else _) = _
    rw [if_pos rfl, if_neg hne, logAfter_balanceEvent, if_pos rfl]
    rfl
  have hrec : s.accounts.get (refOf r) =
      some (writeAccount (balanceData r.brokerLogin) (freshRecord (credsOf r'))) := by
    rw [get_run hrun]
    show (if refOf r = refOf r then (recordAfter numberText rows
      (if refOf r = refOf r' then _ else _) _ (balanceEvent _)).or (some _) else _) = _
    rw [if_pos rfl, recordAfter_balanceEvent ha, if_pos href.symm, if_pos href'.symm]
    rfl
  have hbalance := balance_of_reports hreports hlog hrec
  rw [balance_writeAccount] at hbalance
  exact absurd (Option.some.inj hbalance) (by decide)

end Misreports

/-! ## The law -/

section Law

variable (numberText : Numeral → Text)

/-- The law of an account: it is reported as its log says in every state of every run. -/
def ReportedInEveryRun (rows : List AccountRow) (r : AccountRow) : Prop :=
  ∀ es s, (∀ e ∈ es, OfRows numberText rows e) → run (step numberText rows) initial es = some s →
    ReportsLastWrites numberText r s es

variable {numberText} {rows : List AccountRow}

theorem ownRecord_of_reported {r : AccountRow} (hr : r ∈ enabledAccounts rows)
    (hdistinct : ((enabledAccounts rows).map (·.brokerLogin)).Nodup)
    (hlaw : ReportedInEveryRun numberText rows r) : OwnRecord rows r := by
  have hconnect : ∀ {r'}, r' ∈ enabledAccounts rows →
      OfRows numberText rows (.connect (credsOf r')) := fun hr' => .connect hr'
  -- the events of the account are written to its reference
  have hown : ∀ a, resolveAccount rows r.brokerLogin = some a → refOf a = refOf r := by
    intro a ha
    by_contra href
    refine misreports_own_event ha href rfl (hlaw _ _ ?_ rfl)
    rintro e (_ | ⟨_, _ | ⟨_, he⟩⟩)
    · exact hconnect hr
    · exact ofRows_balanceEvent hr
    · cases he
  have hapart : ∀ r' ∈ enabledAccounts rows, refOf r' = refOf r → r' = r := by
    intro r' hr' href'
    obtain ⟨a, ha⟩ := exists_resolveAccount hr r.brokerLogin
    have hcreds : credsOf r' = credsOf r := by
      by_contra hne
      refine misreports_foreign_connect ha (hown a ha) href' hne rfl (hlaw _ _ ?_ rfl)
      rintro e (_ | ⟨_, _ | ⟨_, _ | ⟨_, he⟩⟩⟩)
      · exact hconnect hr'
      · exact ofRows_balanceEvent hr
      · exact hconnect hr
      · cases he
    exact List.inj_on_of_nodup_map hdistinct hr' hr (congrArg BrokerCreds.login hcreds)
  refine ⟨hapart, ?_⟩
  intro r' hr' hempty
  rw [← fallbackAccount_eq_some_iff]
  constructor
  · intro hfallback
    by_contra hne
    have hlogin : r'.brokerLogin ≠ r.brokerLogin := fun heq =>
      hne (List.inj_on_of_nodup_map hdistinct hr' hr heq)
    have hresolve : resolveAccount rows r'.brokerLogin = some r := by
      rw [hempty, resolveAccount_nil, hfallback]
    refine misreports_foreign_event hresolve rfl hlogin rfl (hlaw _ _ ?_ rfl)
    rintro e (_ | ⟨_, _ | ⟨_, he⟩⟩)
    · exact hconnect hr
    · exact ofRows_balanceEvent hr'
    · cases he
  · rintro rfl
    obtain ⟨a, ha⟩ := exists_fallbackAccount hr
    have href := hown a (by rw [hempty, resolveAccount_nil, ha])
    rw [ha, hapart a (mem_enabledAccounts_of_fallbackAccount ha) href]

/-- **The law of `state`**: an account is reported field by field as its own events
have last written, in every state of every run, if and only if it has a record of
its own. -/
theorem reportsLastWrites_iff {r : AccountRow} (hr : r ∈ enabledAccounts rows)
    (hdistinct : ((enabledAccounts rows).map (·.brokerLogin)).Nodup) :
    (∀ es s, (∀ e ∈ es, OfRows numberText rows e) → run (step numberText rows) {} es = some s →
      ReportsLastWrites numberText r s es) ↔ OwnRecord rows r := by
  constructor
  · exact ownRecord_of_reported hr hdistinct
  · intro hown es s hes hrun log hlog
    apply state_of_replay
    rw [get_eq_replay hr hdistinct hown hes hrun, hlog]
    rfl

/-- A row of the accounts table. -/
def accountRow (id brokerServer brokerLogin : Text) : AccountRow where
  id := id
  tenantId := "t"
  brokerServer := brokerServer
  brokerLogin := brokerLogin
  status := .active
  createdAt := 0

/-- Two accounts of one user. -/
def twoRows : List AccountRow :=
  [accountRow "a" "Deriv-Demo" "32141235", accountRow "b" "Deriv-Server-02" "32324375"]

/-- Each of them has a record of its own. -/
theorem twoRows_reported :
    (∀ es s, (∀ e ∈ es, OfRows Numeral.text twoRows e) →
      run (step Numeral.text twoRows) {} es = some s →
      ReportsLastWrites Numeral.text (accountRow "a" "Deriv-Demo" "32141235") s es) ↔
    OwnRecord twoRows (accountRow "a" "Deriv-Demo" "32141235") :=
  reportsLastWrites_iff (by decide) (by decide)

/-- Two accounts whose server and login, joined by a hyphen, are the same. -/
def hyphenRows : List AccountRow := [accountRow "a" "Demo" "A-1", accountRow "b" "Demo-A" "1"]

/-- The first account is connected, and a balance of the second one comes. -/
def hyphenRun : List Event := [.connect (credsOf (accountRow "a" "Demo" "A-1")), balanceEvent "1"]

/-- The balance of the second account is reported for the first one. -/
theorem hyphenRows_misreported :
    ((enabledAccounts hyphenRows).map (·.brokerLogin)).Nodup ∧
    (∀ e ∈ hyphenRun, OfRows Numeral.text hyphenRows e) ∧
    ∃ s, run (step Numeral.text hyphenRows) {} hyphenRun = some s ∧
      ¬ ReportsLastWrites Numeral.text (accountRow "a" "Demo" "A-1") s hyphenRun := by
  have hfirst : accountRow "a" "Demo" "A-1" ∈ enabledAccounts hyphenRows := by decide
  have hsecond : accountRow "b" "Demo-A" "1" ∈ enabledAccounts hyphenRows := by decide
  have hresolve : resolveAccount hyphenRows "1" = some (accountRow "b" "Demo-A" "1") := by decide
  have href : refOf (accountRow "b" "Demo-A" "1") = refOf (accountRow "a" "Demo" "A-1") := by decide
  refine ⟨by decide, ?_, _, rfl, misreports_foreign_event hresolve href (by decide) rfl⟩
  rintro e (_ | ⟨_, _ | ⟨_, he⟩⟩)
  · exact .connect hfirst
  · exact ofRows_balanceEvent hsecond
  · cases he

end Law

end AkronSlot.Slot.Mt5Connector
