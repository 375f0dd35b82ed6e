import AkronSlot.Slot.ValidationSteps

/-!
# When a validation says `active`

`runValidation` stores `active` whenever `connect` returns, and `connect` returns also
when its time is over: it logs a warning and gives the reference back.  Only a decryption
that throws leads to `error`.  The record that the call reads is the one it found or made;
a `disconnect` takes it away from the account, and the events of a new login go to another
record.

So the verdicts are right along a run exactly when no call is left by its clock, and every
record that is seen logged in is still the account's.

## What `active` should mean

The docstring of `validator.ts` and the specification both take a validation for a login that
was seen. `connect` is where it is lost: its loop has a deadline, and behind the loop it returns
the reference whether the deadline was met or not, with a warning in the log. The validator
cannot tell the two apart. `VerdictLaw` states the promise for one step, with the login read off
the record that the account has at that moment.

## Main Definitions

* `VerdictLaw` — `active` needs a login, and a login that does not come is an error
* `Own`, `Confirms`

## Main Results

* `verdictLaw_step_iff` — one step
* `verdicts_kept_iff` — a run
-/

namespace AkronSlot.Slot.Validator

open Wire Systems Mt5Connector

/-! ## The law -/

/-- What a step may say of the accounts: `active` of one that is logged in when `connect`
returns, and an error with a reason of one whose login has not come in time. -/
structure VerdictLaw (s : Validator) (e : ValidatorEvent) (s' : Validator) : Prop where
  active : ∀ (i : ℕ) (u : StatusUpdate), Finishes s s' i u → u.status = .active →
    ∀ v, s'.validations[i]? = some v →
      (s'.connector.state (refOf v.account.toAccountRow)).loggedIn = true
  error : ∀ (i : ℕ) (call : ConnectCall), e = .timedOut i → s.callOf i = some call →
    s.connector.sees call = false →
      ∃ u message, s'.verdictOf i = some u ∧ u.status = .error ∧ u.lastError = some message

/-- The record that a call holds is the account's, or the one that has replaced it is logged in
too. Without a `disconnect` in between it is always the former. -/
def Own (s : Validator) (call : ConnectCall) : Prop :=
  s.connector.accounts.position call.ref = some call.record ∨
    (s.connector.state call.ref).loggedIn = true

/-- No call is left by its clock before it has seen the login, and what it sees is the account's
record. Both halves are about the connector and not about what is stored. -/
def Confirms (s : Validator) : ValidatorEvent → Prop
  | .slept i => ∀ call, s.callOf i = some call → s.connector.sees call = true → s.Own call
  | .timedOut i => ∀ call, s.callOf i = some call → s.connector.sees call = true ∧ s.Own call
  | _ => True

/-! ## One step -/

/-- A record that is seen logged in is the account's exactly if the account is logged
in. -/
theorem own_iff {s : Validator} {call : ConnectCall} (hsees : s.connector.sees call = true) :
    s.Own call ↔ (s.connector.state call.ref).loggedIn = true := by
  refine ⟨fun h => ?_, .inr⟩
  rcases h with hposition | hlogged
  · rw [loggedIn_state, Registry.get, hposition, Option.bind_some]
    exact hsees
  · exact hlogged

section Steps

variable {deps : ValidatorDeps} {s s' : Validator}

/-- A turn of the wait loop leaves the records, and the validation its account. -/
theorem resume_frame (hs : Consistent deps s) {i : ℕ} {turn : ℕ → Mt5Connector.Event}
    {returns : ConnectCall → Bool}
    (hturn : ∀ j, s.connector.step deps.numberText (s.table.rows.map (·.toAccountRow)) (turn j) =
      s.connector.onConnect j returns)
    (h : s.resume deps i turn = some s') :
    ∃ v call, s.validations[i]? = some v ∧ s.callOf i = some call ∧
      (∀ ref, s'.connector.state ref = s.connector.state ref) ∧
      ∀ w, s'.validations[i]? = some w → refOf w.account.toAccountRow = call.ref := by
  obtain ⟨v, call, t, hv, hcall, -, -, hvalidations, haccounts, -, -, rfl⟩ :=
    resume_eq_some deps hturn h
  have hstate (ref : Text) : t.connector.state ref = s.connector.state ref := by
    rw [Mt5Connector.state, haccounts, Mt5Connector.state]
  have href : refOf v.account.toAccountRow = call.ref := (hs.callOf hv hcall).ref.symm
  refine ⟨v, call, hv, hcall, fun ref => ?_, fun w hw => ?_⟩
  · split
    · exact hstate ref
    · exact hstate ref
  · split at hw
    · obtain ⟨v', hv', haccount⟩ := account_finish hw
      rw [hvalidations, hv] at hv'
      obtain rfl := Option.some.inj hv'
      rw [haccount]
      exact href
    · rw [hvalidations, hv] at hw
      obtain rfl := Option.some.inj hw
      exact href

/-- A finished validation is there. -/
theorem validation_of_verdictOf {i : ℕ} {u : StatusUpdate} (h : s.verdictOf i = some u) :
    ∃ v, s.validations[i]? = some v := by
  obtain ⟨v, hv, -⟩ := Option.bind_eq_some_iff.mp h
  exact ⟨v, hv⟩

/-- An account that `runValidation` stores as active is logged in. -/
theorem active_runValidation (hs : Consistent deps s) {now : ℤ}
    (h : s.step deps (.runValidation now) = some s') {i : ℕ} {u : StatusUpdate}
    (hfinishes : Finishes s s' i u) (hactive : u.status = .active) {w : Validation}
    (hw : s'.validations[i]? = some w) :
    (s'.connector.state (refOf w.account.toAccountRow)).loggedIn = true := by
  have hending := (finishes_iff hs h).mp hfinishes
  obtain ⟨account, scheduled, hscheduled, ⟨message, t, hdecrypt, rfl, rfl⟩ |
    ⟨plaintext, v, call, t, hdecrypt, hv, ht, -, href, -, hreturned, rfl⟩⟩ :=
      runValidation_eq_some deps h
  · rw [ending, hscheduled, List.head?_cons, Option.bind_some] at hending
    simp only [hdecrypt] at hending
    cases hending
    cases hactive
  · rw [ending, hscheduled, List.head?_cons, Option.bind_some] at hending
    simp only [hdecrypt] at hending
    obtain ⟨hlogged, heq⟩ := Option.ite_none_right_eq_some.mp hending
    cases heq
    rw [href] at hreturned
    rw [hreturned, if_pos hlogged] at hw ⊢
    obtain ⟨v', hv', haccount⟩ := account_finish hw
    rw [ht, List.getElem?_concat_length] at hv'
    obtain rfl := Option.some.inj hv'
    rw [haccount, hv, ht]
    exact loggedIn_connect hlogged

/-- **A turn of the wait loop**: its verdict is right exactly if what it sees is the
account's record. -/
theorem verdictLaw_slept_iff {i : ℕ} (hs : Consistent deps s)
    (h : s.step deps (.slept i) = some s') :
    VerdictLaw s (.slept i) s' ↔ s.Confirms (.slept i) := by
  obtain ⟨v, call, hv, hcall, hstate, href⟩ := resume_frame hs (fun j => rfl) h
  constructor
  · intro hlaw call' hcall' hsees
    obtain rfl := Option.some.inj (hcall.symm.trans hcall')
    have hfinishes : Finishes s s' i (activeUpdate deps v) := by
      refine (finishes_iff hs h).mpr ?_
      simp [ending, hv, hcall, hsees]
    obtain ⟨w, hw⟩ := validation_of_verdictOf hfinishes.2
    have hlogged := hlaw.active i _ hfinishes rfl w hw
    rw [href w hw, hstate] at hlogged
    exact .inr hlogged
  · intro hconfirms
    refine ⟨fun k u hfinishes hactive w hw => ?_, fun k _ he => by cases he⟩
    have hending := (finishes_iff hs h).mp hfinishes
    simp only [ending, hv, hcall, Option.bind_some] at hending
    obtain ⟨hsees, heq⟩ := Option.ite_none_right_eq_some.mp hending
    cases heq
    rw [href w hw, hstate]
    exact (own_iff hsees).mp (hconfirms call hcall hsees)

/-- **The end of the wait**: `active` is stored in any case, which is right exactly if the
record that the call sees is the account's and logged in. -/
theorem verdictLaw_timedOut_iff {i : ℕ} (hs : Consistent deps s)
    (h : s.step deps (.timedOut i) = some s') :
    VerdictLaw s (.timedOut i) s' ↔ s.Confirms (.timedOut i) := by
  obtain ⟨v, call, hv, hcall, hstate, href⟩ := resume_frame hs (fun j => rfl) h
  have hending : s.ending deps (.timedOut i) = some (i, activeUpdate deps v) := by
    simp [ending, hv, hcall]
  have hfinishes := (finishes_iff hs h).mpr hending
  obtain ⟨w, hw⟩ := validation_of_verdictOf hfinishes.2
  constructor
  · intro hlaw call' hcall'
    obtain rfl := Option.some.inj (hcall.symm.trans hcall')
    have hlogged := hlaw.active i _ hfinishes rfl w hw
    rw [href w hw, hstate] at hlogged
    refine ⟨?_, .inr hlogged⟩
    -- a call that sees no login has to end with an error, and `active` was stored
    by_contra hsees
    obtain ⟨u, message, hu, herror, -⟩ := hlaw.error i call rfl hcall (by simpa using hsees)
    rw [hfinishes.2] at hu
    cases hu
    cases herror
  · intro hconfirms
    obtain ⟨hsees, hown⟩ := hconfirms call hcall
    refine ⟨fun k u hk hactive w' hw' => ?_, fun k call' he hcall' hno => ?_⟩
    · have heq := (finishes_iff hs h).mp hk
      rw [hending] at heq
      cases heq
      rw [href w' hw', hstate]
      exact (own_iff hsees).mp hown
    · cases he
      obtain rfl := Option.some.inj (hcall.symm.trans hcall')
      rw [hsees] at hno
      cases hno

/-- **One step**: its verdicts are right exactly if no call is left by its clock and what
it sees is the account's record. -/
theorem verdictLaw_step_iff {e : ValidatorEvent} (hs : Consistent deps s)
    (h : s.step deps e = some s') : VerdictLaw s e s' ↔ s.Confirms e := by
  have hquiet : s.ending deps e = none → (∀ i, e ≠ .timedOut i) → VerdictLaw s e s' := by
    intro hnone hno
    refine ⟨fun i u hfinishes => ?_, fun i _ he => absurd he (hno i)⟩
    rw [(finishes_iff hs h).mp hfinishes] at hnone
    cases hnone
  cases e with
  | runValidation now =>
      refine iff_of_true ⟨fun i u hfinishes hactive w hw => ?_, fun i _ he => ?_⟩ trivial
      · exact active_runValidation hs h hfinishes hactive hw
      · cases he
  | slept i => exact verdictLaw_slept_iff hs h
  | timedOut i => exact verdictLaw_timedOut_iff hs h
  | _ => exact iff_of_true (hquiet rfl fun i he => by cases he) trivial

end Steps

/-! ## Runs -/

section Runs

variable {deps : ValidatorDeps} {T : AccountTable}

/-- **A run**: all its verdicts are right exactly when every call of `connect` it leaves has seen
its login, on the record of the account. A call that has run out of time returns like one that has
seen it. -/
theorem verdicts_kept_iff {es : List ValidatorEvent} {s : Validator}
    (h : run (step deps) (start T) es = some s) :
    (∀ before e after t t', es = before ++ e :: after →
      run (step deps) (start T) before = some t → step deps t e = some t' →
        VerdictLaw t e t') ↔ Along (step deps) Confirms (start T) es :=
  @steps_iff_along _ _ (step deps) VerdictLaw Confirms (Consistent deps)
    (fun _ _ _ hs hstep => verdictLaw_step_iff hs hstep)
    (fun _ _ _ hs hstep => consistent_step hs hstep) _ _ _ (consistent_start deps T) h

end Runs

/-! ## A login that does not come -/

/-- An account that waits for its validation. -/
def newAccount : StoredAccount where
  id := "a1"
  tenantId := "t1"
  brokerServer := "Demo"
  brokerLogin := "5001"
  status := .pendingValidation
  createdAt := 1
  encryptedCreds := []
  updatedAt := 1

/-- Its table. -/
def newTable : AccountTable where
  rows := [newAccount]
  nodup_ids := List.nodup_singleton _

/-- Credentials that can be decrypted. -/
def sampleDeps : ValidatorDeps where
  tenantId := "t1"
  decrypt _ _ := .ok []
  numberText n := n.text

/-- `POST /v1/sync` schedules the only account. -/
theorem step_sync {s : Validator} {row : StoredAccount} (htenant : row.tenantId = "t1")
    (hrows : s.table.rows = [row]) : step sampleDeps s .sync = some (s.validateAccount row) := by
  have hown : ∀ r ∈ [row], decide (r.tenantId = sampleDeps.tenantId) = true := by
    intro r hr
    obtain rfl := List.mem_singleton.mp hr
    exact decide_eq_true htenant
  have hlist : s.table.list sampleDeps.tenantId = [row] := by
    rw [AccountTable.list, hrows, List.filter_eq_self.mpr hown]
    exact List.mergeSort_singleton ..
  rw [step, sync, hlist]
  rfl

/-- The slot after `POST /v1/sync`. -/
def synced : Validator := (start newTable).validateAccount newAccount

/-- The validation has begun. -/
def begun : Validator := (synced.runValidation sampleDeps 100).getD synced

theorem run_begun :
    run (step sampleDeps) (start newTable) [.sync, .runValidation 100] = some begun := by
  rw [run, step_sync rfl rfl]
  rfl

/-- The time of its call is over. -/
def expired : Validator := (begun.resume sampleDeps 0 .timedOut).getD begun

theorem step_timedOut : step sampleDeps begun (.timedOut 0) = some expired := rfl

/-- The account is active, and the connector does not know it logged in. -/
theorem expired_active : (expired.table.get "a1").map (·.status) = some .active ∧
    (expired.connector.state "mt5-Demo-5001").loggedIn = false := by decide

/-- **A login that does not come is no error.** -/
theorem timedOut_not_kept : ¬ ∀ before e after t t',
    [ValidatorEvent.sync, .runValidation 100, .timedOut 0] = before ++ e :: after →
      run (step sampleDeps) (start newTable) before = some t →
        step sampleDeps t e = some t' → VerdictLaw t e t' := by
  intro hall
  have hlaw := hall [.sync, .runValidation 100] (.timedOut 0) [] begun expired rfl run_begun
    step_timedOut
  have hfinishes : Finishes begun expired 0
      (activeUpdate sampleDeps ⟨newAccount, 100, none, none⟩) := ⟨rfl, rfl⟩
  have hlogged := hlaw.active 0 _ hfinishes rfl _ rfl
  exact absurd hlogged (by decide)

/-! ## A login that comes -/

/-- The account event of a login. -/
def loginEvent : Frame :=
  .account (some [("login", .str "5001"), ("logged_in", .bool true)]) none

/-- The login arrives while the call waits. -/
def logins : List ValidatorEvent := [.sync, .runValidation 100, .frame loginEvent 0, .slept 0]

/-- The slot once it has heard of the login. -/
def heard : Validator := (begun.onConnector sampleDeps (.frame loginEvent 0)).getD begun

theorem logins_kept : (run (step sampleDeps) (start newTable) logins).isSome ∧
    ∀ before e after t t', logins = before ++ e :: after →
      run (step sampleDeps) (start newTable) before = some t →
        step sampleDeps t e = some t' → VerdictLaw t e t' := by
  have hrun : run (step sampleDeps) (start newTable) logins =
      some ((heard.resume sampleDeps 0 .slept).getD heard) := by
    rw [logins, run, step_sync rfl rfl]
    rfl
  have hbegun : step sampleDeps synced (.runValidation 100) = some begun := rfl
  have hheard : step sampleDeps begun (.frame loginEvent 0) = some heard := rfl
  refine ⟨by rw [hrun]; rfl, (verdicts_kept_iff hrun).mpr ?_⟩
  have hsynced : step sampleDeps (start newTable) .sync = some synced := step_sync rfl rfl
  rw [logins, along_cons _ hsynced, along_cons _ hbegun, along_cons _ hheard]
  refine ⟨trivial, trivial, trivial, fun call hcall _ => .inl ?_, fun _ _ => trivial⟩
  have hheld : heard.callOf 0 = some ⟨"mt5-Demo-5001", 0, false⟩ := rfl
  obtain rfl := Option.some.inj (hheld.symm.trans hcall)
  decide

end AkronSlot.Slot.Validator
