import AkronSlot.Slot.Validator

/-!
# What a step of the validator stores

Most steps store nothing; a validation that comes to its end stores its verdict, and other
writers store what they like.  `Stored` says it once for the table and the verdicts of the
validations.  In every run an account that is taken has its row and a validation that waits
its call of `connect`, so that a validation comes to its end once.

## Frames for a long step function

The slot has a table, validations, a queue and a connector, and an event may touch three of
them. What the two claims about validations need is only which event stores what; so `Stored`
takes the table and the verdicts out of the step, and `Consistent` keeps the references between
the parts valid (an account has its row, a validation its call). Later modules unfold neither
`step` nor `resume`.

## Main Definitions

* `verdictOf`, `ending` — what a validation has stored, and what an event makes one store
* `Stored`
* `Consistent`

## Main Results

* `stored_step`
* `consistent_run`
* `finishes_iff` — which validation a step brings to its end
-/

namespace AkronSlot.Slot

open Wire Systems Mt5Connector

/-- The update that an event is. -/
def ValidatorEvent.update : ValidatorEvent → Option StatusUpdate
  | .updateStatus u => some u
  | _ => none

namespace Validator

section Steps

variable (deps : ValidatorDeps)

/-! ## What a step stores -/

/-- What a validation has stored. -/
def verdictOf (s : Validator) (i : ℕ) : Option StatusUpdate := (s.validations[i]?).bind (·.verdict)

/-- The validation that an event brings to its end, and what it stores. It is read off the state
before the step, so that conditions on runs can use it. -/
def ending (s : Validator) : ValidatorEvent → Option (ℕ × StatusUpdate)
  | .runValidation now => s.scheduled.head?.bind fun account =>
      match deps.decrypt deps.tenantId account.encryptedCreds with
      | .error message => some (s.validations.length, errorUpdate deps { account, now } message)
      | .ok _ =>
          if (s.connector.state (refFor (credsOf account.toAccountRow))).loggedIn then
            some (s.validations.length, activeUpdate deps { account, now })
          else none
  | .slept i => (s.validations[i]?).bind fun v => (s.callOf i).bind fun call =>
      if s.connector.sees call then some (i, activeUpdate deps v) else none
  | .timedOut i => (s.validations[i]?).bind fun v =>
      (s.callOf i).map fun _ => (i, activeUpdate deps v)
  | _ => none

/-- What a step stores in the table. -/
def written (s : Validator) (e : ValidatorEvent) : Option StatusUpdate :=
  ((s.ending deps e).map Prod.snd).or e.update

/-- What a step has stored: the table is updated with it, and it is the verdict of the
validation that has come to its end. -/
structure Stored (s : Validator) (e : ValidatorEvent) (s' : Validator) : Prop where
  table : s'.table = (s.written deps e).elim s.table s.table.updateStatus
  verdictOf : ∀ j, s'.verdictOf j =
    (((s.ending deps e).filter (·.1 = j)).map Prod.snd).or (s.verdictOf j)

/-- A step that brings no validation to its end. -/
theorem Stored.quiet {s s' : Validator} {e : ValidatorEvent} (hending : s.ending deps e = none)
    (htable : s'.table = e.update.elim s.table s.table.updateStatus)
    (hverdict : ∀ j, s'.verdictOf j = s.verdictOf j) : Stored deps s e s' where
  table := by
    rw [written, hending]
    exact htable
  verdictOf j := by
    rw [hending]
    exact hverdict j

/-- A step that brings a validation to its end, perhaps one that it begins. -/
theorem Stored.of_finish {s t : Validator} {e : ValidatorEvent} {i : ℕ} {u : StatusUpdate}
    (hending : s.ending deps e = some (i, u)) (htable : t.table = s.table)
    (hlt : i < t.validations.length) (hverdict : ∀ j, t.verdictOf j = s.verdictOf j) :
    Stored deps s e (t.finish i u) where
  table := by
    rw [written, hending, ← htable]
    rfl
  verdictOf j := by
    have hfinish : (t.finish i u).verdictOf j =
        if i = j then some u else t.verdictOf j := by
      simp only [Validator.verdictOf, finish, List.getElem?_modify]
      split
      · next heq =>
          subst heq
          rw [List.getElem?_eq_getElem hlt]
          rfl
      · rw [Option.map_eq_map, Option.map_id']
    rw [hfinish, hending, Option.filter_some]
    split
    · next heq => simp [heq]
    · next hne => simp [hne, hverdict]

/-- A connector step leaves the table and the validations. -/
theorem onConnector_eq_some_iff {s s' : Validator} {e : Mt5Connector.Event} :
    s.onConnector deps e = some s' ↔ ∃ connector, s.connector.step deps.numberText
      (s.table.rows.map (·.toAccountRow)) e = some connector ∧ { s with connector } = s' :=
  Option.map_eq_some_iff

/-- Accounts are scheduled in the order of the table. -/
theorem foldl_validateAccount (s : Validator) (accounts : List StoredAccount) :
    accounts.foldl validateAccount s = { s with scheduled := s.scheduled ++ accounts } := by
  induction accounts generalizing s with
  | nil => simp
  | cons account accounts ih =>
      rw [List.foldl_cons, ih, validateAccount]
      simp

theorem afterConnect_eq {s : Validator} {i : ℕ} {v : Validation} {call : ConnectCall}
    (hv : s.validations[i]? = some v) (hcall : s.callOf i = some call) :
    s.afterConnect deps i = if call.returned then s.finish i (activeUpdate deps v) else s := by
  rw [afterConnect, hv, hcall]
  rfl

/-- A turn of the wait loop: the call has not returned yet, and when it does the
validation stores `active`. -/
theorem resume_eq_some {s s' : Validator} {i : ℕ} {turn : ℕ → Mt5Connector.Event}
    {returns : ConnectCall → Bool}
    (hturn : ∀ j, s.connector.step deps.numberText (s.table.rows.map (·.toAccountRow)) (turn j) =
      s.connector.onConnect j returns)
    (h : s.resume deps i turn = some s') :
    ∃ v call t, s.validations[i]? = some v ∧ s.callOf i = some call ∧ call.returned = false ∧
      t.table = s.table ∧ t.validations = s.validations ∧
      t.connector.accounts = s.connector.accounts ∧
      s.onConnector deps (turn ((v.call).getD 0)) = some t ∧
      t.callOf i = some { call with returned := returns call } ∧
      s' = if returns call then t.finish i (activeUpdate deps v) else t := by
  obtain ⟨j, hj, h⟩ := Option.bind_eq_some_iff.mp h
  obtain ⟨v, hv, hcall⟩ := Option.bind_eq_some_iff.mp hj
  obtain ⟨t, ht, rfl⟩ := Option.map_eq_some_iff.mp h
  obtain ⟨connector, hconnector, rfl⟩ := (onConnector_eq_some_iff deps).mp ht
  rw [hturn] at hconnector
  obtain ⟨call, hfound, hon⟩ := Option.bind_eq_some_iff.mp hconnector
  obtain ⟨hnot, hset⟩ := Option.ite_none_left_eq_some.mp hon
  obtain rfl := Option.some.inj hset
  let t : Validator := { s with connector := { s.connector with
    connects := s.connector.connects.set j { call with returned := returns call } } }
  have hlt : j < s.connector.connects.length := (List.getElem?_eq_some_iff.mp hfound).1
  have hreturned : t.callOf i = some { call with returned := returns call } := by
    simp only [t, callOf, hj, Option.bind_some, List.getElem?_set_self hlt]
  refine ⟨v, call, t, hv, ?_, by simpa using hnot, rfl, rfl, rfl, ?_, hreturned, ?_⟩
  · rw [callOf, hj, Option.bind_some, hfound]
  · rw [hcall]
    exact ht
  · exact afterConnect_eq (s := t) deps hv hreturned

/-- A validation that begins is the last one. -/
theorem verdictOf_append {s t : Validator} {v : Validation} (hv : v.verdict = none)
    (h : t.validations = s.validations ++ [v]) (j : ℕ) : t.verdictOf j = s.verdictOf j := by
  rw [verdictOf, h, List.getElem?_append]
  split
  · rfl
  · next hge =>
      have hnone : s.validations[j]? = none := List.getElem?_eq_none (by omega)
      rw [verdictOf, hnone]
      rcases Nat.eq_zero_or_pos (j - s.validations.length) with hzero | hpos
      · simp [hzero, hv]
      · rw [List.getElem?_eq_none (by rw [List.length_singleton]; omega)]

/-- The record of an account is logged in. -/
theorem loggedIn_state (c : Mt5Connector) (ref : Text) :
    (c.state ref).loggedIn = (c.accounts.get ref).any (·.loggedIn) := by
  rw [Mt5Connector.state]
  cases c.accounts.get ref with
  | none => rfl
  | some rec => rfl

/-- A call of `connect` returns at once when the account is logged in already. -/
theorem connects_connect (c : Mt5Connector) (creds : BrokerCreds) : ∃ call,
    (c.connect creds).connects = c.connects ++ [call] ∧ call.ref = refFor creds ∧
      (c.connect creds).accounts.position (refFor creds) = some call.record ∧
      call.returned = (c.state (refFor creds)).loggedIn := by
  have hget : (c.accounts.createIfAbsent (refFor creds) (freshRecord creds)).get (refFor creds) =
      (c.accounts.get (refFor creds)).or (some (freshRecord creds)) := by
    rw [Registry.get_createIfAbsent, if_pos rfl]
  refine ⟨_, rfl, rfl, ?_, ?_⟩
  · cases hposition : (c.connect creds).accounts.position (refFor creds) with
    | none =>
        have hnone := (c.connect creds).accounts.get_eq_none_iff.mpr hposition
        rw [Mt5Connector.connect, emitToBus, hget] at hnone
        simp at hnone
    | some i =>
        have hsame : (c.accounts.createIfAbsent (refFor creds) (freshRecord creds)).position
            (refFor creds) = some i := hposition
        simp [hsame]
  · rw [loggedIn_state, hget]
    cases c.accounts.get (refFor creds) with
    | none => rfl
    | some rec => rfl

/-- A call of `connect` leaves an account logged in. -/
theorem loggedIn_connect {c : Mt5Connector} {creds : BrokerCreds}
    (h : (c.state (refFor creds)).loggedIn = true) :
    ((c.connect creds).state (refFor creds)).loggedIn = true := by
  have hget : (c.connect creds).accounts.get (refFor creds) =
      (c.accounts.get (refFor creds)).or (some (freshRecord creds)) := by
    rw [Mt5Connector.connect, emitToBus, Registry.get_createIfAbsent, if_pos rfl]
  rw [loggedIn_state] at h ⊢
  rw [hget]
  cases hrec : c.accounts.get (refFor creds) with
  | none => rw [hrec] at h; cases h
  | some rec => rwa [hrec] at h

/-- A validation that begins: it stores the error of the decryption, or it calls `connect`
and stores `active` when the account is logged in already. -/
theorem runValidation_eq_some {s s' : Validator} {now : ℤ}
    (h : s.runValidation deps now = some s') :
    ∃ account scheduled, s.scheduled = account :: scheduled ∧
      ((∃ message, ∃ t : Validator,
        deps.decrypt deps.tenantId account.encryptedCreds = .error message ∧
        t = { s with scheduled, validations := s.validations ++ [{ account, now }] } ∧
        s' = t.finish s.validations.length (errorUpdate deps { account, now } message)) ∨
      (∃ plaintext, ∃ v : Validation, ∃ call, ∃ t : Validator,
        deps.decrypt deps.tenantId account.encryptedCreds = .ok plaintext ∧
        v = { account, now, call := some s.connector.connects.length } ∧
        t = { s with
          scheduled
          connector := s.connector.connect (credsOf account.toAccountRow)
          validations := s.validations ++ [v] } ∧
        t.connector.connects = s.connector.connects ++ [call] ∧
        call.ref = refFor (credsOf account.toAccountRow) ∧
        t.connector.accounts.position call.ref = some call.record ∧
        call.returned = (s.connector.state call.ref).loggedIn ∧
        s' =
          if call.returned then t.finish s.validations.length (activeUpdate deps v) else t)) := by
  unfold runValidation at h
  split at h
  · cases h
  · next account scheduled hscheduled =>
      refine ⟨account, scheduled, hscheduled, ?_⟩
      split at h
      · next message hdecrypt =>
          exact .inl ⟨message, _, hdecrypt, rfl, (Option.some.inj h).symm⟩
      · next plaintext hdecrypt =>
          obtain ⟨call, hconnects, href, hposition, hreturned⟩ :=
            connects_connect s.connector (credsOf account.toAccountRow)
          let v : Validation := { account, now, call := some s.connector.connects.length }
          let t : Validator := { s with
            scheduled
            connector := s.connector.connect (credsOf account.toAccountRow)
            validations := s.validations ++ [v] }
          refine .inr ⟨plaintext, v, call, t, hdecrypt, rfl, rfl, hconnects, href,
            href ▸ hposition, href ▸ hreturned, ?_⟩
          have hv : t.validations[s.validations.length]? = some v := List.getElem?_concat_length ..
          have hcall : t.callOf s.validations.length = some call := by
            rw [callOf, hv, Option.bind_some, Option.bind_some, hconnects]
            exact List.getElem?_concat_length ..
          rw [← afterConnect_eq deps hv hcall]
          exact (Option.some.inj h).symm

/-- A turn of the wait loop stores its verdict when the call returns, and else nothing. -/
theorem stored_resume {s s' : Validator} {e : ValidatorEvent} {i : ℕ}
    {turn : ℕ → Mt5Connector.Event} {returns : ConnectCall → Bool}
    (hturn : ∀ j, s.connector.step deps.numberText (s.table.rows.map (·.toAccountRow)) (turn j) =
      s.connector.onConnect j returns)
    (h : s.resume deps i turn = some s') (hupdate : e.update = none)
    (hending : ∀ v call, s.validations[i]? = some v → s.callOf i = some call →
      s.ending deps e = if returns call then some (i, activeUpdate deps v) else none) :
    Stored deps s e s' := by
  obtain ⟨v, call, t, hv, hcall, -, htable, hvalidations, -, -, -, rfl⟩ :=
    resume_eq_some deps hturn h
  have hends := hending v call hv hcall
  have hverdict : ∀ j, t.verdictOf j = s.verdictOf j := fun j => by
    rw [verdictOf, hvalidations, verdictOf]
  have hlt : i < t.validations.length := by
    rw [hvalidations]
    exact (List.getElem?_eq_some_iff.mp hv).1
  split
  · next hreturns =>
      rw [if_pos hreturns] at hends
      exact Stored.of_finish deps hends htable hlt hverdict
  · next hwaits =>
      rw [if_neg hwaits] at hends
      refine Stored.quiet deps hends ?_ hverdict
      rw [hupdate]
      exact htable

/-- **What a step stores.** -/
theorem stored_step {s s' : Validator} {e : ValidatorEvent} (h : s.step deps e = some s') :
    Stored deps s e s' := by
  have hconnector : ∀ {e : ValidatorEvent} {event : Mt5Connector.Event},
      s.ending deps e = none → e.update = none → s.onConnector deps event = some s' →
        Stored deps s e s' := by
    intro e event hending hupdate h
    obtain ⟨connector, -, rfl⟩ := (onConnector_eq_some_iff deps).mp h
    exact Stored.quiet deps hending (by rw [hupdate]; rfl) fun _ => rfl
  cases e with
  | sync =>
      obtain rfl := Option.some.inj h
      unfold sync
      split
      · exact Stored.quiet deps rfl rfl fun _ => rfl
      · exact Stored.quiet deps rfl rfl fun _ => rfl
  | internalSync =>
      obtain rfl := Option.some.inj h
      rw [internalSync, foldl_validateAccount]
      exact Stored.quiet deps rfl rfl fun _ => rfl
  | runValidation now =>
      obtain ⟨account, scheduled, hscheduled, ⟨message, t, hdecrypt, rfl, rfl⟩ |
        ⟨plaintext, v, call, t, hdecrypt, rfl, rfl, -, href, -, hreturned, rfl⟩⟩ :=
          runValidation_eq_some deps h
      · refine Stored.of_finish deps ?_ rfl (by simp) (verdictOf_append rfl rfl)
        simp [ending, hscheduled, hdecrypt]
      · rw [href] at hreturned
        split
        · next hyes =>
            refine Stored.of_finish deps ?_ rfl (by simp) (verdictOf_append rfl rfl)
            rw [hreturned] at hyes
            simp only [ending, hscheduled, List.head?_cons, Option.bind_some, hdecrypt, hyes]
            rfl
        · next hno =>
            refine Stored.quiet deps ?_ rfl (verdictOf_append rfl rfl)
            rw [hreturned] at hno
            simp only [ending, hscheduled, List.head?_cons, Option.bind_some, hdecrypt, hno]
            rfl
  | slept i =>
      refine stored_resume deps (fun j => rfl) h rfl fun v call hv hcall => ?_
      rw [ending, hv, Option.bind_some, hcall, Option.bind_some]
  | timedOut i =>
      -- the timeout returns the call, whatever the connector sees
      refine stored_resume deps (fun j => rfl) h rfl fun v call hv hcall => ?_
      rw [ending, hv, Option.bind_some, hcall, Option.map_some, if_pos rfl]
  | disconnect ref => exact hconnector rfl rfl h
  | loggedOut j => exact hconnector rfl rfl h
  | frame f now => exact hconnector rfl rfl h
  | updateStatus u =>
      obtain rfl := Option.some.inj h
      exact Stored.quiet deps rfl rfl fun _ => rfl

/-! ## What holds of a slot -/

/-- The accounts that are scheduled, and those whose validation has begun. -/
def taken (s : Validator) : List StoredAccount := s.scheduled ++ s.validations.map (·.account)

@[simp] theorem taken_finish (s : Validator) (i : ℕ) (u : StatusUpdate) :
    (s.finish i u).taken = s.taken := by
  have hmap : ∀ (l : List Validation) (i : ℕ),
      (l.modify i fun v => { v with verdict := some u }).map (·.account) = l.map (·.account) := by
    intro l
    induction l with
    | nil => simp
    | cons v l ih =>
        intro i
        cases i with
        | zero => rfl
        | succ i => simpa using ih i
  rw [taken, finish, hmap]
  rfl

/-- An account has a row of the tenant. -/
def Known (T : AccountTable) (a : StoredAccount) : Prop :=
  ∃ row, T.get a.id = some row ∧ row.tenantId = deps.tenantId

/-- A call of `connect` is the one of a validation, and it has returned when the validation
has a verdict. -/
structure CallFits (v : Validation) (call : ConnectCall) : Prop where
  ref : call.ref = refFor (credsOf v.account.toAccountRow)
  returned : v.verdict ≠ none → call.returned = true

/-- Every validation that waits for a call has it. -/
def CallsFit (s : Validator) : Prop :=
  ∀ (i j : ℕ) (v : Validation), s.validations[i]? = some v → v.call = some j →
    ∃ call, s.connector.connects[j]? = some call ∧ CallFits v call

/-- Every account that is taken has a row, and every validation its call. It holds in every run,
from a table whose ids are distinct. -/
structure Consistent (s : Validator) : Prop where
  known : ∀ a ∈ s.taken, Known deps s.table a
  calls : s.CallsFit

theorem consistent_start (T : AccountTable) : Consistent deps (start T) where
  known _ ha := absurd ha List.not_mem_nil
  calls _ _ _ hv := by simp [start] at hv

variable {deps}

theorem Known.updateStatus {T : AccountTable} {a : StoredAccount} (h : Known deps T a)
    (u : StatusUpdate) : Known deps (T.updateStatus u) a := by
  obtain ⟨row, hrow, htenant⟩ := h
  exact ⟨u.write row, by rw [AccountTable.get_updateStatus, hrow]; rfl, by simpa using htenant⟩

theorem taken_afterConnect (s : Validator) (i : ℕ) : (s.afterConnect deps i).taken = s.taken := by
  unfold afterConnect
  split
  · rfl
  · split
    · exact taken_finish _ _ _
    · rfl

/-- Accounts are taken from the table only. -/
theorem taken_step {s s' : Validator} {e : ValidatorEvent} (h : s.step deps e = some s') :
    ∀ a ∈ s'.taken, a ∈ s.taken ∨ a ∈ s.table.list deps.tenantId := by
  have hsame : s'.taken = s.taken → ∀ a ∈ s'.taken, a ∈ s.taken ∨ a ∈ s.table.list deps.tenantId :=
    fun heq a ha => .inl (heq ▸ ha)
  have hconnector : ∀ {s' : Validator} {event : Mt5Connector.Event},
      s.onConnector deps event = some s' → s'.taken = s.taken := by
    intro s' event h
    obtain ⟨connector, -, rfl⟩ := (onConnector_eq_some_iff deps).mp h
    rfl
  have hresume : ∀ {i : ℕ} {turn : ℕ → Mt5Connector.Event}, s.resume deps i turn = some s' →
      s'.taken = s.taken := by
    intro i turn h
    obtain ⟨j, -, h⟩ := Option.bind_eq_some_iff.mp h
    obtain ⟨t, ht, rfl⟩ := Option.map_eq_some_iff.mp h
    rw [taken_afterConnect, hconnector ht]
  cases e with
  | sync =>
      obtain rfl := Option.some.inj h
      unfold sync
      split
      · exact fun a ha => .inl ha
      · next row hrow =>
          intro a ha
          simp only [taken, validateAccount, List.mem_append, List.mem_singleton] at ha
          rcases ha with (ha | rfl) | ha
          · exact .inl (List.mem_append_left _ ha)
          · exact .inr (List.mem_of_mem_head? hrow)
          · exact .inl (List.mem_append_right _ ha)
  | internalSync =>
      obtain rfl := Option.some.inj h
      intro a ha
      simp only [internalSync, foldl_validateAccount, taken, List.mem_append] at ha
      rcases ha with (ha | ha) | ha
      · exact .inl (List.mem_append_left _ ha)
      · exact .inr (List.mem_of_mem_filter ha)
      · exact .inl (List.mem_append_right _ ha)
  | runValidation now =>
      obtain ⟨account, scheduled, hscheduled, hcases⟩ := runValidation_eq_some deps h
      -- the account goes over from the scheduled ones to the validations
      have htaken : s'.taken = scheduled ++ (s.validations.map (·.account) ++ [account]) := by
        obtain ⟨message, t, -, rfl, rfl⟩ | ⟨plaintext, v, call, t, -, rfl, rfl, -, -, -, -, rfl⟩ :=
          hcases
        · rw [taken_finish]
          simp [taken]
        · split
          · rw [taken_finish]
            simp [taken]
          · simp [taken]
      refine fun a ha => .inl ?_
      rw [htaken] at ha
      rw [taken, hscheduled]
      simp only [List.mem_append, List.mem_cons, List.not_mem_nil] at ha ⊢
      tauto
  | slept i => exact hsame (hresume h)
  | timedOut i => exact hsame (hresume h)
  | disconnect ref => exact hsame (hconnector h)
  | loggedOut j => exact hsame (hconnector h)
  | frame f now => exact hsame (hconnector h)
  | updateStatus u =>
      obtain rfl := Option.some.inj h
      exact fun a ha => .inl ha

/-- Calls of `connect` stay in their places, and one that has returned stays so. It is all that a
validation relies on while others use the connector. -/
def CallsStay (c c' : Mt5Connector) : Prop :=
  ∀ (j : ℕ) (call : ConnectCall), c.connects[j]? = some call →
    ∃ call', c'.connects[j]? = some call' ∧ call'.ref = call.ref ∧
      (call.returned = true → call'.returned = true)

theorem callsStay_refl (c : Mt5Connector) : CallsStay c c :=
  fun _ call h => ⟨call, h, rfl, id⟩

theorem callsStay_append {c c' : Mt5Connector} {call : ConnectCall}
    (h : c'.connects = c.connects ++ [call]) : CallsStay c c' := by
  intro j call' hcall
  refine ⟨call', ?_, rfl, id⟩
  rw [h, List.getElem?_append_left (List.getElem?_eq_some_iff.mp hcall).1, hcall]

/-- A frame changes no call. -/
theorem connects_tcpEvent (numberText : Numeral → Text) (rows : List AccountRow)
    (c : Mt5Connector) (f : Frame) (now : ℚ) :
    (c.tcpEvent numberText rows f now).connects = c.connects := by
  have haccount : ∀ ref data, (c.onAccount ref data).connects = c.connects := by
    intro ref data
    unfold onAccount
    split
    · rfl
    · dsimp only
      split <;> rfl
  have hat : ∀ ref, (c.handleEventAt ref now f).connects = c.connects := by
    intro ref
    unfold handleEventAt
    split
    · rfl
    · rfl
    · exact haccount _ _
    · rfl
  unfold tcpEvent
  split
  · rfl
  · rfl
  · split
    · rfl
    · unfold Mt5Connector.handleEvent
      split
      · rfl
      · exact hat _

/-- A step of the connector keeps the calls in their places. -/
theorem callsStay_step {numberText : Numeral → Text} {rows : List AccountRow}
    {c c' : Mt5Connector} {e : Mt5Connector.Event} (h : c.step numberText rows e = some c') :
    CallsStay c c' := by
  -- a call that returns stays in its place
  have hon : ∀ {j : ℕ} {returns : ConnectCall → Bool}, c.onConnect j returns = some c' →
      CallsStay c c' := by
    intro j returns h i call hcall
    obtain ⟨found, hfound, hif⟩ := Option.bind_eq_some_iff.mp h
    obtain ⟨hnot, hset⟩ := Option.ite_none_left_eq_some.mp hif
    obtain rfl := Option.some.inj hset
    by_cases heq : j = i
    · subst heq
      obtain rfl := Option.some.inj (hfound.symm.trans hcall)
      have hlt := (List.getElem?_eq_some_iff.mp hcall).1
      exact ⟨_, List.getElem?_set_self hlt, rfl, fun hyes => absurd hyes hnot⟩
    · exact ⟨call, by rw [List.getElem?_set_ne heq, hcall], rfl, id⟩
  have hsame : c'.connects = c.connects → CallsStay c c' := by
    intro heq j call hcall
    exact ⟨call, heq ▸ hcall, rfl, id⟩
  cases e with
  | connect creds =>
      obtain rfl := Option.some.inj h
      obtain ⟨call, hconnects, -⟩ := connects_connect c creds
      exact callsStay_append hconnects
  | slept j => exact hon h
  | timedOut j => exact hon h
  | disconnect ref =>
      obtain rfl := Option.some.inj h
      refine hsame ?_
      rw [Mt5Connector.disconnect]
      split <;> rfl
  | loggedOut j =>
      obtain ⟨ref, -, rfl⟩ := Option.map_eq_some_iff.mp h
      exact hsame rfl
  | frame f now =>
      obtain rfl := Option.some.inj h
      exact hsame (connects_tcpEvent _ _ _ _ _)

theorem callsFit_of_stay {s t : Validator} (hs : s.CallsFit)
    (hvalidations : t.validations = s.validations) (hstay : CallsStay s.connector t.connector) :
    t.CallsFit := by
  intro i j v hv hcall
  rw [hvalidations] at hv
  obtain ⟨call, hfound, hfits⟩ := hs i j v hv hcall
  obtain ⟨call', hfound', href, hreturned⟩ := hstay j call hfound
  exact ⟨call', hfound', href.trans hfits.ref, fun h => hreturned (hfits.returned h)⟩

/-- A validation stores its verdict when its call has returned. -/
theorem callsFit_finish {t : Validator} {i : ℕ} {u : StatusUpdate} (ht : t.CallsFit)
    (hdone : ∀ call, t.callOf i = some call → call.returned = true) : (t.finish i u).CallsFit := by
  intro k j v hv hcall
  rw [finish, List.getElem?_modify, Option.map_eq_map, Option.map_eq_some_iff] at hv
  obtain ⟨w, hw, rfl⟩ := hv
  split at hcall
  · next heq =>
      subst heq
      obtain ⟨call, hfound, hfits⟩ := ht i j w hw hcall
      have hof : t.callOf i = some call := by
        rw [callOf, hw, Option.bind_some, hcall, Option.bind_some, hfound]
      refine ⟨call, hfound, ?_, fun _ => hdone call hof⟩
      rw [if_pos rfl]
      exact hfits.ref
  · next hne =>
      obtain ⟨call, hfound, hfits⟩ := ht k j w hw hcall
      rw [if_neg hne]
      exact ⟨call, hfound, hfits⟩

/-- A validation that begins waits for the call it has made. -/
theorem callsFit_append {s t : Validator} {v : Validation} (hs : s.CallsFit)
    (hvalidations : t.validations = s.validations ++ [v])
    (hstay : CallsStay s.connector t.connector)
    (hv : ∀ j, v.call = some j → ∃ call, t.connector.connects[j]? = some call ∧ CallFits v call) :
    t.CallsFit := by
  intro i j w hw hcall
  rw [hvalidations, List.getElem?_append] at hw
  split at hw
  · obtain ⟨call, hfound, hfits⟩ := hs i j w hw hcall
    obtain ⟨call', hfound', href, hreturned⟩ := hstay j call hfound
    exact ⟨call', hfound', href.trans hfits.ref, fun h => hreturned (hfits.returned h)⟩
  · obtain rfl := List.mem_singleton.mp (List.mem_of_getElem? hw)
    exact hv j hcall

theorem callsFit_step {s s' : Validator} {e : ValidatorEvent} (hs : s.CallsFit)
    (h : s.step deps e = some s') : s'.CallsFit := by
  have hconnector : ∀ {t : Validator} {event : Mt5Connector.Event},
      s.onConnector deps event = some t → t.CallsFit := by
    intro t event h
    obtain ⟨connector, hstep, rfl⟩ := (onConnector_eq_some_iff deps).mp h
    exact callsFit_of_stay hs rfl (callsStay_step hstep)
  -- a validation finishes in a turn of its wait loop only when its call returns there
  have hresume : ∀ {i : ℕ} {turn : ℕ → Mt5Connector.Event} {returns : ConnectCall → Bool},
      (∀ j, s.connector.step deps.numberText (s.table.rows.map (·.toAccountRow)) (turn j) =
        s.connector.onConnect j returns) →
      s.resume deps i turn = some s' → s'.CallsFit := by
    intro i turn returns hturn h
    obtain ⟨v, call, t, -, -, -, -, -, -, ht, hcall, rfl⟩ := resume_eq_some deps hturn h
    split
    · next hreturns =>
        refine callsFit_finish (hconnector ht) fun call' hcall' => ?_
        obtain rfl := Option.some.inj (hcall.symm.trans hcall')
        exact hreturns
    · exact hconnector ht
  cases e with
  | sync =>
      obtain rfl := Option.some.inj h
      unfold sync
      split
      · exact hs
      · exact hs
  | internalSync =>
      obtain rfl := Option.some.inj h
      rw [internalSync, foldl_validateAccount]
      exact hs
  | runValidation now =>
      obtain ⟨account, scheduled, -, ⟨message, t, -, rfl, rfl⟩ |
        ⟨plaintext, v, call, t, -, hv, ht, hconnects, href, -, -, rfl⟩⟩ :=
          runValidation_eq_some deps h
      · refine callsFit_finish (callsFit_append hs rfl (callsStay_refl _) (by simp)) ?_
        simp [callOf]
      · have hlast : t.connector.connects[s.connector.connects.length]? = some call := by
          rw [hconnects]
          exact List.getElem?_concat_length ..
        have hbegun : t.CallsFit := by
          refine callsFit_append (v := v) hs (by rw [ht]) (callsStay_append hconnects) ?_
          rintro j hj
          rw [hv] at hj
          obtain rfl := Option.some.inj hj
          exact ⟨call, hlast, by rw [href, hv], fun hverdict => absurd (by rw [hv]) hverdict⟩
        split
        · next hyes =>
            refine callsFit_finish hbegun fun call' hcall' => ?_
            have hof : t.callOf s.validations.length = some call := by
              rw [callOf, ht, List.getElem?_concat_length, hv]
              rw [ht] at hlast
              exact hlast
            obtain rfl := Option.some.inj (hof.symm.trans hcall')
            exact hyes
        · exact hbegun
  | slept i => exact hresume (fun j => rfl) h
  | timedOut i => exact hresume (fun j => rfl) h
  | disconnect ref => exact hconnector h
  | loggedOut j => exact hconnector h
  | frame f now => exact hconnector h
  | updateStatus u =>
      obtain rfl := Option.some.inj h
      exact hs

theorem consistent_step {s s' : Validator} {e : ValidatorEvent} (hs : Consistent deps s)
    (h : s.step deps e = some s') : Consistent deps s' where
  known a ha := by
    have hknown : Known deps s.table a := by
      rcases taken_step h a ha with ha | ha
      · exact hs.known a ha
      · obtain ⟨hmem, htenant⟩ := AccountTable.mem_list.mp ha
        exact ⟨a, AccountTable.get_of_mem hmem, htenant⟩
    rw [(stored_step deps h).table]
    cases s.written deps e with
    | none => exact hknown
    | some u => exact hknown.updateStatus u
  calls := callsFit_step hs.calls h

/-- In every run every account that is taken has its row, and every validation its call. -/
theorem consistent_run {T : AccountTable} {es : List ValidatorEvent} {s : Validator}
    (h : run (step deps) (start T) es = some s) : Consistent deps s :=
  run_invariant (fun _ _ _ hs hstep => consistent_step hs hstep) (consistent_start deps T) h

/-- A validation keeps its account when one stores its verdict. -/
theorem account_finish {t : Validator} {i k : ℕ} {u : StatusUpdate} {w : Validation}
    (hw : (t.finish i u).validations[k]? = some w) :
    ∃ v, t.validations[k]? = some v ∧ w.account = v.account := by
  rw [finish, List.getElem?_modify, Option.map_eq_map, Option.map_eq_some_iff] at hw
  obtain ⟨v, hv, rfl⟩ := hw
  refine ⟨v, hv, ?_⟩
  split <;> rfl

/-- A validation gets its verdict. -/
def Finishes (s s' : Validator) (i : ℕ) (u : StatusUpdate) : Prop :=
  s.verdictOf i = none ∧ s'.verdictOf i = some u

/-- The call of a validation in the slot has its reference. -/
theorem Consistent.callOf {s : Validator} (hs : Consistent deps s) {i : ℕ} {v : Validation}
    {call : ConnectCall} (hv : s.validations[i]? = some v) (hcall : s.callOf i = some call) :
    CallFits v call := by
  rw [Validator.callOf, hv, Option.bind_some] at hcall
  obtain ⟨j, hj, hfound⟩ := Option.bind_eq_some_iff.mp hcall
  obtain ⟨call', hfound', hfits⟩ := hs.calls i j v hv hj
  obtain rfl := Option.some.inj (hfound.symm.trans hfound')
  exact hfits

/-- A validation that comes to its end has no verdict yet. -/
theorem verdictOf_of_ending {s s' : Validator} {e : ValidatorEvent} (hs : Consistent deps s)
    (h : s.step deps e = some s') {i : ℕ} {u : StatusUpdate}
    (hending : s.ending deps e = some (i, u)) : s.verdictOf i = none := by
  have hresume : ∀ {k : ℕ} {turn : ℕ → Mt5Connector.Event} {returns : ConnectCall → Bool},
      (∀ j, s.connector.step deps.numberText (s.table.rows.map (·.toAccountRow)) (turn j) =
        s.connector.onConnect j returns) →
      s.resume deps k turn = some s' → s.verdictOf k = none := by
    intro k turn returns hturn h
    obtain ⟨v, call, t, hv, hcall, hnot, -⟩ := resume_eq_some deps hturn h
    -- the call of a validation with a verdict has returned, and this one has not
    by_contra hverdict
    rw [verdictOf, hv, Option.bind_some] at hverdict
    rw [(hs.callOf hv hcall).returned hverdict] at hnot
    cases hnot
  cases e with
  | runValidation now =>
      obtain ⟨account, -, hfound⟩ := Option.bind_eq_some_iff.mp hending
      have hi : i = s.validations.length := by
        split at hfound
        · cases hfound
          rfl
        · obtain ⟨-, heq⟩ := Option.ite_none_right_eq_some.mp hfound
          cases heq
          rfl
      rw [verdictOf, hi, List.getElem?_eq_none le_rfl]
      rfl
  | slept k =>
      obtain ⟨v, -, hfound⟩ := Option.bind_eq_some_iff.mp hending
      obtain ⟨call, -, hfound⟩ := Option.bind_eq_some_iff.mp hfound
      obtain ⟨-, heq⟩ := Option.ite_none_right_eq_some.mp hfound
      cases heq
      exact hresume (fun j => rfl) h
  | timedOut k =>
      obtain ⟨v, -, hfound⟩ := Option.bind_eq_some_iff.mp hending
      obtain ⟨call, -, heq⟩ := Option.map_eq_some_iff.mp hfound
      cases heq
      exact hresume (fun j => rfl) h
  | _ => cases hending

/-- **Which validation finishes in a step.** -/
theorem finishes_iff {s s' : Validator} {e : ValidatorEvent} (hs : Consistent deps s)
    (h : s.step deps e = some s') {i : ℕ} {u : StatusUpdate} :
    Finishes s s' i u ↔ s.ending deps e = some (i, u) := by
  have hverdict := (stored_step deps h).verdictOf i
  constructor
  · rintro ⟨hnone, hsome⟩
    rw [hsome, hnone, Option.or_none, eq_comm, Option.map_eq_some_iff] at hverdict
    obtain ⟨⟨k, w⟩, hfilter, rfl⟩ := hverdict
    obtain ⟨hending, hk⟩ := Option.filter_eq_some_iff.mp hfilter
    obtain rfl : k = i := by simpa using hk
    exact hending
  · intro hending
    refine ⟨verdictOf_of_ending hs h hending, ?_⟩
    rw [hverdict, hending]
    simp [Option.filter_some]

end Steps

end Validator

end AkronSlot.Slot
