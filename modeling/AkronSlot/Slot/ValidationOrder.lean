import AkronSlot.Slot.Verdicts

/-!
# Validations that overlap

A validation keeps the row and the time of its beginning, is in flight for as long as
`connect` waits, and then stores its verdict over whatever the row has become.  Nothing
keeps two validations of one account apart, and `POST /v1/sync` schedules one for a disabled
account too.

The stored results are those of the validation that was started last, along a run, exactly
when every validation that ends finds its account enabled, no later validation of the
account ended with another result, and no time in the row that is after its beginning.

## Times

What a validation stores as `updated_at` is the time of its beginning, so the condition is
about that (`begunAt`).  It cannot be left out for validations that end in their order: other
writers store their own times, and the clock that `Date.now()` reads may be set back between
two beginnings.

## Main Definitions

* `Newest` — of the validations of an account that have ended, the last one that began
* `begunAt` — when a validation that ends has begun
* `ResultsLaw` — what a step may do to the stored results
* `InOrder`

## Main Results

* `resultsLaw_step_iff` — one step
* `results_kept_iff` — a run
-/

namespace AkronSlot.Slot

open Wire Systems

/-- The row has the result. -/
structure StatusUpdate.StoredIn (u : StatusUpdate) (row : StoredAccount) : Prop where
  status : row.status = u.status
  lastError : row.lastError = u.lastError
  updatedAt : row.updatedAt = u.updatedAt

/-- Two results are the same in the row. -/
structure StatusUpdate.Same (u w : StatusUpdate) : Prop where
  status : u.status = w.status
  lastError : u.lastError = w.lastError
  updatedAt : u.updatedAt = w.updatedAt

namespace Validator

/-! ## The law -/

/-- Of the validations of an account that have ended, the one that was started last, and its
verdict. Its place among the validations tells when it was started, and not the clock. -/
structure Newest (s : Validator) (id : Text) (j : ℕ) (w : StatusUpdate) : Prop where
  verdict : s.verdictOf j = some w
  account : w.id = id
  last : ∀ k x, s.verdictOf k = some x → x.id = id → k ≤ j

/-- What a step may do to the stored results: a validation that ends leaves a disabled
account disabled, and the result of the validation started last in the row; `updated_at`
does not go back. -/
structure ResultsLaw (s s' : Validator) : Prop where
  disabled : ∀ (i : ℕ) (u : StatusUpdate), Finishes s s' i u → ∀ row row',
    s.table.get u.id = some row → s'.table.get u.id = some row' →
      row.status = .disabled → row'.status = .disabled
  newest : ∀ (i : ℕ) (u : StatusUpdate), Finishes s s' i u → ∀ row' j w,
    s'.table.get u.id = some row' → s'.Newest u.id j w → w.StoredIn row'
  forward : ∀ id row row', s.table.get id = some row → s'.table.get id = some row' →
    row.updatedAt ≤ row'.updatedAt

/-- When a validation has begun that an event brings to its end. One that begins with the event
may end with it, when its credentials cannot be decrypted. -/
def begunAt (s : Validator) (e : ValidatorEvent) (i : ℕ) : Option ℤ :=
  match e with
  | .runValidation now => some now
  | _ => (s.validations[i]?).map (·.now)

/-- A validation that ends has begun after all that is stored, and finds its account enabled
and no other result of a validation that was started later; another writer stores no time
before the stored one. -/
structure InOrder (deps : ValidatorDeps) (s : Validator) (e : ValidatorEvent) : Prop where
  begun : ∀ (i : ℕ) (u : StatusUpdate), s.ending deps e = some (i, u) →
    ∀ time ∈ s.begunAt e i, ∀ row, s.table.get u.id = some row → row.updatedAt ≤ time
  writer : ∀ (u : StatusUpdate), e.update = some u → ∀ row, s.table.get u.id = some row →
    row.tenantId = u.tenantId → row.updatedAt ≤ u.updatedAt
  enabled : ∀ (i : ℕ) (u : StatusUpdate), s.ending deps e = some (i, u) →
    ∀ row, s.table.get u.id = some row → row.status ≠ .disabled
  last : ∀ (i : ℕ) (u : StatusUpdate), s.ending deps e = some (i, u) →
    ∀ j w, s.Newest u.id j w → j ≤ i ∨ w.Same u

/-! ## One step -/

section Steps

variable {deps : ValidatorDeps} {s s' : Validator} {e : ValidatorEvent}

/-- A verdict is one of two. -/
theorem ending_cases {i : ℕ} {u : StatusUpdate} (hending : s.ending deps e = some (i, u)) :
    ∃ v : Validation, v.account ∈ s.taken ∧
      (u = activeUpdate deps v ∨ ∃ message, u = errorUpdate deps v message) := by
  have hbegun : ∀ {k : ℕ} {v : Validation}, s.validations[k]? = some v → v.account ∈ s.taken :=
    fun hv => List.mem_append_right _ (List.mem_map_of_mem (List.mem_of_getElem? hv))
  cases e with
  | runValidation now =>
      obtain ⟨account, haccount, hfound⟩ := Option.bind_eq_some_iff.mp hending
      have htaken : account ∈ s.taken := List.mem_append_left _ (List.mem_of_mem_head? haccount)
      refine ⟨⟨account, now, none, none⟩, htaken, ?_⟩
      split at hfound
      · next message _ =>
          cases hfound
          exact .inr ⟨message, rfl⟩
      · obtain ⟨-, heq⟩ := Option.ite_none_right_eq_some.mp hfound
        cases heq
        exact .inl rfl
  | slept k =>
      obtain ⟨v, hv, hfound⟩ := Option.bind_eq_some_iff.mp hending
      obtain ⟨call, -, hfound⟩ := Option.bind_eq_some_iff.mp hfound
      obtain ⟨-, heq⟩ := Option.ite_none_right_eq_some.mp hfound
      cases heq
      exact ⟨v, hbegun hv, .inl rfl⟩
  | timedOut k =>
      obtain ⟨v, hv, hfound⟩ := Option.bind_eq_some_iff.mp hending
      obtain ⟨call, -, heq⟩ := Option.map_eq_some_iff.mp hfound
      cases heq
      exact ⟨v, hbegun hv, .inl rfl⟩
  | _ => cases hending

/-- A verdict disables nothing, and its account has a row. -/
theorem row_of_ending (hs : Consistent deps s) {i : ℕ} {u : StatusUpdate}
    (hending : s.ending deps e = some (i, u)) : u.status ≠ .disabled ∧
      ∃ row, s.table.get u.id = some row ∧ row.id = u.id ∧ row.tenantId = u.tenantId := by
  obtain ⟨v, hv, rfl | ⟨message, rfl⟩⟩ := ending_cases hending
  · obtain ⟨row, hrow, htenant⟩ := hs.known _ hv
    exact ⟨by simp [activeUpdate], row, hrow, AccountTable.id_of_get hrow, htenant⟩
  · obtain ⟨row, hrow, htenant⟩ := hs.known _ hv
    exact ⟨by simp [errorUpdate], row, hrow, AccountTable.id_of_get hrow, htenant⟩

/-- A row that an update addresses. -/
theorem write_of_addressed {u : StatusUpdate} {row : StoredAccount} (hid : row.id = u.id)
    (htenant : row.tenantId = u.tenantId) : u.StoredIn (u.write row) := by
  rw [StatusUpdate.write, if_pos ⟨hid, htenant⟩]
  exact ⟨rfl, rfl, rfl⟩

/-- The stored times go forward exactly if what is stored is not before them. -/
theorem forward_iff (h : s.step deps e = some s') :
    (∀ id row row', s.table.get id = some row → s'.table.get id = some row' →
      row.updatedAt ≤ row'.updatedAt) ↔
    ∀ (u : StatusUpdate), s.written deps e = some u → ∀ row, s.table.get u.id = some row →
      row.tenantId = u.tenantId → row.updatedAt ≤ u.updatedAt := by
  have htable := (stored_step deps h).table
  cases hwritten : s.written deps e with
  | none =>
      rw [hwritten] at htable
      refine iff_of_true (fun id row row' hrow hrow' => ?_) (fun u hu => by cases hu)
      rw [htable, Option.elim_none, hrow] at hrow'
      cases hrow'
      exact le_rfl
  | some u =>
      have hget (id : Text) : s'.table.get id = (s.table.get id).map u.write := by
        rw [htable, hwritten, Option.elim_some, AccountTable.get_updateStatus]
      constructor
      · intro hforward w hw row hrow htenant
        cases hw
        have hid : row.id = u.id := AccountTable.id_of_get hrow
        have hle := hforward u.id row _ hrow (by rw [hget, hrow]; rfl)
        rwa [(write_of_addressed hid htenant).updatedAt] at hle
      · intro hcond id row row' hrow hrow'
        rw [hget, hrow] at hrow'
        cases hrow'
        have hid : row.id = id := AccountTable.id_of_get hrow
        -- a row that the update does not address keeps its time
        by_cases haddressed : row.id = u.id ∧ row.tenantId = u.tenantId
        · rw [(write_of_addressed haddressed.1 haddressed.2).updatedAt]
          refine hcond u rfl row ?_ haddressed.2
          rw [← haddressed.1, hid, hrow]
        · rw [StatusUpdate.write, if_neg haddressed]

/-- What a validation stores is the time of its beginning. -/
theorem begunAt_of_ending {i : ℕ} {u : StatusUpdate} (hending : s.ending deps e = some (i, u)) :
    s.begunAt e i = some u.updatedAt ∧ e.update = none := by
  cases e with
  | runValidation now =>
      obtain ⟨account, -, hfound⟩ := Option.bind_eq_some_iff.mp hending
      refine ⟨?_, rfl⟩
      split at hfound
      · cases hfound
        rfl
      · obtain ⟨-, heq⟩ := Option.ite_none_right_eq_some.mp hfound
        cases heq
        rfl
  | slept k =>
      obtain ⟨v, hv, hfound⟩ := Option.bind_eq_some_iff.mp hending
      obtain ⟨call, -, hfound⟩ := Option.bind_eq_some_iff.mp hfound
      obtain ⟨-, heq⟩ := Option.ite_none_right_eq_some.mp hfound
      cases heq
      exact ⟨congrArg (Option.map Validation.now) hv, rfl⟩
  | timedOut k =>
      obtain ⟨v, hv, hfound⟩ := Option.bind_eq_some_iff.mp hending
      obtain ⟨call, -, heq⟩ := Option.map_eq_some_iff.mp hfound
      cases heq
      exact ⟨congrArg (Option.map Validation.now) hv, rfl⟩
  | _ => cases hending

/-- What is stored is not before the stored times exactly if no beginning is, and no time of
another writer. -/
theorem written_iff_begun (hs : Consistent deps s) :
    (∀ (u : StatusUpdate), s.written deps e = some u → ∀ row, s.table.get u.id = some row →
      row.tenantId = u.tenantId → row.updatedAt ≤ u.updatedAt) ↔
    (∀ (i : ℕ) (u : StatusUpdate), s.ending deps e = some (i, u) →
      ∀ time ∈ s.begunAt e i, ∀ row, s.table.get u.id = some row → row.updatedAt ≤ time) ∧
    ∀ (u : StatusUpdate), e.update = some u → ∀ row, s.table.get u.id = some row →
      row.tenantId = u.tenantId → row.updatedAt ≤ u.updatedAt := by
  cases hending : s.ending deps e with
  | none =>
      rw [written, hending, Option.map_none, Option.none_or]
      exact (and_iff_right fun i u h => by cases h).symm
  | some end_ =>
      obtain ⟨i, u⟩ := end_
      obtain ⟨hbegun, hnone⟩ := begunAt_of_ending hending
      obtain ⟨-, row, hrow, -, htenant⟩ := row_of_ending hs hending
      rw [written, hending, hnone]
      constructor
      · intro h
        refine ⟨?_, fun w hw => by cases hw⟩
        rintro _ _ ⟨⟩ time htime row' hrow'
        obtain rfl := Option.some.inj (hbegun.symm.trans htime)
        obtain rfl := Option.some.inj (hrow.symm.trans hrow')
        exact h u rfl row hrow htenant
      · rintro ⟨h, -⟩ _ ⟨⟩ row' hrow' -
        exact h i u rfl _ hbegun row' hrow'

/-- What a validation that ends leaves in its row. -/
theorem storedIn_of_ending (hs : Consistent deps s) (h : s.step deps e = some s') {i : ℕ}
    {u : StatusUpdate} (hending : s.ending deps e = some (i, u)) :
    ∃ row row', s.table.get u.id = some row ∧ s'.table.get u.id = some row' ∧
      u.StoredIn row' := by
  obtain ⟨-, row, hrow, hid, htenant⟩ := row_of_ending hs hending
  refine ⟨row, u.write row, hrow, ?_, write_of_addressed hid htenant⟩
  rw [(stored_step deps h).table, written, hending, Option.map_some, Option.some_or,
    Option.elim_some, AccountTable.get_updateStatus, hrow]
  rfl

/-- A validation that ends gets its verdict, and the others keep theirs. -/
theorem verdictOf_after_ending (h : s.step deps e = some s') {i : ℕ} {u : StatusUpdate}
    (hending : s.ending deps e = some (i, u)) (j : ℕ) :
    s'.verdictOf j = if i = j then some u else s.verdictOf j := by
  rw [(stored_step deps h).verdictOf, hending, Option.filter_some]
  by_cases heq : i = j
  · simp [heq]
  · simp [heq]

/-- The newest verdict stays the newest when an older validation ends. -/
theorem Newest.after {i j : ℕ} {u w : StatusUpdate} (hnewest : s.Newest u.id j w)
    (h : s.step deps e = some s') (hending : s.ending deps e = some (i, u)) (hij : i < j) :
    s'.Newest u.id j w where
  verdict := by
    rw [verdictOf_after_ending h hending, if_neg (by omega)]
    exact hnewest.verdict
  account := hnewest.account
  last k x hk hx := by
    rw [verdictOf_after_ending h hending] at hk
    split at hk
    · omega
    · exact hnewest.last k x hk hx

/-- The newest verdict was the newest one before, unless it is the one that is given. -/
theorem Newest.before {i j : ℕ} {u w : StatusUpdate} (hnewest : s'.Newest u.id j w)
    (h : s.step deps e = some s') (hending : s.ending deps e = some (i, u))
    (hnone : s.verdictOf i = none) (hne : i ≠ j) : s.Newest u.id j w where
  verdict := by
    have hverdict := hnewest.verdict
    rwa [verdictOf_after_ending h hending, if_neg hne] at hverdict
  account := hnewest.account
  last k x hk hx := by
    refine hnewest.last k x ?_ hx
    rw [verdictOf_after_ending h hending]
    split
    · next heq =>
        subst heq
        rw [hnone] at hk
        cases hk
    · exact hk

/-- **One step**: the stored results stay those of the validation started last exactly if
what the step stores is in order. -/
theorem resultsLaw_step_iff (hs : Consistent deps s) (h : s.step deps e = some s') :
    ResultsLaw s s' ↔ InOrder deps s e := by
  constructor
  · intro hlaw
    obtain ⟨hbegun, hwriter⟩ := (written_iff_begun hs).mp ((forward_iff h).mp hlaw.forward)
    refine ⟨hbegun, hwriter, fun i u hending row hrow hdisabled => ?_,
      fun i u hending j w hnewest => ?_⟩
    · have hfinishes := (finishes_iff hs h).mpr hending
      obtain ⟨-, row', -, hget, hin⟩ := storedIn_of_ending hs h hending
      have hstatus := hlaw.disabled i u hfinishes row row' hrow hget hdisabled
      rw [hin.status] at hstatus
      exact (row_of_ending hs hending).1 hstatus
    · -- a newer verdict that differs would be overwritten
      by_contra! hlate
      obtain ⟨hij, hdiffer⟩ := hlate
      have hfinishes := (finishes_iff hs h).mpr hending
      obtain ⟨-, row', -, hget, hin⟩ := storedIn_of_ending hs h hending
      have hw := hlaw.newest i u hfinishes row' j w hget (hnewest.after h hending hij)
      exact hdiffer ⟨hw.status.symm.trans hin.status, hw.lastError.symm.trans hin.lastError,
        hw.updatedAt.symm.trans hin.updatedAt⟩
  · intro horder
    refine ⟨fun i u hfinishes row row' hrow _ hdisabled => ?_,
      fun i u hfinishes row' j w hget hnewest => ?_,
      (forward_iff h).mpr ((written_iff_begun hs).mpr ⟨horder.begun, horder.writer⟩)⟩
    · have hending := (finishes_iff hs h).mp hfinishes
      exact absurd hdisabled (horder.enabled i u hending row hrow)
    · have hending := (finishes_iff hs h).mp hfinishes
      obtain ⟨-, row'', -, hget', hin⟩ := storedIn_of_ending hs h hending
      obtain rfl := Option.some.inj (hget'.symm.trans hget)
      by_cases hne : i = j
      · have hj := hnewest.verdict
        rw [← hne, hfinishes.2] at hj
        obtain rfl := Option.some.inj hj
        exact hin
      · have hle : i ≤ j := hnewest.last i u hfinishes.2 rfl
        have hbefore := hnewest.before h hending hfinishes.1 hne
        rcases horder.last i u hending j w hbefore with hji | hsame
        · omega
        · exact ⟨hin.status.trans hsame.status.symm, hin.lastError.trans hsame.lastError.symm,
            hin.updatedAt.trans hsame.updatedAt.symm⟩

end Steps

/-! ## Runs -/

/-- **A run**: the stored results stay those of the validation started last exactly when
everything that is stored is in order. The statement that stores a result has no condition, so the
last one to end wins. -/
theorem results_kept_iff {deps : ValidatorDeps} {T : AccountTable} {es : List ValidatorEvent}
    {s : Validator} (h : run (step deps) (start T) es = some s) :
    (∀ before e after t t', es = before ++ e :: after →
      run (step deps) (start T) before = some t → step deps t e = some t' →
        ResultsLaw t t') ↔ Along (step deps) (InOrder deps) (start T) es :=
  @steps_iff_along _ _ (step deps) (fun t _ t' => ResultsLaw t t') (InOrder deps) (Consistent deps)
    (fun _ _ _ hs hstep => resultsLaw_step_iff hs hstep)
    (fun _ _ _ hs hstep => consistent_step hs hstep) _ _ _ (consistent_start deps T) h

/-! ## Two validations of one account -/

/-- A second validation begins while the first one waits. -/
def overlap : List ValidatorEvent :=
  [.sync, .runValidation 100, .sync, .runValidation 200, .frame loginEvent 300, .slept 1]

def begunTwice : Validator :=
  ((begun.validateAccount newAccount).runValidation sampleDeps 200).getD begun

def heardTwice : Validator :=
  (begunTwice.onConnector sampleDeps (.frame loginEvent 300)).getD begunTwice

/-- The second validation has ended. -/
def secondEnded : Validator := (heardTwice.resume sampleDeps 1 .slept).getD heardTwice

/-- And then the first one. -/
def firstEnded : Validator := (secondEnded.resume sampleDeps 0 .slept).getD secondEnded

theorem run_overlap : run (step sampleDeps) (start newTable) overlap = some secondEnded := by
  refine (run_cons _).mpr ⟨synced, step_sync rfl rfl, (run_cons _).mpr ⟨begun, rfl, ?_⟩⟩
  exact (run_cons _).mpr ⟨begun.validateAccount newAccount, step_sync rfl rfl, rfl⟩

/-- **The first validation overwrites the result of the second one.** -/
theorem overlap_not_kept : ¬ ∀ before e after t t',
    overlap ++ [.slept 0] = before ++ e :: after →
      run (step sampleDeps) (start newTable) before = some t →
        step sampleDeps t e = some t' → ResultsLaw t t' := by
  intro hall
  have hlaw := hall overlap (.slept 0) [] secondEnded firstEnded rfl run_overlap rfl
  have hforward := hlaw.forward "a1" _ _ rfl rfl
  exact absurd hforward (by decide)

/-! ## A disabled account -/

/-- A disabled account. -/
def disabledAccount : StoredAccount := { newAccount with status := .disabled }

/-- Its table. -/
def disabledTable : AccountTable where
  rows := [disabledAccount]
  nodup_ids := List.nodup_singleton _

/-- The slot of a disabled account after `POST /v1/sync`. -/
def disabledSynced : Validator := (start disabledTable).validateAccount disabledAccount

def disabledBegun : Validator := (disabledSynced.runValidation sampleDeps 100).getD disabledSynced

def disabledEnded : Validator := (disabledBegun.resume sampleDeps 0 .timedOut).getD disabledBegun

/-- `POST /v1/sync` enables a disabled account. -/
theorem disabled_not_kept : ∃ s, step sampleDeps (start disabledTable) .sync = some s ∧
    run (step sampleDeps) s [.runValidation 100, .timedOut 0] = some disabledEnded ∧
    ((disabledEnded.table.get "a1").map (·.status)) = some .active :=
  ⟨disabledSynced, step_sync rfl rfl, rfl, by decide⟩

/-! ## Two validations that end in their order -/

theorem inOrder_of_quiet {deps : ValidatorDeps} {s : Validator} {e : ValidatorEvent}
    (hending : s.ending deps e = none) (hupdate : e.update = none) : InOrder deps s e where
  begun i u hu := by
    rw [hending] at hu
    cases hu
  writer u hu := by
    rw [hupdate] at hu
    cases hu
  enabled i u hu := by
    rw [hending] at hu
    cases hu
  last i u hu := by
    rw [hending] at hu
    cases hu

/-- A validation that ends in order, of an account whose row is known. -/
theorem inOrder_of_ending {deps : ValidatorDeps} {s : Validator} {e : ValidatorEvent} {i : ℕ}
    {u : StatusUpdate} {row : StoredAccount} (hending : s.ending deps e = some (i, u))
    (hrow : s.table.get u.id = some row) (hbegun : row.updatedAt ≤ u.updatedAt)
    (henabled : row.status ≠ .disabled)
    (hlast : ∀ j w, s.Newest u.id j w → j ≤ i ∨ w.Same u) : InOrder deps s e where
  begun j w hw time htime row' hrow' := by
    cases hending.symm.trans hw
    obtain rfl := Option.some.inj ((begunAt_of_ending hending).1.symm.trans htime)
    obtain rfl := Option.some.inj (hrow.symm.trans hrow')
    exact hbegun
  writer w hw := by
    rw [(begunAt_of_ending hending).2] at hw
    cases hw
  enabled j w hw row' hrow' := by
    cases hending.symm.trans hw
    obtain rfl := Option.some.inj (hrow.symm.trans hrow')
    exact henabled
  last j w hw := by
    cases hending.symm.trans hw
    exact hlast

/-- The second validation begins while the first one waits, and ends after it. -/
def inTurn : List ValidatorEvent :=
  [.sync, .runValidation 100, .sync, .runValidation 200, .frame loginEvent 300, .slept 0, .slept 1]

/-- The first validation has ended while the second one waits. -/
def oneEnded : Validator := (heardTwice.resume sampleDeps 0 .slept).getD heardTwice

def bothEnded : Validator := (oneEnded.resume sampleDeps 1 .slept).getD oneEnded

theorem inTurn_results_kept : run (step sampleDeps) (start newTable) inTurn = some bothEnded ∧
    (bothEnded.table.get "a1").map (·.updatedAt) = some 200 ∧
    ∀ before e after t t', inTurn = before ++ e :: after →
      run (step sampleDeps) (start newTable) before = some t →
        step sampleDeps t e = some t' → ResultsLaw t t' := by
  have hsynced : step sampleDeps (start newTable) .sync = some synced := step_sync rfl rfl
  have hbegun : step sampleDeps synced (.runValidation 100) = some begun := rfl
  have hagain : step sampleDeps begun .sync = some (begun.validateAccount newAccount) :=
    step_sync rfl rfl
  have htwice : step sampleDeps (begun.validateAccount newAccount) (.runValidation 200) =
      some begunTwice := rfl
  have hheard : step sampleDeps begunTwice (.frame loginEvent 300) = some heardTwice := rfl
  have hone : step sampleDeps heardTwice (.slept 0) = some oneEnded := rfl
  have hrun : run (step sampleDeps) (start newTable) inTurn = some bothEnded :=
    (run_cons _).mpr ⟨synced, hsynced, (run_cons _).mpr ⟨begun, hbegun,
      (run_cons _).mpr ⟨_, hagain, rfl⟩⟩⟩
  refine ⟨hrun, rfl, (results_kept_iff hrun).mpr ?_⟩
  rw [inTurn, along_cons _ hsynced, along_cons _ hbegun, along_cons _ hagain,
    along_cons _ htwice, along_cons _ hheard, along_cons _ hone]
  refine ⟨inOrder_of_quiet rfl rfl, inOrder_of_quiet rfl rfl, inOrder_of_quiet rfl rfl,
    inOrder_of_quiet rfl rfl, inOrder_of_quiet rfl rfl, ?_, ?_, fun _ _ => trivial⟩
  · refine @inOrder_of_ending _ _ _ 0 (activeUpdate sampleDeps ⟨newAccount, 100, some 0, none⟩) _
      rfl rfl (by decide) (by decide) fun j w hnewest => ?_
    -- no validation has ended yet
    have hverdict := hnewest.verdict
    rcases j with _ | _ | j <;> cases hverdict
  · refine @inOrder_of_ending _ _ _ 1 (activeUpdate sampleDeps ⟨newAccount, 200, some 1, none⟩) _
      rfl rfl (by decide) (by decide) fun j w hnewest => ?_
    have hverdict := hnewest.verdict
    rcases j with _ | _ | j
    · exact .inl (Nat.zero_le _)
    · exact .inl le_rfl
    · cases hverdict

end Validator

end AkronSlot.Slot
