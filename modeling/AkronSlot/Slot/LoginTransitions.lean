import AkronSlot.Slot.LoginDetector

/-!
# Logins and logouts of the detector

A login is recorded before `onTransition` runs and published after it.  When a logout is
seen in between, its event comes first and that of the login comes last, although nobody
is logged in; no further transition corrects it.  A tick that waits when `stop()` is
called publishes afterwards.

A tick whose probe fails reports a logout, and a tick that cannot write the state file has
recorded its transition already.  Both leave things as they were only when the detector
has nothing to do.

## Why the events get out of order

`prev` changes at once and the event follows, for a logout in the same step and for a login
after `onTransition`. As long as no two transitions overlap, the last event is the last
transition. `Recorded` is the invariant: it allows one login to be on its way, and says that
everything else agrees; a step that overtakes (`Untangled` excludes it) is one that breaks it.

## Main Definitions

* `Agrees`, `Untangled`
* `Fails`, `Retains`

## Main Results

* `agrees_of_untangled`
* `failed_retains_iff`
-/

namespace AkronSlot.Slot

open Wire Systems

namespace LoginDetector

/-! ## What each step does -/

section Inversion

variable {s s' : LoginDetector} {i : ℕ}

theorem step_interval : s.step .interval = some s' ↔ s.stopped = false ∧ s' = s.beginTick := by
  cases hs : s.stopped <;> simp [step, hs, eq_comm]

theorem step_immediate : s.step .immediate = some s' ↔
    s.immediates ≠ 0 ∧ s' = { s with immediates := s.immediates - 1 }.beginTick := by
  simp [step, eq_comm]

theorem step_probed {wmctrl : Except Text Text} {written : Bool} :
    s.step (.probed i wmctrl written) = some s' ↔
      s.ticks[i]? = some .probing ∧ s' = s.probed i (probeLogin wmctrl) written := by
  simp [step, eq_comm]

theorem step_notified : s.step (.notified i) = some s' ↔
    ∃ account, s.ticks[i]? = some (.notifying account) ∧ s' = s.notified i account := by
  simp only [step]
  split
  · next account htick => simp [htick, eq_comm]
  · next hno => simpa using fun account htick => absurd htick (hno account)

end Inversion

section Probed

variable {s : LoginDetector} (i : ℕ) (account : Option TitleAccount)

/-- A probe that finds nothing to do. -/
theorem probed_of_not_due (probe : Bool × Option TitleAccount) (h : ¬ s.Due (.ofBool probe.1))
    (written : Bool) : s.probed i probe written = { s with ticks := s.ticks.set i .done } :=
  if_neg h

/-- A logout. -/
theorem probed_logout (h : s.Due .loggedOut) (written : Bool) :
    s.probed i (false, account) written =
      { s with
        forcePublish := false
        prev := .loggedOut
        stateFile := if written then some (stateText false) else s.stateFile
        ticks := s.ticks.set i .done
        published := s.published ++ [transitionEvent false none] } :=
  if_pos h

/-- A login that is written down. -/
theorem probed_login (h : s.Due .loggedIn) :
    s.probed i (true, account) true =
      { s with
        forcePublish := false
        prev := .loggedIn
        stateFile := some (stateText true)
        ticks := s.ticks.set i (.notifying account) } :=
  if_pos h

/-- A login that cannot be written down. -/
theorem probed_unwritten (h : s.Due .loggedIn) :
    s.probed i (true, account) false =
      { s with forcePublish := false, prev := .loggedIn, ticks := s.ticks.set i .done } :=
  if_pos h

/-- A tick that records something: `prev` and the flag. -/
theorem probed_of_due {probe : Bool × Option TitleAccount} (h : s.Due (.ofBool probe.1))
    (written : Bool) : (s.probed i probe written).prev = .ofBool probe.1 ∧
      (s.probed i probe written).forcePublish = false := by
  obtain ⟨loggedIn, account⟩ := probe
  cases loggedIn with
  | false => simp [probed_logout i account h written, LoginState.ofBool]
  | true =>
      cases written with
      | false => simp [probed_unwritten i account h, LoginState.ofBool]
      | true => simp [probed_login i account h, LoginState.ofBool]

end Probed

/-! ## The published events -/

/-- An event passes the schema of the TCP server. -/
theorem transitionEvent_accepted (loggedIn : Bool) (account : Option TitleAccount) :
    ∃ data, anyFrame (transitionEvent loggedIn account) = some (.account (some data) none) :=
  ⟨_, rfl⟩

/-- An event says what was found. -/
@[simp] theorem loggedInOf_transitionEvent (loggedIn : Bool) (account : Option TitleAccount) :
    loggedInOf (transitionEvent loggedIn account) = some loggedIn := by
  obtain _ | ⟨login, server⟩ := account
  · rfl
  · rcases login with _ | _ | _ <;> rcases server with _ | _ | _ <;> rfl

/-! ## What the detector has recorded -/

@[simp] theorem readSlotState_stateText (loggedIn : Bool) :
    readSlotState (some (stateText loggedIn)) = .ofBool loggedIn := by
  cases loggedIn <;> decide

/-- When no tick is in flight, the last published event, `prev` and the state file say the same.
While one is, they may differ for a moment. -/
def Agrees (s : LoginDetector) : Prop :=
  s.Quiet → ∀ event ∈ s.published.getLast?, ∃ loggedIn, loggedInOf event = some loggedIn ∧
    s.prev = .ofBool loggedIn ∧ readSlotState s.stateFile = .ofBool loggedIn

/-- The state file can be written. -/
def Event.Writes : Event → Prop
  | .probed _ _ written => written = true
  | _ => True

/-- A step that overtakes nothing.  `onTransition` settles before a logout has been seen
and before `stop()`, and no logout is seen after `stop()`. -/
def Untangled (s : LoginDetector) : Event → Prop
  | .probed _ wmctrl _ =>
      s.stopped = true → (probeLogin wmctrl).1 = false → ¬ s.Due .loggedOut
  | .notified _ => s.prev = .loggedIn ∧ s.stopped = false
  | _ => True

/-- `file`: the state file says what `prev` says. `announced`: so does the last published event,
but for a login that is being announced. The second allowance is what makes it an invariant and
not only a property of quiet states. -/
structure Recorded (s : LoginDetector) : Prop where
  file : ∀ loggedIn, s.prev = .ofBool loggedIn → readSlotState s.stateFile = .ofBool loggedIn
  announced : ∀ event ∈ s.published.getLast?,
    (∃ loggedIn, loggedInOf event = some loggedIn ∧ s.prev = .ofBool loggedIn) ∨
      (s.prev = .loggedIn ∧ ∃ (i : ℕ) (account : Option TitleAccount),
        s.ticks[i]? = some (.notifying account))

theorem ofBool_injective {a b : Bool} (h : LoginState.ofBool a = .ofBool b) : a = b := by
  cases a <;> cases b <;> simp_all [LoginState.ofBool]

theorem Recorded.agrees {s : LoginDetector} (h : s.Recorded) : s.Agrees := by
  intro hquiet event hevent
  rcases h.announced event hevent with ⟨loggedIn, hsays, hprev⟩ | ⟨-, i, account, htick⟩
  · exact ⟨loggedIn, hsays, hprev, h.file loggedIn hprev⟩
  · exact absurd (hquiet _ (List.mem_of_getElem? htick)) (by simp)

theorem recorded_start (file : Option Text) : (startLoginDetector file).Recorded := by
  unfold startLoginDetector
  split
  · next hoperational =>
      refine ⟨fun loggedIn hprev => ?_, fun event hevent => .inl ⟨true, ?_, rfl⟩⟩
      · obtain rfl : true = loggedIn := ofBool_injective hprev
        exact hoperational
      · obtain rfl : transitionEvent true none = event := by simpa using hevent
        exact loggedInOf_transitionEvent true none
  · refine ⟨fun loggedIn hprev => ?_, by simp⟩
    cases loggedIn <;> simp [LoginState.ofBool] at hprev

section Ticks

variable {s s' : LoginDetector} {i j : ℕ} {account : Option TitleAccount}

/-- A tick that begins or leaves its probe is not one that announces a login. -/
theorem notifying_set (t : Tick) (h : s.ticks[i]? = some .probing)
    (hj : s.ticks[j]? = some (.notifying account)) :
    (s.ticks.set i t)[j]? = some (.notifying account) := by
  have hne : i ≠ j := by
    rintro rfl
    simp [h] at hj
  rw [List.getElem?_set_ne hne, hj]

theorem Recorded.beginTick (h : s.Recorded) : s.beginTick.Recorded := by
  unfold LoginDetector.beginTick
  split
  · exact h
  · refine ⟨h.file, fun event hevent => ?_⟩
    rcases h.announced event hevent with hsays | ⟨hprev, j, account, htick⟩
    · exact .inl hsays
    · have hj := (List.getElem?_eq_some_iff.mp htick).1
      exact .inr ⟨hprev, j, account, (List.getElem?_append_left hj).trans htick⟩

/-- A probe keeps the record, when the state file can be written. -/
theorem Recorded.probed (h : s.Recorded) (hi : s.ticks[i]? = some .probing)
    (probe : Bool × Option TitleAccount) : (s.probed i probe true).Recorded := by
  obtain ⟨loggedIn, account⟩ := probe
  by_cases hdue : s.Due (.ofBool loggedIn)
  · cases loggedIn with
    | false =>
        rw [probed_logout i account hdue]
        refine ⟨fun b hb => ?_, fun event hevent => .inl ⟨false, ?_, rfl⟩⟩
        · obtain rfl : false = b := ofBool_injective hb
          exact readSlotState_stateText false
        · obtain rfl : transitionEvent false none = event := by simpa using hevent
          exact loggedInOf_transitionEvent false none
    | true =>
        -- whatever was published last, this tick is about to announce the login
        rw [probed_login i account hdue]
        refine ⟨fun b hb => ?_, fun event _ => .inr ⟨rfl, i, account, ?_⟩⟩
        · obtain rfl : true = b := ofBool_injective hb
          exact readSlotState_stateText true
        · exact List.getElem?_set_self (List.getElem?_eq_some_iff.mp hi).1
  · rw [probed_of_not_due i (loggedIn, account) hdue]
    refine ⟨h.file, fun event hevent => ?_⟩
    rcases h.announced event hevent with hsays | ⟨hprev, j, account, htick⟩
    · exact .inl hsays
    · exact .inr ⟨hprev, j, account, notifying_set .done hi htick⟩

theorem Recorded.notified (h : s.Recorded) (hprev : s.prev = .loggedIn) :
    (s.notified i account).Recorded := by
  refine ⟨h.file, fun event hevent => .inl ⟨true, ?_, hprev⟩⟩
  obtain rfl : transitionEvent true account = event := by
    simpa [LoginDetector.notified] using hevent
  exact loggedInOf_transitionEvent true account

/-- A step that overtakes nothing keeps the record. -/
theorem recorded_step {e : Event} (h : s.Recorded) (hwrites : e.Writes) (hcalm : s.Untangled e)
    (hstep : s.step e = some s') : s'.Recorded := by
  cases e with
  | interval =>
      obtain ⟨-, rfl⟩ := step_interval.mp hstep
      exact h.beginTick
  | immediate =>
      obtain ⟨-, rfl⟩ := step_immediate.mp hstep
      exact Recorded.beginTick ⟨h.file, h.announced⟩
  | refresh =>
      obtain rfl := Option.some.inj hstep
      exact ⟨h.file, h.announced⟩
  | probed i wmctrl written =>
      obtain ⟨hi, rfl⟩ := step_probed.mp hstep
      obtain rfl : written = true := hwrites
      exact h.probed hi _
  | notified i =>
      obtain ⟨account, -, rfl⟩ := step_notified.mp hstep
      exact h.notified hcalm.1
  | stop =>
      obtain rfl := Option.some.inj hstep
      exact ⟨h.file, h.announced⟩

/-- After `stop()` such a step publishes nothing. -/
theorem silent_step {e : Event} (hcalm : s.Untangled e) (hstopped : s.stopped = true)
    (hstep : s.step e = some s') : s'.published = s.published := by
  cases e with
  | interval =>
      obtain ⟨hrunning, -⟩ := step_interval.mp hstep
      simp [hrunning] at hstopped
  | immediate =>
      obtain ⟨-, rfl⟩ := step_immediate.mp hstep
      simp [LoginDetector.beginTick, hstopped]
  | refresh =>
      obtain rfl := Option.some.inj hstep
      rfl
  | probed i wmctrl written =>
      obtain ⟨-, rfl⟩ := step_probed.mp hstep
      have hlogout := hcalm hstopped
      revert hlogout
      obtain ⟨loggedIn, account⟩ := probeLogin wmctrl
      intro hlogout
      by_cases hdue : s.Due (.ofBool loggedIn)
      · cases loggedIn with
        | false => exact absurd hdue (hlogout rfl)
        | true => cases written <;> simp [LoginDetector.probed, hdue]
      · rw [probed_of_not_due i (loggedIn, account) hdue]
  | notified i => simp [hcalm.2] at hstopped
  | stop =>
      obtain rfl := Option.some.inj hstep
      rfl

end Ticks

/-! ## Overlapping ticks -/

/-- **The published login, `prev` and the state file agree whenever no tick is in flight,
and nothing is published after `stop()`**, in every run whose steps overtake nothing. -/
theorem agrees_of_untangled {file : Option Text} {es : List Event} {s : LoginDetector}
    (hrun : run step (startLoginDetector file) es = some s) (hwrites : ∀ e ∈ es, e.Writes)
    (hcalm : Along step Untangled (startLoginDetector file) es) :
    s.Agrees ∧ ∀ before e after t t', es = before ++ e :: after →
      run step (startLoginDetector file) before = some t → step t e = some t' →
        t.stopped = true → t'.published = t.published := by
  have hturn := (along_iff_forall step).mp hcalm
  refine ⟨?_, fun before e after t t' hes hbefore hstep hstopped => ?_⟩
  · have hboth : Along step (fun s e => s.Untangled e ∧ e.Writes) (startLoginDetector file) es :=
      (along_iff_forall step).mpr fun before e after t hes hbefore =>
        ⟨hturn before e after t hes hbefore, hwrites e (by simp [hes])⟩
    have hrecorded := run_along_invariant
      (fun s e s' h hcond hstep => recorded_step h hcond.2 hcond.1 hstep)
      (recorded_start file) hboth hrun
    exact hrecorded.agrees
  · exact silent_step (hturn before e after t hes hbefore) hstopped hstep

/-- `wmctrl` lists the main window of the terminal. -/
def mainWindow : Except Text Text := .ok "0x1 0 terminal64.exe.x host MetaTrader 5"

/-- `wmctrl` lists no window. -/
def noWindow : Except Text Text := .ok []

/-- A login, its announcement, and a logout. -/
def inTurn : List Event :=
  [.immediate, .probed 0 mainWindow true, .notified 0, .interval, .probed 1 noWindow true, .stop]

/-- One tick after the other. -/
theorem inTurn_agrees : (run step (startLoginDetector none) inTurn).isSome ∧
    ∀ s, run step (startLoginDetector none) inTurn = some s → s.Agrees ∧
      ∀ before e after t t', inTurn = before ++ e :: after →
        run step (startLoginDetector none) before = some t → step t e = some t' →
          t.stopped = true → t'.published = t.published := by
  refine ⟨rfl, fun s hrun => agrees_of_untangled hrun (by simp [inTurn, Event.Writes]) ?_⟩
  rw [inTurn, along_cons step rfl, along_cons step rfl, along_cons step rfl, along_cons step rfl,
    along_cons step rfl, along_cons step rfl]
  exact ⟨trivial, fun h => absurd h (by decide), ⟨rfl, rfl⟩, trivial,
    fun h => absurd h (by decide), trivial, trivial⟩

/-- A logout is seen while a login is being announced. -/
def overtaken : List Event :=
  [.immediate, .probed 0 mainWindow true, .interval, .probed 1 noWindow true, .notified 0]

/-- A tick waits for `onTransition` when `stop()` is called. -/
def stoppedLate : List Event := [.immediate, .probed 0 mainWindow true, .stop, .notified 0]

/-- **The last event says that somebody is logged in, and nobody is**; and an event is
published after `stop()`. -/
theorem overtaken_disagrees :
    (∀ e ∈ overtaken ++ stoppedLate, e.Writes) ∧
      (∃ s, run step (startLoginDetector none) overtaken = some s ∧ ¬ s.Agrees) ∧
      ∃ before t t', stoppedLate = before ++ [.notified 0] ∧
        run step (startLoginDetector none) before = some t ∧
        step t (.notified 0) = some t' ∧ t.stopped = true ∧ t'.published ≠ t.published := by
  refine ⟨by simp [overtaken, stoppedLate, Event.Writes], ⟨_, rfl, fun h => ?_⟩, ?_⟩
  · obtain ⟨loggedIn, hsays, hprev, -⟩ := h (by decide) (transitionEvent true (some {})) rfl
    rw [loggedInOf_transitionEvent, Option.some_inj] at hsays
    subst hsays
    exact absurd hprev (by decide)
  · refine ⟨[.immediate, .probed 0 mainWindow true, .stop], _, _, rfl, rfl, rfl, rfl, fun h => ?_⟩
    have hlength := congrArg List.length h
    exact absurd hlength (by decide)

/-! ## Failures -/

/-- The probe of a tick fails, or it has something to write and cannot. In both cases the comments
of the source say that the next tick will try again. -/
def Fails (s : LoginDetector) (wmctrl : Except Text Text) (written : Bool) : Prop :=
  (∃ message, wmctrl = .error message) ∨
    (written = false ∧ s.Due (.ofBool (probeLogin wmctrl).1))

/-- Nothing is recorded or published, and what was due is due for the next tick. It is what the
comments promise of a tick that fails. -/
structure Retains (s s' : LoginDetector) : Prop where
  prev : s'.prev = s.prev
  stateFile : s'.stateFile = s.stateFile
  published : s'.published = s.published
  due : ∀ next, s'.Due next ↔ s.Due next

/-- What is due for a successful tick is made: a logout is published at once, a login when
`onTransition` has settled. -/
theorem probed_announces {s : LoginDetector} {i : ℕ} {loggedIn : Bool}
    {account : Option TitleAccount} (hi : s.ticks[i]? = some .probing)
    (h : s.Due (.ofBool loggedIn)) :
    let s' := s.probed i (loggedIn, account) true
    s'.prev = .ofBool loggedIn ∧ readSlotState s'.stateFile = .ofBool loggedIn ∧
      (loggedIn = false → s'.published = s.published ++ [transitionEvent false none]) ∧
      (loggedIn = true → ∃ t, s'.step (.notified i) = some t ∧
        t.published = s.published ++ [transitionEvent true account]) := by
  cases loggedIn with
  | false =>
      rw [probed_logout i account h]
      exact ⟨rfl, readSlotState_stateText false, fun _ => rfl, fun h => absurd h (by simp)⟩
  | true =>
      rw [probed_login i account h]
      refine ⟨rfl, readSlotState_stateText true, fun h => absurd h (by simp), fun _ => ?_⟩
      have htick := List.getElem?_set_self (a := Tick.notifying account)
        (List.getElem?_eq_some_iff.mp hi).1
      exact ⟨_, step_notified.mpr ⟨account, htick, rfl⟩, rfl⟩

/-- **A tick that fails leaves things as they were exactly when** its probe failed while the
detector had recorded a logout and nothing was to be published again. An error of the probe is
taken for a logout. -/
theorem failed_retains_iff {s s' : LoginDetector} {i : ℕ} {wmctrl : Except Text Text}
    {written : Bool} (hstep : s.step (.probed i wmctrl written) = some s')
    (hfails : s.Fails wmctrl written) :
    s.Retains s' ↔ (∃ message, wmctrl = .error message) ∧ s.prev = .loggedOut ∧
      s.forcePublish = false := by
  obtain ⟨-, rfl⟩ := step_probed.mp hstep
  by_cases hdue : s.Due (.ofBool (probeLogin wmctrl).1)
  · -- the transition is recorded, and no longer due
    obtain ⟨hprev, hforce⟩ := probed_of_due i hdue written
    refine iff_of_false (fun h => ?_) ?_
    · have hagain := (h.due _).mpr hdue
      rw [Due, hprev, hforce] at hagain
      simp at hagain
    · rintro ⟨⟨message, rfl⟩, hout, hquiet⟩
      rw [Due, hout, hquiet] at hdue
      simp [probeLogin, LoginState.ofBool] at hdue
  · obtain ⟨message, rfl⟩ := hfails.resolve_right fun h => hdue h.2
    rw [probed_of_not_due i _ hdue]
    rw [Due, not_or, not_not, Bool.not_eq_true] at hdue
    exact iff_of_true ⟨rfl, rfl, rfl, fun _ => Iff.rfl⟩ ⟨⟨message, rfl⟩, hdue.1.symm, hdue.2⟩

/-- A probe that fails before anybody has logged in, once a logout is recorded. -/
theorem idle_retains : ∃ s s' message, run step (startLoginDetector none)
    [.immediate, .probed 0 noWindow true, .interval] = some s ∧
      s.step (.probed 1 (.error message) true) = some s' ∧ s.Retains s' := by
  refine ⟨_, _, "timeout", rfl, rfl, ?_⟩
  exact (failed_retains_iff (step_probed.mpr ⟨rfl, rfl⟩) (.inl ⟨_, rfl⟩)).mpr
    ⟨⟨_, rfl⟩, by decide, rfl⟩

/-- **A probe that times out publishes a logout, and a login that cannot be written down is
never announced**: the next tick finds nothing to do. -/
theorem failures_not_retained :
    (∃ s s' message, run step (startLoginDetector (some "operational\n".toList)) [.immediate] =
        some s ∧ s.step (.probed 0 (.error message) true) = some s' ∧
          s'.published.getLast?.bind loggedInOf = some false ∧ ¬ s.Retains s') ∧
      ∃ s s' t, run step (startLoginDetector none) [.immediate] = some s ∧
        s.Fails mainWindow false ∧ s.step (.probed 0 mainWindow false) = some s' ∧
          ¬ s.Retains s' ∧ run step s' [.interval, .probed 1 mainWindow true] = some t ∧
            t.Quiet ∧ t.prev = .loggedIn ∧ t.published = [] := by
  refine ⟨⟨_, _, "timeout", rfl, rfl, by decide, fun h => ?_⟩,
    _, _, _, rfl, .inr ⟨rfl, by decide⟩, rfl, fun h => ?_, rfl, by decide, by decide, by decide⟩
  · exact absurd h.prev (by decide)
  · exact absurd h.prev (by decide)

end LoginDetector

end AkronSlot.Slot
