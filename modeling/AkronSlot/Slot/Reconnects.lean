import AkronSlot.Slot.CommandSocket

/-!
# The command client reconnects once

Two handlers schedule a reconnect, and the 'data' handler can destroy the socket
without scheduling one.  They share one budget: a socket that is still alive, or
a reconnect timer, and never both.  `Change` says what a step can do to the two
numbers; the budget follows from it by arithmetic.

## The budget

The source has no counter, only a flag in the closure of each socket: 'error' schedules a
reconnect and sets the flag, and the 'close' that comes after it finds the flag set. So every
socket hands its place on once, to a timer, and the timer to one socket; the live sockets and
the running timers together never grow. `Change` lists the three ways in which a step can move
it, so that no later proof looks into the handlers again.

## Main Definitions

* `Change` — what a step does to the live sockets and the reconnect timers
* `OneConnecting`

## Main Results

* `oneConnecting_of_run`
-/

namespace AkronSlot.Slot

open Wire Systems

namespace Mt5CommandClient

/-- The sockets that have neither errored nor closed. -/
def alive (s : Mt5CommandClient) : ℕ := s.sockets.countP Socket.Alive

/-- The sockets that have errored or closed. -/
def ended (s : Mt5CommandClient) : ℕ := s.sockets.countP fun k => !k.Alive

/-- The reconnect timers that went off. Their sum over a run is the number of sockets after the
first one. -/
def Event.fired : Event → ℕ
  | .reconnect => 1
  | _ => 0

/-! ## Counting sockets -/

/-- Replacing an element moves a count by what the two elements weigh. -/
theorem countP_set_of_getElem? {α : Type*} {l : List α} {i : ℕ} {a : α} (h : l[i]? = some a)
    (p : α → Bool) (b : α) :
    (l.set i b).countP p + (if p a then 1 else 0) = l.countP p + if p b then 1 else 0 := by
  obtain ⟨hi, rfl⟩ := List.getElem?_eq_some_iff.mp h
  rw [List.countP_set hi]
  have hpos : p l[i] = true → 0 < l.countP p :=
    fun hp => List.countP_pos_iff.mpr ⟨_, List.getElem_mem hi, hp⟩
  split
  · next hp =>
      have := hpos hp
      omega
  · omega

/-- A change that no one can tell by `p` leaves the count. -/
theorem countP_modify {α : Type*} {p : α → Bool} {f : α → α} (h : ∀ a, p (f a) = p a) (l : List α)
    (i : ℕ) : (l.modify i f).countP p = l.countP p := by
  induction l generalizing i with
  | nil => simp
  | cons a l ih =>
      cases i with
      | zero => simp [List.countP_cons, h]
      | succ i => simp [List.countP_cons, ih]

theorem alive_add_ended (s : Mt5CommandClient) : s.alive + s.ended = s.sockets.length := by
  have h := List.length_eq_countP_add_countP Socket.Alive (l := s.sockets)
  simp only [alive, ended]
  rw [h]
  congr 2
  funext k
  cases k.Alive <;> rfl

/-! ## What a step does -/

/-- **What a step does to the sockets and the timers**: nothing, or it ends a
socket and schedules a reconnect, or a reconnect timer makes a socket.  A client
that is destroyed schedules nothing and makes no socket. -/
inductive Change (s s' : Mt5CommandClient) (fired : ℕ) : Prop
  | quiet (fired_eq : fired = 0) (length : s'.sockets.length = s.sockets.length)
      (alive : s'.alive = s.alive) (reconnects : s'.reconnects = s.reconnects)
      (destroyed : s.destroyed = true → s'.destroyed = true)
  | ended (fired_eq : fired = 0) (length : s'.sockets.length = s.sockets.length)
      (alive : s'.alive + 1 = s.alive)
      (reconnects : s'.reconnects = s.reconnects + if s.destroyed then 0 else 1)
      (destroyed : s'.destroyed = s.destroyed)
  | reconnected (fired_eq : fired = 1)
      (length : s'.sockets.length = s.sockets.length + if s.destroyed then 0 else 1)
      (alive : s'.alive = s.alive + if s.destroyed then 0 else 1)
      (reconnects : s'.reconnects + 1 = s.reconnects)
      (destroyed : s'.destroyed = s.destroyed)

/-- A step that leaves the three parts alone. -/
theorem Change.of_same {s s' : Mt5CommandClient} (hsockets : s'.sockets = s.sockets)
    (hreconnects : s'.reconnects = s.reconnects) (hdestroyed : s'.destroyed = s.destroyed) :
    Change s s' 0 :=
  .quiet rfl (by rw [hsockets]) (by rw [alive, alive, hsockets]) hreconnects
    fun h => hdestroyed.trans h

theorem scheduleReconnect_eq (s : Mt5CommandClient) : s.scheduleReconnect =
    { s with reconnects := s.reconnects + if s.destroyed then 0 else 1 } := by
  unfold scheduleReconnect
  split <;> rfl

theorem length_writeSock (s : Mt5CommandClient) (frame : Text) :
    (s.writeSock frame).length = s.sockets.length := by
  unfold writeSock
  split <;> simp

/-- What `write`, `deliver` and `destroy` do to a socket does not end it. -/
theorem alive_modify (s : Mt5CommandClient) (c : ℕ) {f : Socket → Socket}
    (h : ∀ k, (f k).Alive = k.Alive) : (s.sockets.modify c f).countP Socket.Alive = s.alive :=
  countP_modify h s.sockets c

theorem alive_writeSock (s : Mt5CommandClient) (frame : Text) :
    (s.writeSock frame).countP Socket.Alive = s.alive := by
  unfold writeSock
  split
  · rfl
  · apply alive_modify
    intro k
    rfl

/-- A socket that was alive ends. -/
theorem alive_setSocket_ended {s : Mt5CommandClient} {c : ℕ} {k k' : Socket}
    (hk : s.sockets[c]? = some k) (halive : k.Alive = true) (hend : k'.Alive = false) :
    (s.sockets.set c k').countP Socket.Alive + 1 = s.alive := by
  have h := countP_set_of_getElem? hk Socket.Alive k'
  simpa [alive, halive, hend] using h

/-- A socket changes and stays what it was. -/
theorem alive_setSocket_same {s : Mt5CommandClient} {c : ℕ} {k k' : Socket}
    (hk : s.sockets[c]? = some k) (hsame : k'.Alive = k.Alive) :
    (s.sockets.set c k').countP Socket.Alive = s.alive := by
  have h := countP_set_of_getElem? hk Socket.Alive k'
  rw [hsame] at h
  exact Nat.add_right_cancel h

theorem change_error {s : Mt5CommandClient} {c : ℕ} {k : Socket} (message : Text)
    (hk : s.sockets[c]? = some k) (halive : k.Alive = true) :
    Change s ((s.setSocket c k.fail).onError message) 0 := by
  rw [onError, scheduleReconnect_eq]
  refine .ended rfl ?_ ?_ rfl rfl
  · show (s.sockets.set c k.fail).length = s.sockets.length
    exact List.length_set
  · exact alive_setSocket_ended hk halive rfl

theorem change_close {s : Mt5CommandClient} {c : ℕ} {k : Socket} (hk : s.sockets[c]? = some k)
    (hclosed : k.closed = false) :
    Change s ((s.setSocket c { k with closed := true }).onClose k) 0 := by
  have hlength : (s.sockets.set c { k with closed := true }).length = s.sockets.length :=
    List.length_set
  have hend : Socket.Alive { k with closed := true } = false := by simp [Socket.Alive]
  unfold onClose
  by_cases hfailed : k.connectFailed = true
  · -- 'error' came first: the socket is not alive, and its reconnect is scheduled
    rw [if_pos (by simp [hfailed])]
    exact .quiet rfl hlength
      (alive_setSocket_same hk (by simp [Socket.Alive, hfailed])) rfl fun h => h
  · have halive : k.Alive = true := by simp [Socket.Alive, hfailed, hclosed]
    cases hdestroyed : s.destroyed with
    | true =>
        rw [if_pos (by simp [setSocket, hdestroyed])]
        exact .ended rfl hlength (alive_setSocket_ended hk halive hend) (by simp [hdestroyed]; rfl)
          rfl
    | false =>
        rw [if_neg (by simp [setSocket, hdestroyed, hfailed]), scheduleReconnect_eq]
        exact .ended rfl hlength (alive_setSocket_ended hk halive hend) rfl rfl

theorem change_data {s s' : Mt5CommandClient} {c : ℕ} {chunk : Bytes}
    (h : s.onData c chunk = some s') : Change s s' 0 := by
  obtain ⟨calls, -, rfl⟩ := onData_eq_some h
  have hdeliver := s.alive_modify c
    (f := (·.deliver chunk (completeLines (s.buffered chunk)))) fun _ => rfl
  unfold dropOverflow
  split
  · refine .quiet rfl (by simp) ?_ rfl id
    rw [← hdeliver]
    apply countP_modify
    intro k
    rfl
  · exact .quiet rfl (by simp) hdeliver rfl id

theorem change_reconnect {s : Mt5CommandClient} (h : 0 < s.reconnects) :
    Change s { s with reconnects := s.reconnects - 1 }.connect 1 := by
  unfold connect
  by_cases hdead : s.destroyed = true
  · rw [if_pos hdead]
    exact .reconnected rfl (by simp [hdead]) (by simp [hdead, alive]) (Nat.sub_add_cancel h) rfl
  · rw [if_neg hdead]
    refine .reconnected rfl (by simp [hdead]) ?_ (Nat.sub_add_cancel h) rfl
    simp [hdead, alive, List.countP_append, Socket.Alive]

theorem change_destroy (s : Mt5CommandClient) : Change s s.destroy 0 := by
  unfold destroy
  cases s.sock with
  | none => exact .quiet rfl rfl rfl rfl fun _ => rfl
  | some c => exact .quiet rfl (by simp) (s.alive_modify c fun _ => rfl) rfl fun _ => rfl

/-- **The step lemma.** -/
theorem step_change {s s' : Mt5CommandClient} {e : Event} (h : s.step e = some s') :
    Change s s' e.fired := by
  cases e with
  | execute i =>
      obtain ⟨call, -, -, rfl⟩ := step_execute.mp h
      exact .quiet rfl (length_writeSock s _) (alive_writeSock s _) rfl id
  | connected c =>
      obtain ⟨k, hk, -, rfl⟩ := step_connected.mp h
      exact .quiet rfl List.length_set (alive_setSocket_same hk rfl) rfl id
  | error c message =>
      obtain ⟨k, hk, halive, rfl⟩ := step_error.mp h
      exact change_error message hk halive
  | data c chunk =>
      obtain ⟨k, -, -, hdata⟩ := step_data.mp h
      exact change_data hdata
  | close c =>
      obtain ⟨k, hk, hclosed, rfl⟩ := step_close.mp h
      exact change_close hk hclosed
  | reconnect =>
      obtain ⟨hpos, rfl⟩ := step_reconnect.mp h
      exact change_reconnect hpos
  | destroy =>
      obtain rfl := step_destroy.mp h
      exact change_destroy s
  | _ =>
      rw [step_onCalls rfl h]
      exact .of_same rfl rfl rfl

/-! ## Runs -/

/-- At most one socket is alive or one reconnect scheduled, and exactly one before `destroy`. It
is the invariant of a run; the number of sockets that have ended follows from it by counting. -/
structure OneConnecting (s : Mt5CommandClient) : Prop where
  atMost : s.alive + s.reconnects ≤ 1
  exact : s.destroyed = false → s.alive + s.reconnects = 1

theorem OneConnecting.step {s s' : Mt5CommandClient} {e : Event} (hs : s.OneConnecting)
    (h : s.step e = some s') : s'.OneConnecting := by
  obtain ⟨hle, heq⟩ := hs
  cases step_change h with
  | quiet _ _ halive hreconnects hdestroyed =>
      rw [← halive, ← hreconnects] at hle heq
      refine ⟨hle, fun hlive => heq ?_⟩
      by_contra hdead
      simp [hdestroyed (by simpa using hdead)] at hlive
  | ended _ _ halive hreconnects hdestroyed =>
      cases hdead : s.destroyed with
      | true => exact ⟨by simp [hdead] at hreconnects; omega, by simp [hdestroyed, hdead]⟩
      | false =>
          simp only [hdead, Bool.false_eq_true, if_false] at hreconnects
          have := heq hdead
          exact ⟨by omega, fun _ => by omega⟩
  | reconnected _ _ halive hreconnects hdestroyed =>
      cases hdead : s.destroyed with
      | true => exact ⟨by simp [hdead] at halive; omega, by simp [hdestroyed, hdead]⟩
      | false =>
          simp only [hdead, Bool.false_eq_true, if_false] at halive
          have := heq hdead
          exact ⟨by omega, fun _ => by omega⟩

theorem oneConnecting_initial : OneConnecting initial := ⟨by decide, fun _ => by decide⟩

/-- After `destroy` no socket is made. -/
theorem length_of_destroyed {s s' : Mt5CommandClient} {es : List Event} (hdead : s.destroyed = true)
    (hrun : run step s es = some s') :
    s'.destroyed = true ∧ s'.sockets.length = s.sockets.length := by
  have hstep : ∀ t e t', (t.destroyed = true ∧ t.sockets.length = s.sockets.length) →
      step t e = some t' → t'.destroyed = true ∧ t'.sockets.length = s.sockets.length := by
    rintro t e t' ⟨hdead, hlength⟩ h
    cases step_change h with
    | quiet _ hsame _ _ hdestroyed => exact ⟨hdestroyed hdead, hsame.trans hlength⟩
    | ended _ hsame _ _ hdestroyed => exact ⟨hdestroyed.trans hdead, hsame.trans hlength⟩
    | reconnected _ hsame _ _ hdestroyed =>
        refine ⟨hdestroyed.trans hdead, ?_⟩
        rw [hsame, if_pos hdead, Nat.add_zero, hlength]
  exact run_invariant hstep ⟨hdead, rfl⟩ hrun

/-- Before `destroy`, every reconnect timer that goes off makes a socket. -/
theorem length_of_run {s s' : Mt5CommandClient} {es : List Event} (hrun : run step s es = some s')
    (hlive : s'.destroyed = false) :
    s'.sockets.length = s.sockets.length + (es.map Event.fired).sum := by
  induction es generalizing s with
  | nil =>
      cases hrun
      simp
  | cons e es ih =>
      obtain ⟨t, ht, hrest⟩ := (run_cons step).mp hrun
      have hsome : ∀ u fs, run step u fs = some s' → u.destroyed = false := by
        intro u fs hu
        by_contra hdead
        have := (length_of_destroyed (by simpa using hdead) hu).1
        simp [hlive] at this
      have hs : s.destroyed = false := hsome s (e :: es) hrun
      rw [ih hrest, List.map_cons, List.sum_cons]
      cases step_change ht with
      | quiet hfired hlength => omega
      | ended hfired hlength => omega
      | reconnected hfired hlength =>
          simp only [hs, Bool.false_eq_true, if_false] at hlength
          omega

/-- **At every moment of every run** at most one socket is alive or reconnect
timer running, and exactly one before `destroy`; then the sockets that have ended
are as many as the reconnects scheduled so far, those that went off and those
that still run.  After `destroy` no socket is ever made. -/
theorem oneConnecting_of_run {es : List Event} {s : Mt5CommandClient}
    (hrun : run step initial es = some s) :
    s.alive + s.reconnects ≤ 1 ∧
      (s.destroyed = false → s.alive + s.reconnects = 1 ∧
        s.ended = (es.map Event.fired).sum + s.reconnects) ∧
      (s.destroyed = true → ∀ fs s', run step s fs = some s' →
        s'.sockets.length = s.sockets.length) := by
  have hone : s.OneConnecting :=
    run_invariant (fun _ _ _ ht h => OneConnecting.step ht h) oneConnecting_initial hrun
  refine ⟨hone.atMost, fun hlive => ⟨hone.exact hlive, ?_⟩,
    fun hdead fs s' h => (length_of_destroyed hdead h).2⟩
  have hlength : s.sockets.length = 1 + (es.map Event.fired).sum := length_of_run hrun hlive
  have hsum := s.alive_add_ended
  have := hone.exact hlive
  omega

/-- MQL5 does not listen yet: the first socket fails and closes, a second one is
made, and it comes up. -/
def freshDeploy : List Event := [.error 0 "ECONNREFUSED", .close 0, .reconnect, .connected 1]

/-- The state after these steps. -/
def afterFreshDeploy : Mt5CommandClient :=
  { sockets := [{ connectFailed := true, destroyed := true, closed := true },
      { connected := true }]
    sock := some 1 }

theorem freshDeploy_oneConnecting : ∃ s, run step initial freshDeploy = some s ∧
    s.alive + s.reconnects = 1 ∧ s.ended = 1 := by
  have hrun : run step initial freshDeploy = some afterFreshDeploy := rfl
  obtain ⟨-, hlive, -⟩ := oneConnecting_of_run hrun
  exact ⟨_, hrun, (hlive rfl).1, (hlive rfl).2⟩

end Mt5CommandClient

end AkronSlot.Slot
