import AkronSlot.Slot.TcpServer

/-!
# Which connection the TCP server holds

`this.sock` is meant to be the connection accepted last, for as long as it
lasts.  The handlers of a connection that has been replaced still run once: its
'close' arrives after the next connection has been accepted, and `onClose` does
not ask whose close it is.

## Promise and condition

Two comments of the source say what the field is for: a new connection takes the place of the
previous one, and a close of that one does not matter any more. `KeepsCurrent` is this as a
condition on one step, for the field, for `isConnected` and for the commands that are pending.
`onClose` clears the field whoever closes, so it holds exactly as long as no close comes while
another connection still has its close to come (`ClosesAlone`).

## Main Definitions

* `Current` — the connection accepted last among those without a delivered close
* `Tracks`, `SparesCurrent`, `KeepsCurrent` — what `this.sock` is to be
* `ClosesAlone` — a close is delivered only when no other one is outstanding

## Main Results

* `keepsCurrent_iff`
-/

namespace AkronSlot.Slot

open Wire Systems

namespace Mt5TcpServer

/-! ## The current connection -/

/-- The close of a connection has not been delivered. -/
def Unclosed (s : Mt5TcpServer) (i : ℕ) : Prop := ∃ k, s.conns[i]? = some k ∧ k.closed = false

/-- The connection accepted last among those whose close has not been delivered. It need not be
open: Node emits 'close' some time after a socket is destroyed. -/
def Current (s : Mt5TcpServer) (i : ℕ) : Prop := s.Unclosed i ∧ ∀ j, s.Unclosed j → j ≤ i

/-- The socket of a connection is open. -/
def Open (s : Mt5TcpServer) (i : ℕ) : Prop := ∃ k, s.conns[i]? = some k ∧ k.destroyed = false

/-- A later connection has been accepted. -/
def Replaced (s : Mt5TcpServer) (i : ℕ) : Prop := i + 1 < s.conns.length

/-- `this.sock` is the current connection, and `isConnected` says so while that connection is
open. It speaks of a state; what a step may do is `KeepsCurrent`. -/
structure Tracks (s : Mt5TcpServer) : Prop where
  sock_iff : ∀ i, s.sock = some i ↔ s.Current i
  connected : ∀ i, s.Current i → s.Open i → s.isConnected = true

/-- The close of a replaced connection neither clears `this.sock` nor takes away
a command pending on the connection in it. -/
def SparesCurrent (s : Mt5TcpServer) (e : Event) (s' : Mt5TcpServer) : Prop :=
  ∀ i, e = .close i → s.Replaced i → s'.sock = s.sock ∧
    ∀ entry ∈ s.commands.pending, s.sock = some entry.2.conn → entry ∈ s'.commands.pending

/-- What a step is to do with the current connection: `this.sock` is right after it, and the close
of a connection that has been replaced leaves `this.sock` and its commands alone. -/
def KeepsCurrent (s : Mt5TcpServer) (e : Event) : Prop :=
  ∀ s', s.step e = some s' → s'.Tracks ∧ SparesCurrent s e s'

/-- A close is delivered only when no other one is outstanding: the connection that closes is the
only one whose close has not come. -/
def ClosesAlone (s : Mt5TcpServer) (e : Event) : Prop :=
  ∀ i, e = .close i → ∀ j, s.Unclosed j → j = i

theorem Unclosed.lt {s : Mt5TcpServer} {i : ℕ} (h : s.Unclosed i) : i < s.conns.length := by
  obtain ⟨k, hk, -⟩ := h
  exact (List.getElem?_eq_some_iff.mp hk).1

theorem Current.unique {s : Mt5TcpServer} {i j : ℕ} (hi : s.Current i) (hj : s.Current j) :
    i = j :=
  le_antisymm (hj.2 i hi.1) (hi.2 j hj.1)

/-- Among outstanding closes there is a last one. -/
theorem exists_current {s : Mt5TcpServer} {i : ℕ} (h : s.Unclosed i) : ∃ j, s.Current j := by
  classical
  refine ⟨Nat.findGreatest s.Unclosed s.conns.length, ?_, fun j hj => ?_⟩
  · exact Nat.findGreatest_spec h.lt.le h
  · exact Nat.le_findGreatest hj.lt.le hj

/-- A server whose `this.sock` is the current connection knows that it is
connected. -/
theorem tracks_of_sock_iff {s : Mt5TcpServer} (h : ∀ i, s.sock = some i ↔ s.Current i) :
    s.Tracks where
  sock_iff := h
  connected i hcurrent hopen := by
    obtain ⟨k, hk, hlive⟩ := hopen
    simp [isConnected, (h i).mpr hcurrent, hk, hlive]

/-! ## What a step does to the closes -/

/-- A connection that is there stays unclosed unless its close is delivered. -/
theorem Effect.unclosed_iff {s s' : Mt5TcpServer} {e : Event} (h : Effect s e s') {i : ℕ}
    (hi : i < s.conns.length) : s'.Unclosed i ↔ s.Unclosed i ∧ e ≠ .close i := by
  have hget : s.conns[i]? = some s.conns[i] := List.getElem?_eq_getElem hi
  simp [Unclosed, h.conns i hi, hget, connAfter_closed]

/-- No step but `close` closes anything. -/
theorem Effect.current_iff {s s' : Mt5TcpServer} {e : Event} (h : Effect s e s')
    (hconnect : e ≠ .connect) (hclose : ∀ i, e ≠ .close i) (i : ℕ) :
    s'.Current i ↔ s.Current i := by
  have hlen : s'.conns.length = s.conns.length := by rw [h.length, if_neg hconnect]
  have hsame : ∀ j, s'.Unclosed j ↔ s.Unclosed j := by
    intro j
    constructor
    · intro hj
      exact ((h.unclosed_iff (hlen ▸ hj.lt)).mp hj).1
    · intro hj
      exact (h.unclosed_iff hj.lt).mpr ⟨hj, hclose j⟩
  simp only [Current, hsame]

/-- After `connect` the new connection is the current one. -/
theorem current_connect {s s' : Mt5TcpServer} (h : s.step .connect = some s') :
    s'.Current s.conns.length := by
  have heffect := step_effect h
  refine ⟨⟨{}, step_new h, rfl⟩, fun j hj => ?_⟩
  have hlen : s'.conns.length = s.conns.length + 1 := heffect.length
  have := hj.lt
  omega

/-- After a close the other outstanding ones are still outstanding. -/
theorem unclosed_close {s s' : Mt5TcpServer} {c : ℕ} (h : s.step (.close c) = some s') (j : ℕ) :
    s'.Unclosed j ↔ s.Unclosed j ∧ j ≠ c := by
  have heffect := step_effect h
  have hlen : s'.conns.length = s.conns.length := heffect.length
  have hne : (Event.close c ≠ .close j) ↔ j ≠ c := by simp [eq_comm]
  constructor
  · intro hj
    simpa [hne] using (heffect.unclosed_iff (hlen ▸ hj.lt)).mp hj
  · rintro ⟨hj, hjc⟩
    exact (heffect.unclosed_iff hj.lt).mpr ⟨hj, hne.mpr hjc⟩

/-! ## Runs -/

/-- What holds as long as `this.sock` is kept: it is the current connection, and
the one accepted last. -/
structure Holds (s : Mt5TcpServer) : Prop where
  tracks : s.Tracks
  newest : ∀ i, s.sock = some i → i + 1 = s.conns.length

/-- After a close the server holds nothing, which is right when nothing else is
outstanding. -/
theorem tracks_close_iff {s s' : Mt5TcpServer} {c : ℕ} (h : s.step (.close c) = some s') :
    s'.Tracks ↔ ∀ j, s.Unclosed j → j = c := by
  have hsock : s'.sock = none := (step_effect h).sock
  constructor
  · intro htracks j hj
    by_contra hne
    obtain ⟨i, hi⟩ := exists_current ((unclosed_close h j).mpr ⟨hj, hne⟩)
    have hheld := (htracks.sock_iff i).mpr hi
    simp [hsock] at hheld
  · intro honly
    refine tracks_of_sock_iff fun i => ?_
    rw [hsock]
    refine iff_of_false (by simp) fun hi => ?_
    obtain ⟨hj, hne⟩ := (unclosed_close h i).mp hi.1
    exact hne (honly i hj)

/-- Steps that deliver no close keep `this.sock` right. -/
theorem holds_step_of_not_close {s s' : Mt5TcpServer} {e : Event} (hs : s.Holds)
    (h : s.step e = some s') (hclose : ∀ i, e ≠ .close i) : s'.Holds := by
  have heffect := step_effect h
  by_cases hconnect : e = .connect
  · subst hconnect
    have hsock : s'.sock = some s.conns.length := heffect.sock
    have hlen : s'.conns.length = s.conns.length + 1 := heffect.length
    have hcurrent := current_connect h
    constructor
    · refine tracks_of_sock_iff fun i => ?_
      rw [hsock, Option.some.injEq]
      exact ⟨fun hi => hi ▸ hcurrent, fun hi => hcurrent.unique hi⟩
    · intro i hi
      rw [hsock, Option.some.injEq] at hi
      omega
  · have hsock : s'.sock = s.sock := by
      rw [heffect.sock]
      cases e with
      | connect => exact absurd rfl hconnect
      | close i => exact absurd rfl (hclose i)
      | _ => rfl
    have hlen : s'.conns.length = s.conns.length := by rw [heffect.length, if_neg hconnect]
    constructor
    · refine tracks_of_sock_iff fun i => ?_
      rw [hsock, heffect.current_iff hconnect hclose]
      exact hs.tracks.sock_iff i
    · rw [hsock, hlen]
      exact hs.newest

/-- Steps that deliver a close alone keep `this.sock` right. -/
theorem holds_step {s s' : Mt5TcpServer} {e : Event} (hs : s.Holds) (halone : s.ClosesAlone e)
    (h : s.step e = some s') : s'.Holds := by
  by_cases hclose : ∃ c, e = .close c
  · obtain ⟨c, rfl⟩ := hclose
    have hsock : s'.sock = none := (step_effect h).sock
    exact ⟨(tracks_close_iff h).mpr (halone c rfl), fun i hi => by simp [hsock] at hi⟩
  · exact holds_step_of_not_close hs h fun i hi => hclose ⟨i, hi⟩

theorem holds_initial : Holds {} where
  tracks := tracks_of_sock_iff fun i => by simp [Current, Unclosed]
  newest i hi := by simp at hi

/-- **The step lemma**: a step keeps `this.sock` right exactly if it delivers no
close while another one is outstanding. -/
theorem keepsCurrent_step_iff {s s' : Mt5TcpServer} {e : Event} (hs : s.Holds)
    (h : s.step e = some s') : s.KeepsCurrent e ↔ s.ClosesAlone e := by
  have honly : ∀ t, s.step e = some t → t = s' := fun t ht => Option.some.inj (ht.symm.trans h)
  have hkeeps : s.KeepsCurrent e ↔ s'.Tracks ∧ SparesCurrent s e s' :=
    ⟨fun hk => hk s' h, fun hk t ht => honly t ht ▸ hk⟩
  rw [hkeeps]
  by_cases hclose : ∃ c, e = .close c
  · obtain ⟨c, rfl⟩ := hclose
    rw [tracks_close_iff h]
    constructor
    · rintro ⟨halone, -⟩ i hi j hj
      obtain rfl : c = i := by simpa using hi
      exact halone j hj
    · intro halone
      refine ⟨halone c rfl, fun i hi hreplaced => ?_⟩
      -- a connection whose close is the last outstanding one is in `this.sock`
      obtain rfl : c = i := by simpa using hi
      obtain ⟨k, hk, -, hclosed, -⟩ := step_close.mp h
      have hcurrent : s.Current c :=
        ⟨⟨k, hk, hclosed⟩, fun j hj => (halone c rfl j hj).le⟩
      have hnewest := hs.newest c ((hs.tracks.sock_iff c).mpr hcurrent)
      exact absurd hnewest (Nat.ne_of_lt hreplaced)
  · have hno : ∀ i, e ≠ .close i := fun i hi => hclose ⟨i, hi⟩
    have hspares : SparesCurrent s e s' := fun i hi => absurd hi (hno i)
    have htracks := (holds_step_of_not_close hs h hno).tracks
    exact iff_of_true ⟨htracks, hspares⟩ fun i hi => absurd hi (hno i)

/-- **`this.sock` is kept right through a whole run exactly if no close is delivered while another
one is outstanding.** The handler of a close clears `this.sock` without asking whose close it is.
-/
theorem keepsCurrent_iff {es : List Event} {s : Mt5TcpServer} (h : run step {} es = some s) :
    Along step KeepsCurrent {} es ↔ Along step ClosesAlone {} es := by
  have hiff : ∀ s e s', Holds s → step s e = some s' → (KeepsCurrent s e ↔ ClosesAlone s e) :=
    fun _ _ _ hs ht => keepsCurrent_step_iff hs ht
  have hstep : ∀ s e s', Holds s → ClosesAlone s e → step s e = some s' → Holds s' :=
    fun _ _ _ hs halone ht => holds_step hs halone ht
  exact along_congr hiff hstep holds_initial h

/-- A publisher that reconnects after its close has been delivered. -/
def reconnects : List Event := [.connect, .finish 0, .hangUp 0, .close 0, .connect]

theorem reconnects_keepsCurrent :
    (∃ s, run step {} reconnects = some s) ∧ Along step KeepsCurrent {} reconnects := by
  have hrun : run step {} reconnects = some
      { conns := [⟨[], [], [], true, true, true⟩, {}], sock := some 1 } := rfl
  refine ⟨⟨_, hrun⟩, (keepsCurrent_iff hrun).mpr ?_⟩
  have hother : ∀ (s : Mt5TcpServer) (e : Event), (∀ i, e ≠ .close i) → s.ClosesAlone e :=
    fun s e he i hi => absurd hi (he i)
  rw [reconnects, along_cons _ rfl, along_cons _ rfl, along_cons _ rfl, along_cons _ rfl,
    along_cons _ rfl]
  refine ⟨hother _ _ (by simp), hother _ _ (by simp), hother _ _ (by simp), ?_,
    hother _ _ (by simp), trivial⟩
  intro i hi j hj
  obtain rfl : 0 = i := by simpa using hi
  exact Nat.lt_one_iff.mp hj.lt

/-- The second publisher connects, a command goes to it, and then the close of the
first connection arrives. -/
def replacedClose : List Event := [.connect, .connect, .dispatchCommand "c1", .close 0]

/-- **The late close disconnects the server from the connection that is open**,
and the command on it fails. -/
theorem replacedClose_disconnects : ∃ s, run step {} replacedClose = some s ∧
    s.Current 1 ∧ s.Open 1 ∧ s.sock = none ∧ s.isConnected = false ∧
    s.commands.pending = [] ∧
    s.commands.settled = [(0, .ok ⟨false, none, some "mt5_disconnected".toList⟩)] ∧
    ¬ Along step KeepsCurrent {} replacedClose := by
  refine ⟨_, rfl, ?hcurrent, ⟨{}, rfl, rfl⟩, rfl, rfl, rfl, rfl, ?_⟩
  case hcurrent => exact ⟨⟨{}, rfl, rfl⟩, fun j hj => Nat.le_of_lt_succ hj.lt⟩
  rw [replacedClose, along_cons _ rfl, along_cons _ rfl, along_cons _ rfl]
  rintro ⟨-, -, -, hkeeps, -⟩
  obtain ⟨htracks, -⟩ := hkeeps _ rfl
  have hheld := (htracks.sock_iff 1).mpr
    ⟨⟨{}, rfl, rfl⟩, fun j hj => Nat.le_of_lt_succ hj.lt⟩
  exact absurd hheld (by simp [onClose])

end Mt5TcpServer

end AkronSlot.Slot
