import AkronSlot.Slot.PendingCalls

/-!
# What the command client has written

Only the executor of a call writes, and a call has one.  So what all the sockets of the
client have been given is, in some order, the frames of the calls that count as written:
no frame twice, none on two sockets, and none left out.

## Counting by permutation

A frame may be written to any socket, in an order that has nothing to do with that of the calls.
What is invariant is the multiset: all frames on all sockets, taken together, are a permutation
of the frames of the calls that were written. As the ids are distinct, the frames are, and a
permutation of distinct things gives each of them one place (`frameAt_unique`). The keys are
what a step leaves alone of a call, so that five of the six handlers drop out at once.

## Main Definitions

* `Call.key`, `Calls.keys` — what no step but the executor changes of a call
* `Mt5CommandClient.Writes` — the invariant

## Main Results

* `writes_of_run`
* `exists_call_of_frameAt`, `exists_frameAt_of_call`, `frameAt_unique`
-/

namespace AkronSlot.Slot

open Wire Systems

/-! ## One entry of a list changes -/

section Modify

variable {α β : Type*} {l : List α} {i : ℕ} {f : α → α}

theorem map_modify_same {g : α → β} (h : ∀ a, g (f a) = g a) : (l.modify i f).map g = l.map g := by
  induction l generalizing i with
  | nil => rw [List.modify_nil]
  | cons a l ih =>
      cases i with
      | zero => rw [List.modify_zero_cons, List.map_cons, List.map_cons, h a]
      | succ i => rw [List.modify_succ_cons, List.map_cons, List.map_cons, ih]

/-- An entry that brings something more brings it to the list. -/
theorem flatMap_modify_perm {g : α → List β} {more : List β} {a : α} (ha : l[i]? = some a)
    (h : g (f a) = g a ++ more) : ((l.modify i f).flatMap g).Perm (l.flatMap g ++ more) := by
  induction l generalizing i with
  | nil => cases ha
  | cons b l ih =>
      cases i with
      | zero =>
          obtain rfl : b = a := by simpa using ha
          rw [List.modify_zero_cons, List.flatMap_cons, List.flatMap_cons, h, List.append_assoc,
            List.append_assoc]
          exact List.perm_append_comm.append_left _
      | succ i =>
          rw [List.modify_succ_cons, List.flatMap_cons, List.flatMap_cons, List.append_assoc]
          exact (ih (by simpa using ha)).append_left _

end Modify

/-! ## The calls -/

/-- The id of a call, its frame, and whether the frame was passed to `write`. -/
def Call.key (c : Call) : Uuid × Text × Bool := (c.id, c.frame, c.written)

/-- The frame of a call is that of its command: some action and some payload under its own id. -/
def Printed (key : Uuid × Text × Bool) : Prop :=
  ∃ action payload, key.2.1 = commandFrame key.1 action payload ++ ['\n']

/-- The frame of a call that was written. -/
def keyFrame (key : Uuid × Text × Bool) : List Text := if key.2.2 then [key.2.1] else []

theorem mem_keyFrame {key : Uuid × Text × Bool} {frame : Text} (h : frame ∈ keyFrame key) :
    frame = key.2.1 := by
  unfold keyFrame at h
  split at h
  · exact List.mem_singleton.mp h
  · cases h

/-- A frame has one id. -/
theorem commandFrame_id {id id' : Uuid} {action action' : Text} {payload payload' : Json}
    (h : commandFrame id action payload = commandFrame id' action' payload') :
    id.text = id'.text := by
  have hparse := congrArg Json.parse h
  rw [commandFrame, commandFrame, Json.parse_print, Json.parse_print] at hparse
  simp only [Option.some.injEq, Json.obj.injEq, List.cons.injEq, Prod.mk.injEq, Json.str.injEq,
    true_and, and_true] at hparse
  exact hparse.1

namespace Calls

variable {m : Calls}

/-- The keys of the calls, oldest first. -/
def keys (m : Calls) : List (Uuid × Text × Bool) := m.made.map Call.key

theorem keys_update (m : Calls) (i : ℕ) {f : Call → Call} (h : ∀ c, (f c).key = c.key) :
    (m.update i f).keys = m.keys :=
  map_modify_same h

theorem keys_delete (m : Calls) (id : Text) : (m.delete id).keys = m.keys := rfl

theorem keys_failAll (m : Calls) (message : Text) : (m.failAll message).keys = m.keys := by
  have hall : ∀ (entries : List (Text × ℕ)) (m : Calls),
      (entries.foldl (fun m e => m.update e.2 (·.reject message)) m).keys = m.keys := by
    intro entries
    induction entries with
    | nil => exact fun m => rfl
    | cons e entries ih =>
        intro m
        rw [List.foldl_cons, ih]
        exact keys_update m e.2 fun c => rfl
  exact hall m.pending m

theorem keys_dispatchFrame {m' : Calls} {frame : Text} (h : m.dispatchFrame frame = some m') :
    m'.keys = m.keys := by
  unfold dispatchFrame at h
  split at h
  · rw [Option.some.inj h]
  · split at h
    · rw [Option.some.inj h]
    · obtain ⟨-, h⟩ := Option.ite_none_right_eq_some.mp h
      rw [← Option.some.inj h, ← keys_delete m]
      exact keys_update _ _ fun c => rfl

theorem keys_dispatchFrames {frames : List Text} {m' : Calls}
    (h : frames.foldlM Calls.dispatchFrame m = some m') : m'.keys = m.keys := by
  induction frames generalizing m with
  | nil =>
      obtain rfl : m = m' := by simpa using h
      rfl
  | cons frame frames ih =>
      rw [List.foldlM_cons] at h
      obtain ⟨t, ht, hrest⟩ := Option.bind_eq_some_iff.mp h
      rw [ih hrest, keys_dispatchFrame ht]

theorem keys_wrote (m : Calls) (i : ℕ) (c : Call) (error : Option Text) :
    (m.wrote i c error).keys = m.keys := by
  unfold wrote
  rw [keys_update _ _ fun c => ?_]
  · split <;> rfl
  · cases error <;> rfl

/-- A call whose promise is made without a socket is not written. -/
theorem keys_execute_none (m : Calls) (i : ℕ) (c : Call) : (m.execute i c false).keys = m.keys :=
  keys_update _ _ fun _ => rfl

theorem keys_execute_some (m : Calls) (i : ℕ) (c : Call) :
    (m.execute i c true).keys = m.keys.modify i fun key => (key.1, key.2.1, true) := by
  have hmodify : ∀ (l : List Call) (i : ℕ), (l.modify i (·.execute true)).map Call.key =
      (l.map Call.key).modify i fun key => (key.1, key.2.1, true) := by
    intro l
    induction l with
    | nil => exact fun i => by rw [List.modify_nil, List.map_nil, List.modify_nil]
    | cons d l ih =>
        intro i
        cases i with
        | zero => rfl
        | succ i => rw [List.modify_succ_cons, List.map_cons, ih, List.map_cons,
            List.modify_succ_cons]
  exact hmodify m.made i

theorem keys_dispatch (m : Calls) (id : Uuid) (frame : Text) (destroyed : Bool) :
    (m.dispatch id frame destroyed).keys = m.keys ++ [(id, frame, false)] := by
  rw [keys, dispatch, List.map_append]
  cases destroyed <;> rfl

/-- The ids of the calls and their frames, oldest first. -/
def names (m : Calls) : List (Uuid × Text) := m.keys.map fun key => (key.1, key.2.1)

theorem names_of_keys {m' : Calls} (h : m'.keys = m.keys) : m'.names = m.names := by
  rw [names, names, h]

end Calls

/-! ## The invariant -/

namespace Mt5CommandClient

/-- All that the sockets were given, socket by socket. -/
def writtenFrames (s : Mt5CommandClient) : List Text := s.sockets.flatMap Socket.written

/-- `printed`: a call has the frame of its command.  `distinct`: no id is used twice.
`held`: the socket in hand is one of those made.  `once`: what was written are the frames of
the calls that were. -/
structure Writes (s : Mt5CommandClient) : Prop where
  printed : ∀ key ∈ s.calls.keys, Printed key
  distinct : (s.calls.keys.map (·.1.text)).Nodup
  held : ∀ c, s.sock = some c → c < s.sockets.length
  once : s.writtenFrames.Perm (s.calls.keys.flatMap keyFrame)

theorem writes_initial : Writes initial where
  printed key hkey := by cases hkey
  distinct := List.nodup_nil
  held c hc := by
    obtain rfl : 0 = c := by simpa [initial, connect] using hc
    decide
  once := .refl _

section Step

variable {s s' : Mt5CommandClient}

/-- A step that writes nothing. -/
theorem Writes.keep (h : s.Writes) (hkeys : s'.calls.keys = s.calls.keys)
    (hwritten : s'.sockets.map Socket.written = s.sockets.map Socket.written)
    (hsock : s'.sock = s.sock ∨ s'.sock = none) : s'.Writes where
  printed := hkeys ▸ h.printed
  distinct := hkeys ▸ h.distinct
  held c hc := by
    have hlength : s'.sockets.length = s.sockets.length := by
      simpa using congrArg List.length hwritten
    rcases hsock with hsock | hsock
    · rw [hlength]
      exact h.held c (hsock ▸ hc)
    · rw [hsock] at hc
      cases hc
  once := by
    have hframes : s'.writtenFrames = s.writtenFrames := by
      rw [writtenFrames, writtenFrames, List.flatMap_def, List.flatMap_def, hwritten]
    rw [hframes, hkeys]
    exact h.once

/-- A new socket has been given nothing. -/
theorem Writes.connect (h : s.Writes) : s.connect.Writes := by
  unfold Mt5CommandClient.connect
  split
  · exact h
  · refine ⟨h.printed, h.distinct, fun c hc => ?_, ?_⟩
    · obtain rfl : s.sockets.length = c := by simpa using hc
      simp
    · have hnone : [({ found := s.recvBuf } : Socket)].flatMap Socket.written = [] := rfl
      show (List.flatMap _ (s.sockets ++ _)).Perm _
      rw [List.flatMap_append, hnone, List.append_nil]
      exact h.once

theorem Writes.dispatch (h : s.Writes) {id : Uuid}
    (hnew : ∀ call ∈ s.calls.made, call.id.text ≠ id.text) (action : Text) (payload : Json)
    (destroyed : Bool) :
    Writes { s with calls :=
      s.calls.dispatch id (commandFrame id action payload ++ ['\n']) destroyed } := by
  refine ⟨?_, ?_, h.held, ?_⟩
  · rw [Calls.keys_dispatch, List.forall_mem_append, List.forall_mem_singleton]
    exact ⟨h.printed, action, payload, rfl⟩
  · rw [Calls.keys_dispatch, List.map_append, List.map_singleton, List.nodup_append_comm,
      List.singleton_append, List.nodup_cons]
    refine ⟨fun hmem => ?_, h.distinct⟩
    obtain ⟨key, hkey, hid⟩ := List.mem_map.mp hmem
    obtain ⟨call, hcall, rfl⟩ := List.mem_map.mp hkey
    exact hnew call hcall hid
  · have hnone : [(id, commandFrame id action payload ++ ['\n'], false)].flatMap keyFrame = [] :=
      rfl
    rw [Calls.keys_dispatch, List.flatMap_append, hnone, List.append_nil]
    exact h.once

/-- The executor of a call that was not written, with and without a socket. -/
theorem Writes.execute (h : s.Writes) {i : ℕ} {call : Call} (hcall : s.calls.made[i]? = some call)
    (hidle : call.written = false) :
    Writes { s with
      sockets := s.writeSock call.frame
      calls := s.calls.execute i call s.sock.isSome } := by
  cases hsock : s.sock with
  | none =>
      refine h.keep (Calls.keys_execute_none _ _ _) ?_ (.inr rfl)
      rw [writeSock, hsock]
  | some c =>
      have hkey : s.calls.keys[i]? = some (call.id, call.frame, false) := by
        rw [Calls.keys, List.getElem?_map, hcall, Option.map_some, Call.key, hidle]
      obtain ⟨k, hk⟩ : ∃ k, s.sockets[c]? = some k :=
        ⟨_, List.getElem?_eq_getElem (h.held c hsock)⟩
      have hpart : ∀ {β : Type} (g : Uuid × Text × Bool → β),
          (∀ key, g (key.1, key.2.1, true) = g key) →
          (s.calls.execute i call true).keys.map g = s.calls.keys.map g := by
        intro β g hg
        rw [Calls.keys_execute_some]
        exact map_modify_same hg
      refine ⟨?_, ?_, ?_, ?_⟩
      · have hall : ∀ p ∈ s.calls.keys.map Printed, p := List.forall_mem_map.mpr h.printed
        rw [← hpart Printed fun _ => rfl] at hall
        exact fun key hkey => hall (Printed key) (List.mem_map_of_mem hkey)
      · show ((s.calls.execute i call true).keys.map _).Nodup
        rw [hpart (·.1.text) fun _ => rfl]
        exact h.distinct
      · intro d hd
        show d < (s.writeSock call.frame).length
        rw [writeSock, hsock, List.length_modify]
        exact h.held d (hsock.trans hd)
      · show ((s.writeSock call.frame).flatMap Socket.written).Perm
          ((s.calls.execute i call true).keys.flatMap keyFrame)
        rw [writeSock, hsock, Calls.keys_execute_some]
        have hmore : (s.writtenFrames ++ [call.frame]).Perm
            (s.calls.keys.flatMap keyFrame ++ [call.frame]) := h.once.append_right _
        exact ((flatMap_modify_perm hk rfl).trans hmore).trans (flatMap_modify_perm hkey rfl).symm

/-- A socket changes and nothing is written to it. -/
theorem written_setSocket {c : ℕ} {k k' : Socket} (hk : s.sockets[c]? = some k)
    (h : k'.written = k.written) :
    (s.setSocket c k').sockets.map Socket.written = s.sockets.map Socket.written := by
  show (s.sockets.set c k').map Socket.written = _
  rw [List.map_set, h]
  refine List.ext_getElem? fun i => ?_
  rw [List.getElem?_set']
  by_cases hi : c = i
  · subst hi
    rw [if_pos rfl, List.getElem?_map, hk]
    rfl
  · rw [if_neg hi]

/-- **The step lemma.** -/
theorem writes_step {e : Event} (ht : s.calls.Tracked) (h : s.Writes)
    (hstep : s.step e = some s') : s'.Writes := by
  cases e with
  | dispatch id action payload =>
      obtain ⟨hnew, rfl⟩ := step_dispatch.mp hstep
      exact h.dispatch hnew action payload s.destroyed
  | ensured i =>
      obtain ⟨c, -, -, rfl⟩ := step_ensured.mp hstep
      exact h.keep (Calls.keys_update _ _ fun _ => rfl) rfl (.inl rfl)
  | gaveUp i =>
      obtain ⟨c, -, -, rfl⟩ := step_gaveUp.mp hstep
      exact h.keep (Calls.keys_update _ _ fun _ => rfl) rfl (.inl rfl)
  | execute i =>
      obtain ⟨c, hc, hstage, rfl⟩ := step_execute.mp hstep
      -- the executor runs once, so the frame is not out yet
      exact h.execute hc ((ht.lawful_at hc).idle (by simp [hstage])).2
  | timeout i =>
      obtain ⟨c, -, -, rfl⟩ := step_timeout.mp hstep
      exact h.keep (Calls.keys_update _ _ fun _ => rfl) rfl (.inl rfl)
  | wrote i error =>
      obtain ⟨c, -, -, rfl⟩ := step_wrote.mp hstep
      exact h.keep (Calls.keys_wrote _ _ _ _) rfl (.inl rfl)
  | connected c =>
      obtain ⟨k, hk, -, rfl⟩ := step_connected.mp hstep
      exact h.keep rfl (written_setSocket hk rfl) (.inl rfl)
  | error c message =>
      obtain ⟨k, hk, -, rfl⟩ := step_error.mp hstep
      refine h.keep ?_ ?_ (.inr ?_)
      · rw [onError, calls_scheduleReconnect]
        exact Calls.keys_failAll _ _
      · rw [onError, sockets_scheduleReconnect]
        exact written_setSocket hk rfl
      · unfold onError scheduleReconnect
        split <;> rfl
  | data c chunk =>
      obtain ⟨k, hk, -, hdata⟩ := step_data.mp hstep
      obtain ⟨calls, hcalls, rfl⟩ := onData_eq_some hdata
      have hdeliver : ∀ frames, (s.sockets.modify c (·.deliver chunk frames)).map Socket.written =
          s.sockets.map Socket.written := fun frames => map_modify_same fun _ => rfl
      have hkeys := Calls.keys_dispatchFrames hcalls
      unfold dropOverflow
      split
      · refine h.keep hkeys ?_ (.inl rfl)
        rw [← hdeliver]
        exact map_modify_same fun _ => rfl
      · exact h.keep hkeys (hdeliver _) (.inl rfl)
  | close c =>
      obtain ⟨k, hk, -, rfl⟩ := step_close.mp hstep
      refine h.keep ?_ ?_ ?_
      · rw [calls_onClose]
        exact Calls.keys_failAll _ _
      · rw [sockets_onClose]
        exact written_setSocket hk rfl
      · unfold onClose scheduleReconnect
        split
        · exact .inl rfl
        · split <;> exact .inr rfl
  | reconnect =>
      obtain ⟨-, rfl⟩ := step_reconnect.mp hstep
      have hfired : Writes { s with reconnects := s.reconnects - 1 } := h.keep rfl rfl (.inl rfl)
      exact hfired.connect
  | destroy =>
      obtain rfl := step_destroy.mp hstep
      refine h.keep (Calls.keys_failAll _ _) ?_ (.inr rfl)
      unfold destroy
      cases s.sock with
      | none => rfl
      | some c => exact map_modify_same fun _ => rfl

/-- The call that an event makes. -/
def Event.name? : Event → Option (Uuid × Text)
  | .dispatch id action payload => some (id, commandFrame id action payload ++ ['\n'])
  | _ => none

/-- **Only `dispatch` makes a call.** -/
theorem names_step {e : Event} (hstep : s.step e = some s') :
    s'.calls.names = s.calls.names ++ e.name?.toList := by
  have hkeep : s'.calls.keys = s.calls.keys → e.name? = none →
      s'.calls.names = s.calls.names ++ e.name?.toList := by
    intro hkeys hnone
    rw [hnone, Option.toList_none, List.append_nil, Calls.names_of_keys hkeys]
  cases e with
  | dispatch id action payload =>
      obtain ⟨-, rfl⟩ := step_dispatch.mp hstep
      show (s.calls.dispatch _ _ _).names = _
      rw [Calls.names, Calls.keys_dispatch, List.map_append]
      rfl
  | ensured i =>
      obtain ⟨c, -, -, rfl⟩ := step_ensured.mp hstep
      exact hkeep (Calls.keys_update _ _ fun _ => rfl) rfl
  | gaveUp i =>
      obtain ⟨c, -, -, rfl⟩ := step_gaveUp.mp hstep
      exact hkeep (Calls.keys_update _ _ fun _ => rfl) rfl
  | execute i =>
      obtain ⟨c, hc, -, rfl⟩ := step_execute.mp hstep
      have hnone : (Event.execute i).name? = none := rfl
      rw [hnone, Option.toList_none, List.append_nil]
      show (s.calls.execute i c s.sock.isSome).names = _
      cases s.sock with
      | none => exact Calls.names_of_keys (Calls.keys_execute_none _ _ _)
      | some _ =>
          rw [Calls.names, Option.isSome_some, Calls.keys_execute_some]
          exact map_modify_same fun _ => rfl
  | timeout i =>
      obtain ⟨c, -, -, rfl⟩ := step_timeout.mp hstep
      exact hkeep (Calls.keys_update _ _ fun _ => rfl) rfl
  | wrote i error =>
      obtain ⟨c, -, -, rfl⟩ := step_wrote.mp hstep
      exact hkeep (Calls.keys_wrote _ _ _ _) rfl
  | connected c =>
      obtain ⟨k, -, -, rfl⟩ := step_connected.mp hstep
      exact hkeep rfl rfl
  | error c message =>
      obtain ⟨k, -, -, rfl⟩ := step_error.mp hstep
      refine hkeep ?_ rfl
      rw [onError, calls_scheduleReconnect]
      exact Calls.keys_failAll _ _
  | data c chunk =>
      obtain ⟨k, -, -, hdata⟩ := step_data.mp hstep
      obtain ⟨calls, hcalls, rfl⟩ := onData_eq_some hdata
      refine hkeep ?_ rfl
      unfold dropOverflow
      split <;> exact Calls.keys_dispatchFrames hcalls
  | close c =>
      obtain ⟨k, -, -, rfl⟩ := step_close.mp hstep
      refine hkeep ?_ rfl
      rw [calls_onClose]
      exact Calls.keys_failAll _ _
  | reconnect =>
      obtain ⟨-, rfl⟩ := step_reconnect.mp hstep
      refine hkeep ?_ rfl
      unfold connect
      split <;> rfl
  | destroy =>
      obtain rfl := step_destroy.mp hstep
      exact hkeep (Calls.keys_failAll _ _) rfl

end Step

/-- **What was written** holds in every state of every run. -/
theorem writes_of_run {es : List Event} {s : Mt5CommandClient}
    (hrun : run step initial es = some s) : s.Writes := by
  have hstart : initial.calls.Sound fun _ _ => True :=
    ⟨(sound_of_run (run_nil step initial)).tracked,
      fun _ hc _ hresult => absurd hc (by simp [initial, connect])⟩
  have hboth : ∀ s e s', s.calls.Sound (fun _ _ => True) ∧ s.Writes → step s e = some s' →
      s'.calls.Sound (fun _ _ => True) ∧ s'.Writes := fun s e s' hs h =>
    ⟨sound_step hs.1 h fun _ _ _ _ _ _ => trivial, writes_step hs.1.tracked hs.2 h⟩
  exact (run_invariant hboth ⟨hstart, writes_initial⟩ hrun).2

/-! ## Where a frame is -/

/-- A frame at its place: the socket it was written to, and its number there. Sockets that have
ended keep what they were given. -/
def FrameAt (s : Mt5CommandClient) (j n : ℕ) (frame : Text) : Prop :=
  ∃ k, s.sockets[j]? = some k ∧ k.written[n]? = some frame

section Places

variable {s : Mt5CommandClient} (h : s.Writes)
include h

/-- **A frame that is on a socket is that of a call.** -/
theorem exists_call_of_frameAt {j n : ℕ} {frame : Text} (hat : s.FrameAt j n frame) :
    ∃ c ∈ s.calls.made, c.written = true ∧ c.frame = frame ∧ ∃ action payload,
      frame = commandFrame c.id action payload ++ ['\n'] := by
  obtain ⟨k, hk, hframe⟩ := hat
  have hmem : frame ∈ s.writtenFrames :=
    List.mem_flatMap.mpr ⟨k, List.mem_of_getElem? hk, List.mem_of_getElem? hframe⟩
  obtain ⟨key, hkey, hout⟩ := List.mem_flatMap.mp (h.once.mem_iff.mp hmem)
  obtain ⟨c, hc, rfl⟩ := List.mem_map.mp hkey
  unfold keyFrame at hout
  split at hout
  · next hwritten =>
      obtain rfl := List.mem_singleton.mp hout
      exact ⟨c, hc, hwritten, rfl, h.printed _ hkey⟩
  · cases hout

/-- **The frame of a call that was written is on a socket.** -/
theorem exists_frameAt_of_call {c : Call} (hc : c ∈ s.calls.made) (hwritten : c.written = true) :
    ∃ j n, s.FrameAt j n c.frame := by
  have hout : c.frame ∈ keyFrame c.key := by
    rw [keyFrame, if_pos (show c.key.2.2 = true from hwritten)]
    exact List.mem_singleton_self _
  have hmem : c.frame ∈ s.writtenFrames :=
    h.once.mem_iff.mpr (List.mem_flatMap.mpr ⟨c.key, List.mem_map_of_mem hc, hout⟩)
  obtain ⟨k, hk, hframe⟩ := List.mem_flatMap.mp hmem
  obtain ⟨j, hj⟩ := List.mem_iff_getElem?.mp hk
  obtain ⟨n, hn⟩ := List.mem_iff_getElem?.mp hframe
  exact ⟨j, n, k, hj, hn⟩

/-- Two calls with one id are one call, as far as their keys go. -/
theorem key_unique {c d : Call} (hc : c ∈ s.calls.made) (hd : d ∈ s.calls.made)
    (hid : c.id.text = d.id.text) : c.key = d.key :=
  List.inj_on_of_nodup_map h.distinct (List.mem_map_of_mem hc) (List.mem_map_of_mem hd) hid

/-- No frame is written twice. -/
theorem nodup_writtenFrames : s.writtenFrames.Nodup := by
  refine h.once.nodup_iff.mpr (List.nodup_flatMap.mpr ⟨fun key _ => ?_, ?_⟩)
  · unfold keyFrame
    split
    · exact List.nodup_singleton _
    · exact List.nodup_nil
  · refine (List.pairwise_map.mp h.distinct).imp_of_mem fun {a b} ha hb hne => ?_
    rw [Function.onFun, List.disjoint_left]
    intro frame hfa hfb
    obtain ⟨action, payload, hprinted⟩ := h.printed a ha
    obtain ⟨action', payload', hprinted'⟩ := h.printed b hb
    obtain rfl : frame = a.2.1 := mem_keyFrame hfa
    obtain heq : a.2.1 = b.2.1 := mem_keyFrame hfb
    rw [hprinted, hprinted'] at heq
    exact hne (commandFrame_id (List.append_cancel_right heq))

/-- **A frame has one place.** -/
theorem frameAt_unique {j j' n n' : ℕ} {frame : Text} (hat : s.FrameAt j n frame)
    (hat' : s.FrameAt j' n' frame) : j = j' ∧ n = n' := by
  obtain ⟨k, hk, hframe⟩ := hat
  obtain ⟨k', hk', hframe'⟩ := hat'
  obtain ⟨hone, hapart⟩ := List.nodup_flatMap.mp (nodup_writtenFrames h)
  have hsock : j = j' := by
    by_contra hne
    have hdisjoint : List.Disjoint k.written k'.written := by
      obtain ⟨hj, rfl⟩ := List.getElem?_eq_some_iff.mp hk
      obtain ⟨hj', rfl⟩ := List.getElem?_eq_some_iff.mp hk'
      rcases Nat.lt_or_gt_of_ne hne with hlt | hlt
      · exact List.pairwise_iff_getElem.mp hapart j j' hj hj' hlt
      · exact (List.pairwise_iff_getElem.mp hapart j' j hj' hj hlt).symm
    exact hdisjoint (List.mem_of_getElem? hframe) (List.mem_of_getElem? hframe')
  subst hsock
  obtain rfl := Option.some.inj (hk.symm.trans hk')
  refine ⟨rfl, ?_⟩
  obtain ⟨hn, hget⟩ := List.getElem?_eq_some_iff.mp hframe
  obtain ⟨hn', hget'⟩ := List.getElem?_eq_some_iff.mp hframe'
  exact (List.Nodup.getElem_inj_iff (hone k (List.mem_of_getElem? hk))).mp (hget.trans hget'.symm)

end Places

end Mt5CommandClient

end AkronSlot.Slot
