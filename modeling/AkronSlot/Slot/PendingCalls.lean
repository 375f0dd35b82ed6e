import AkronSlot.Slot.CommandSocket

/-!
# Every command is settled once

Six things settle a command: its response, its timer, the callback of its write,
and 'error', 'close' and `destroy` through the whole map.  Each of them stops the
timer and takes the entry out.  `Tracked` is the invariant that ties the two
together: the entries of `pending` are exactly the calls whose timer runs.  All
six keep it by one lemma, `Tracked.update`.

A call whose write throws because `destroy` came between `ensureConnected` and
the executor is rejected at once and keeps its entry until its timer goes off;
nothing below is claimed of it but that.

## Why the timer

`pending` and the calls refer to each other only by ids, and six handlers take entries out. What
makes the bookkeeping checkable is that none of them forgets the timer: an entry is in the map
exactly while the timer of its call runs. So whether a call is open can be read off the call
alone, and a step that changes one call changes one entry.

Where a result comes from is a second question. `F` stands for the responses that were read so
far and only grows; that a fulfilled call has one of them is carried along with the bookkeeping.

## Main Definitions

* `Call.Lawful`, `Tracked` — the invariant
* `FulfilledBy` — where a result can come from
* `Settlement` — what holds in every state of every run

## Main Results

* `settlement_of_run`
-/

namespace AkronSlot.Slot

open Wire Systems

/-! ## One call -/

/-- What holds of every call: its timer runs only while its frame is out and its
promise open, and once it has begun, a timer that does not run means that the
promise is settled. -/
structure Call.Lawful (c : Call) : Prop where
  begun_of_timer : c.timer = true → c.stage = .begun
  begun_of_written : c.written = true → c.stage = .begun
  written_of_callback : c.callback = true → c.written = true
  open_of_idle : c.stage = .waiting ∨ c.stage = .ready → c.outcome = none
  open_of_timer : c.written = true → c.timer = true → c.outcome = none
  settled_of_stopped : c.stage = .begun → c.timer = false → c.outcome.isSome = true

namespace Call

@[simp] theorem reject_id (c : Call) (message : Text) : (c.reject message).id = c.id := rfl

@[simp] theorem reject_timer (c : Call) (message : Text) : (c.reject message).timer = false := rfl

/-- The promise of an entry that is settled is settled, whatever came before. -/
theorem isSome_settle (c : Call) (outcome : Except Text (Option Json)) :
    (c.settle outcome).outcome.isSome = true := by
  simp [settle]

/-- Rejecting twice is rejecting once. -/
theorem reject_reject (c : Call) (message : Text) :
    (c.reject message).reject message = c.reject message := by
  simp only [reject, clearTimeout, settle, mk.injEq, true_and]
  cases c.outcome <;> rfl

namespace Lawful

variable {c : Call}

/-- Whatever settles an entry stops its timer first. -/
theorem clear_settle (h : c.Lawful) (htimer : c.timer = true)
    (outcome : Except Text (Option Json)) : (c.clearTimeout.settle outcome).Lawful where
  begun_of_timer ht := by simp [settle, clearTimeout] at ht
  begun_of_written _ := h.begun_of_timer htimer
  written_of_callback := h.written_of_callback
  open_of_idle hidle := by
    have hstage : (c.clearTimeout.settle outcome).stage = .begun := h.begun_of_timer htimer
    simp [hstage] at hidle
  open_of_timer _ ht := by simp [settle, clearTimeout] at ht
  settled_of_stopped _ _ := isSome_settle _ _

/-- A call that has not begun has neither a timer nor a frame out. -/
theorem idle (h : c.Lawful) (hstage : c.stage ≠ .begun) : c.timer = false ∧ c.written = false := by
  constructor
  · by_contra ht
    exact hstage (h.begun_of_timer (by simpa using ht))
  · by_contra hw
    exact hstage (h.begun_of_written (by simpa using hw))

/-- `ensureConnected` returns. -/
theorem ready (h : c.Lawful) (hstage : c.stage = .waiting) :
    Lawful { c with stage := .ready } := by
  obtain ⟨htimer, hwritten⟩ := h.idle (by simp [hstage])
  exact ⟨fun ht => by simp [htimer] at ht, fun hw => by simp [hwritten] at hw,
    h.written_of_callback, fun _ => h.open_of_idle (.inl hstage), h.open_of_timer,
    fun hb => by simp at hb⟩

/-- The call throws. -/
theorem refuse (h : c.Lawful) (hstage : c.stage = .waiting) (message : Text) :
    (c.refuse message).Lawful := by
  obtain ⟨htimer, hwritten⟩ := h.idle (by simp [hstage])
  exact ⟨fun ht => by simp [Call.refuse, htimer] at ht,
    fun hw => by simp [Call.refuse, hwritten] at hw, h.written_of_callback,
    fun hi => by simp [Call.refuse] at hi, fun hw => by simp [Call.refuse, hwritten] at hw,
    fun hb => by simp [Call.refuse] at hb⟩

/-- The executor runs: with a socket the promise is open, without one the timer
runs all the same. -/
theorem execute (h : c.Lawful) (hstage : c.stage = .ready) (socket : Bool) :
    (c.execute socket).Lawful ∧ (c.execute socket).timer = true := by
  obtain ⟨htimer, hwritten⟩ := h.idle (by simp [hstage])
  cases socket with
  | true =>
      refine ⟨⟨fun _ => rfl, fun _ => rfl, fun _ => rfl, fun hi => by simp [Call.execute] at hi,
        fun _ _ => h.open_of_idle (.inr hstage), fun _ ht => ?_⟩, rfl⟩
      simp [Call.execute] at ht
  | false =>
      refine ⟨⟨fun _ => rfl, fun _ => rfl, h.written_of_callback,
        fun hi => by simp [Call.execute, settle] at hi,
        fun hw => ?_, fun _ _ => isSome_settle _ _⟩, rfl⟩
      simp [Call.execute, settle, hwritten] at hw

/-- The callback of the write comes without an error. -/
theorem callBack_none (h : c.Lawful) : (c.callBack none).Lawful :=
  ⟨h.begun_of_timer, h.begun_of_written, fun hb => by simp [Call.callBack] at hb, h.open_of_idle,
    h.open_of_timer, h.settled_of_stopped⟩

/-- The callback of the write comes with an error, early or late. -/
theorem callBack_some (h : c.Lawful) (hcallback : c.callback = true) (message : Text) :
    (c.callBack (some message)).Lawful where
  begun_of_timer ht := by simp [callBack] at ht
  begun_of_written := h.begun_of_written
  written_of_callback hb := by simp [callBack, reject, clearTimeout, settle] at hb
  open_of_idle hidle := by
    have hstage : (c.callBack (some message)).stage = .begun :=
      h.begun_of_written (h.written_of_callback hcallback)
    simp [hstage] at hidle
  open_of_timer _ ht := by simp [callBack] at ht
  settled_of_stopped _ _ := isSome_settle _ _

end Lawful

/-- The result of a call, if it has one, is that of a response to it that reports success; `F` are
the responses that were read. A response to another id is no response to it. -/
def FulfilledBy (F : Text → ResponseFrame → Prop) (c : Call) : Prop :=
  ∀ result, c.outcome = some (.ok result) → ∃ r, F c.id.text r ∧ r.ok = true ∧ r.result = result

variable {F : Text → ResponseFrame → Prop} {c : Call}

theorem FulfilledBy.of_none (h : c.outcome = none) : c.FulfilledBy F := by
  intro result hresult
  simp [h] at hresult

theorem FulfilledBy.reject (h : c.FulfilledBy F) (message : Text) :
    (c.reject message).FulfilledBy F := by
  intro result hresult
  apply h result
  cases ho : c.outcome with
  | none => simp [Call.reject, settle, clearTimeout, ho] at hresult
  | some outcome => simpa [Call.reject, settle, clearTimeout, ho] using hresult

theorem FulfilledBy.refuse (c : Call) (message : Text) : (c.refuse message).FulfilledBy F := by
  intro result hresult
  simp [Call.refuse] at hresult

theorem FulfilledBy.execute (h : c.FulfilledBy F) (socket : Bool) :
    (c.execute socket).FulfilledBy F := by
  cases socket with
  | true => exact h
  | false =>
      intro result hresult
      apply h result
      cases ho : c.outcome with
      | none => simp [Call.execute, settle, ho] at hresult
      | some outcome => simpa [Call.execute, settle, ho] using hresult

theorem FulfilledBy.callBack (h : c.FulfilledBy F) (error : Option Text) :
    (c.callBack error).FulfilledBy F := by
  cases error with
  | none => exact h
  | some message => exact FulfilledBy.reject (c := { c with callback := false }) h message

/-- A response settles with its result only if it reports success. -/
theorem FulfilledBy.respond (h : c.FulfilledBy F) {r : ResponseFrame} (hr : F c.id.text r) :
    (c.clearTimeout.settle (Slot.settle r)).FulfilledBy F := by
  intro result hresult
  cases ho : c.outcome with
  | some outcome =>
      apply h result
      simpa [settle, clearTimeout, ho] using hresult
  | none =>
      have hsettle : Slot.settle r = .ok result := by
        simpa [settle, clearTimeout, ho] using hresult
      unfold Slot.settle at hsettle
      split at hsettle
      · next hok => exact ⟨r, hr, hok, Except.ok.inj hsettle⟩
      · simp at hsettle

end Call

/-! ## The map of pending calls -/

namespace Calls

/-- **The invariant**: no two calls share an id, and the entries of `pending` are
exactly the calls whose timer runs. -/
structure Tracked (m : Calls) : Prop where
  lawful : ∀ c ∈ m.made, c.Lawful
  distinct : ∀ (i j : ℕ) (c d : Call), m.made[i]? = some c → m.made[j]? = some d →
    c.id.text = d.id.text → i = j
  mem_pending : ∀ e : Text × ℕ, e ∈ m.pending ↔
    ∃ c, m.made[e.2]? = some c ∧ c.timer = true ∧ c.id.text = e.1

theorem getElem?_update (m : Calls) (i j : ℕ) (f : Call → Call) :
    (m.update i f).made[j]? = m.made[j]?.map fun c => if i = j then f c else c :=
  List.getElem?_modify ..

namespace Tracked

variable {m : Calls} {i : ℕ} {c : Call}

theorem lawful_at (h : m.Tracked) (hc : m.made[i]? = some c) : c.Lawful :=
  h.lawful c (List.mem_of_getElem? hc)

/-- **One call changes**, and with it its entry. -/
theorem update (h : m.Tracked) (hc : m.made[i]? = some c) {f : Call → Call}
    (hid : (f c).id = c.id) (hlawful : (f c).Lawful) {pending : List (Text × ℕ)}
    (hpending : ∀ e, e ∈ pending ↔
      (e ∈ m.pending ∧ e.2 ≠ i) ∨ ((f c).timer = true ∧ e = (c.id.text, i))) :
    Tracked { made := m.made.modify i f, pending } := by
  have hat : ∀ (j : ℕ) (d : Call), (m.made.modify i f)[j]? = some d ↔
      (j = i ∧ d = f c) ∨ (j ≠ i ∧ m.made[j]? = some d) := by
    intro j d
    rw [List.getElem?_modify]
    by_cases hj : i = j
    · subst hj
      simp [hc, eq_comm]
    · simp [hj, Ne.symm hj]
  -- the id of the call at a place is what it was
  have hsame : ∀ (j : ℕ) (d : Call), (m.made.modify i f)[j]? = some d →
      ∃ d₀ : Call, m.made[j]? = some d₀ ∧ d₀.id = d.id := by
    intro j d hd
    rcases (hat j d).mp hd with ⟨rfl, rfl⟩ | ⟨-, hd⟩
    · exact ⟨c, hc, hid.symm⟩
    · exact ⟨d, hd, rfl⟩
  refine ⟨fun d hd => ?_, fun j k d d' hd hd' hids => ?_, fun e => ?_⟩
  · obtain ⟨j, hj⟩ := List.mem_iff_getElem?.mp hd
    rcases (hat j d).mp hj with ⟨-, rfl⟩ | ⟨-, hd⟩
    · exact hlawful
    · exact h.lawful_at hd
  · obtain ⟨d₀, hd₀, hid₀⟩ := hsame j d hd
    obtain ⟨d₁, hd₁, hid₁⟩ := hsame k d' hd'
    exact h.distinct j k d₀ d₁ hd₀ hd₁ (by rw [hid₀, hid₁, hids])
  · rw [hpending, h.mem_pending]
    constructor
    · rintro (⟨⟨d, hd, htimer, hkey⟩, hne⟩ | ⟨htimer, rfl⟩)
      · exact ⟨d, (hat _ _).mpr (.inr ⟨hne, hd⟩), htimer, hkey⟩
      · exact ⟨f c, (hat _ _).mpr (.inl ⟨rfl, rfl⟩), htimer, by rw [hid]⟩
    · rintro ⟨d, hd, htimer, hkey⟩
      rcases (hat _ _).mp hd with ⟨hi, rfl⟩ | ⟨hne, hd⟩
      · refine .inr ⟨htimer, ?_⟩
        rw [← hi, ← hid, hkey]
      · exact .inl ⟨⟨d, hd, htimer, hkey⟩, hne⟩

/-- The entries with the id of a call are the entries that lead to it. -/
theorem mem_delete (h : m.Tracked) (hc : m.made[i]? = some c) (e : Text × ℕ) :
    e ∈ (m.delete c.id.text).pending ↔ e ∈ m.pending ∧ e.2 ≠ i := by
  simp only [delete, List.mem_filter, decide_eq_true_eq, ne_eq]
  refine and_congr_right fun he => not_congr ?_
  obtain ⟨d, hd, -, hkey⟩ := (h.mem_pending e).mp he
  constructor
  · intro hid
    exact h.distinct _ _ d c hd hc (hkey.trans hid)
  · intro hi
    rw [hi, hc] at hd
    rw [← hkey, Option.some.inj hd]

/-- An entry leaves with a call whose timer stops. -/
theorem settle (h : m.Tracked) (hc : m.made[i]? = some c) {f : Call → Call}
    (hid : (f c).id = c.id) (hlawful : (f c).Lawful) (htimer : (f c).timer = false) :
    ((m.delete c.id.text).update i f).Tracked := by
  refine h.update hc hid hlawful fun e => ?_
  rw [h.mem_delete hc e]
  simp [htimer]

/-- A call changes and its timer does not. -/
theorem change (h : m.Tracked) (hc : m.made[i]? = some c) {f : Call → Call}
    (hid : (f c).id = c.id) (hlawful : (f c).Lawful) (htimer : (f c).timer = c.timer) :
    (m.update i f).Tracked := by
  refine h.update hc hid hlawful fun e => ?_
  rw [htimer]
  constructor
  · intro he
    by_cases hi : e.2 = i
    · obtain ⟨d, hd, hrun, hkey⟩ := (h.mem_pending e).mp he
      rw [hi, hc] at hd
      obtain rfl := Option.some.inj hd
      exact .inr ⟨hrun, Prod.ext hkey.symm hi⟩
    · exact .inl ⟨he, hi⟩
  · rintro (⟨he, -⟩ | ⟨hrun, rfl⟩)
    · exact he
    · exact (h.mem_pending _).mpr ⟨c, hc, hrun, rfl⟩

/-- A new entry comes with a call whose timer starts. -/
theorem execute (h : m.Tracked) (hc : m.made[i]? = some c) (hstage : c.stage = .ready)
    (socket : Bool) : (m.execute i c socket).Tracked := by
  obtain ⟨hlawful, htimer⟩ := (h.lawful_at hc).execute hstage socket
  have hidle : c.timer = false := ((h.lawful_at hc).idle (by simp [hstage])).1
  have hid : (c.execute socket).id = c.id := by cases socket <;> rfl
  -- the id is in the map only if the timer of this very call runs
  have hnone : ∀ e ∈ m.pending, e.1 ≠ c.id.text ∧ e.2 ≠ i := by
    intro e he
    obtain ⟨d, hd, hrun, hkey⟩ := (h.mem_pending e).mp he
    have hne : e.2 ≠ i := by
      rintro rfl
      rw [hc] at hd
      rw [← Option.some.inj hd, hidle] at hrun
      simp at hrun
    exact ⟨fun heq => hne (h.distinct _ _ d c hd hc (hkey.trans heq)), hne⟩
  refine h.update hc hid hlawful fun e => ?_
  have hset : (m.set c.id.text i).pending = m.pending ++ [(c.id.text, i)] := by
    rw [set, if_neg]
    simp only [List.any_eq_true, decide_eq_true_eq, not_exists, not_and]
    exact fun e he => (hnone e he).1
  rw [hset, List.mem_append, List.mem_singleton, htimer]
  have hkeep : e ∈ m.pending ↔ e ∈ m.pending ∧ e.2 ≠ i :=
    ⟨fun he => ⟨he, (hnone e he).2⟩, And.left⟩
  rw [← hkeep]
  simp

/-- A call is made. -/
theorem dispatch (h : m.Tracked) {id : Uuid} (hnew : ∀ d ∈ m.made, d.id.text ≠ id.text)
    (frame : Text) (destroyed : Bool) : (m.dispatch id frame destroyed).Tracked := by
  set c : Call := if destroyed then Call.refuse { id, frame } "MT5 command client destroyed"
    else { id, frame } with hcdef
  have hid : c.id = id := by cases destroyed <;> rfl
  have htimer : c.timer = false := by cases destroyed <;> rfl
  have hlawful : c.Lawful := by
    have hfresh : Call.Lawful { id, frame } :=
      ⟨by simp, by simp, by simp, fun _ => rfl, by simp, by simp⟩
    cases destroyed with
    | true => exact hfresh.refuse rfl _
    | false => exact hfresh
  -- the new call stands behind the others, under an id that none of them has
  have hat : ∀ (j : ℕ) (d : Call), (m.made ++ [c])[j]? = some d ↔
      m.made[j]? = some d ∨ (j = m.made.length ∧ d = c) := by
    intro j d
    rw [List.getElem?_append]
    split
    · next hj => simp [Nat.ne_of_lt hj]
    · next hj =>
        rw [List.getElem?_eq_none (Nat.le_of_not_lt hj)]
        simp [List.getElem?_singleton, eq_comm]
        omega
  show Tracked { m with made := m.made ++ [c] }
  refine ⟨fun d hd => ?_, fun j k d d' hd hd' hids => ?_, fun e => ?_⟩
  · rcases List.mem_append.mp hd with hd | hd
    · exact h.lawful d hd
    · rw [List.mem_singleton.mp hd]
      exact hlawful
  · rcases (hat j d).mp hd with hd | ⟨rfl, rfl⟩ <;> rcases (hat k d').mp hd' with hd' | ⟨rfl, rfl⟩
    · exact h.distinct j k d d' hd hd' hids
    · exact absurd (hids.trans (by rw [hid])) (hnew d (List.mem_of_getElem? hd))
    · exact absurd (hids.symm.trans (by rw [hid])) (hnew d' (List.mem_of_getElem? hd'))
    · rfl
  · rw [h.mem_pending]
    refine exists_congr fun d => ?_
    rw [hat]
    constructor
    · rintro ⟨hd, hrest⟩
      exact ⟨.inl hd, hrest⟩
    · rintro ⟨hd | ⟨-, rfl⟩, hrest⟩
      · exact ⟨hd, hrest⟩
      · simp [htimer] at hrest

end Tracked

/-- Rejecting along a list of entries. -/
theorem getElem?_rejectAll (message : Text) (entries : List (Text × ℕ)) (m : Calls) (j : ℕ) :
    (entries.foldl (fun m e => m.update e.2 (·.reject message)) m).made[j]? =
      m.made[j]?.map fun c => if j ∈ entries.map Prod.snd then c.reject message else c := by
  induction entries generalizing m with
  | nil => simp
  | cons e entries ih =>
      rw [List.foldl_cons, ih, getElem?_update, Option.map_map]
      congr 1
      funext c
      rw [Function.comp_apply, List.map_cons]
      by_cases he : e.2 = j
      · by_cases hj : j ∈ entries.map Prod.snd
        · simp [he, hj, Call.reject_reject]
        · simp [he, hj]
      · have hmem : j ∈ e.2 :: entries.map Prod.snd ↔ j ∈ entries.map Prod.snd :=
          List.mem_cons.trans (or_iff_right (Ne.symm he))
        simp only [he, hmem, if_false]

/-- What `failPending` leaves of a call. -/
theorem getElem?_failAll (m : Calls) (message : Text) (j : ℕ) :
    (m.failAll message).made[j]? =
      m.made[j]?.map fun c => if j ∈ m.pending.map Prod.snd then c.reject message else c :=
  getElem?_rejectAll message m.pending m j

/-- In a tracked map the calls that `failPending` rejects are those whose timer
runs. -/
theorem Tracked.getElem?_failAll {m : Calls} (h : m.Tracked) (message : Text) (j : ℕ) :
    (m.failAll message).made[j]? =
      m.made[j]?.map fun c => if c.timer then c.reject message else c := by
  rw [Calls.getElem?_failAll]
  cases hc : m.made[j]? with
  | none => rfl
  | some c =>
      have hiff : j ∈ m.pending.map Prod.snd ↔ c.timer = true := by
        constructor
        · intro hj
          obtain ⟨e, he, rfl⟩ := List.mem_map.mp hj
          obtain ⟨d, hd, htimer, -⟩ := (h.mem_pending e).mp he
          rw [hc] at hd
          rwa [Option.some.inj hd]
        · intro htimer
          exact List.mem_map.mpr ⟨(c.id.text, j), (h.mem_pending _).mpr ⟨c, hc, htimer, rfl⟩, rfl⟩
      simp [hiff]

theorem Tracked.failAll {m : Calls} (h : m.Tracked) (message : Text) :
    (m.failAll message).Tracked := by
  have hat : ∀ (j : ℕ) (d : Call), (m.failAll message).made[j]? = some d → ∃ c : Call,
      m.made[j]? = some c ∧ d.id = c.id ∧ d.Lawful ∧ d.timer = false := by
    intro j d hd
    rw [h.getElem?_failAll] at hd
    obtain ⟨c, hc, rfl⟩ := Option.map_eq_some_iff.mp hd
    refine ⟨c, hc, ?_⟩
    split
    · next htimer => exact ⟨rfl, (h.lawful_at hc).clear_settle htimer _, rfl⟩
    · next htimer => exact ⟨rfl, h.lawful_at hc, by simpa using htimer⟩
  refine ⟨fun d hd => ?_, fun j k d d' hd hd' hids => ?_, fun e => ?_⟩
  · obtain ⟨j, hj⟩ := List.mem_iff_getElem?.mp hd
    obtain ⟨c, -, -, hlawful, -⟩ := hat j d hj
    exact hlawful
  · obtain ⟨c, hc, hid, -⟩ := hat j d hd
    obtain ⟨c', hc', hid', -⟩ := hat k d' hd'
    exact h.distinct j k c c' hc hc' (by rw [← hid, ← hid', hids])
  · have hempty : (m.failAll message).pending = [] := rfl
    rw [hempty]
    constructor
    · intro he
      simp at he
    · rintro ⟨d, hd, htimer, -⟩
      obtain ⟨c, -, -, -, hstopped⟩ := hat e.2 d hd
      simp [hstopped] at htimer

/-! ## Responses -/

/-- What a frame does: nothing, or it settles the call whose id it carries. -/
theorem Tracked.dispatchFrame_cases {m m' : Calls} (h : m.Tracked) {frame : Text}
    (hframe : m.dispatchFrame frame = some m') :
    m' = m ∨ ∃ i c r, m.made[i]? = some c ∧ c.timer = true ∧
      readResponse frame = some (c.id.text, r) ∧
      m' = (m.delete c.id.text).update i fun c => c.clearTimeout.settle (Slot.settle r) := by
  unfold dispatchFrame at hframe
  split at hframe
  · exact .inl (Option.some.inj hframe).symm
  · next id r hread =>
      split at hframe
      · exact .inl (Option.some.inj hframe).symm
      · next key i hfind =>
          obtain ⟨-, hm'⟩ := Option.ite_none_right_eq_some.mp hframe
          obtain rfl := Option.some.inj hm'
          obtain ⟨c, hc, htimer, hkey⟩ := (h.mem_pending _).mp (List.mem_of_find?_eq_some hfind)
          have hid : key = id := by simpa using List.find?_some hfind
          have hcid : c.id.text = id := hkey.trans hid
          exact .inr ⟨i, c, r, hc, htimer, hcid ▸ hread, by rw [hcid]⟩

theorem Tracked.dispatchFrame {m m' : Calls} (h : m.Tracked) {frame : Text}
    (hframe : m.dispatchFrame frame = some m') : m'.Tracked := by
  rcases h.dispatchFrame_cases hframe with rfl | ⟨i, c, r, hc, htimer, -, rfl⟩
  · exact h
  · exact h.settle hc rfl ((h.lawful_at hc).clear_settle htimer _) rfl

/-- A frame leaves a call as it is unless it carries its id. -/
theorem Tracked.dispatchFrame_other {m m' : Calls} (h : m.Tracked) {frame : Text}
    (hframe : m.dispatchFrame frame = some m') {i : ℕ} {c : Call} (hc : m.made[i]? = some c)
    (hother : ∀ r, readResponse frame ≠ some (c.id.text, r)) : m'.made[i]? = some c := by
  rcases h.dispatchFrame_cases hframe with rfl | ⟨j, d, r, hd, -, hread, rfl⟩
  · exact hc
  · have hne : j ≠ i := by
      rintro rfl
      rw [hc] at hd
      rw [← Option.some.inj hd] at hread
      exact hother r hread
    rw [getElem?_update]
    show m.made[i]?.map _ = some c
    rw [hc]
    simp [hne]

/-- **No response settles another command**: the lines of a chunk leave a call as
it is unless one of them carries its id. -/
theorem Tracked.dispatchFrames_other {m m' : Calls} (h : m.Tracked) {frames : List Text}
    (hframes : frames.foldlM Calls.dispatchFrame m = some m') {i : ℕ} {c : Call}
    (hc : m.made[i]? = some c)
    (hother : ∀ frame ∈ frames, ∀ r, readResponse frame ≠ some (c.id.text, r)) :
    m'.made[i]? = some c := by
  induction frames generalizing m with
  | nil =>
      obtain rfl : m = m' := by simpa using hframes
      exact hc
  | cons frame frames ih =>
      rw [List.foldlM_cons] at hframes
      obtain ⟨t, ht, hrest⟩ := Option.bind_eq_some_iff.mp hframes
      have hkept := h.dispatchFrame_other ht hc (hother frame (by simp))
      exact ih (h.dispatchFrame ht) hrest hkept
        fun f hf => hother f (List.mem_cons_of_mem _ hf)

/-! ## The invariant along a step -/

/-- The invariant with the responses that were read. `F` says of an id which responses can settle
its call; it is a parameter so that a run can say more of them than a step. -/
structure Sound (F : Text → ResponseFrame → Prop) (m : Calls) : Prop where
  tracked : m.Tracked
  fulfilled : ∀ c ∈ m.made, c.FulfilledBy F

variable {F : Text → ResponseFrame → Prop} {m : Calls}

/-- A change of one call that keeps its result keeps all results. -/
theorem fulfilled_update (h : ∀ c ∈ m.made, c.FulfilledBy F) (i : ℕ) {f : Call → Call}
    (hf : ∀ c, m.made[i]? = some c → c.FulfilledBy F → (f c).FulfilledBy F) :
    ∀ c ∈ (m.update i f).made, c.FulfilledBy F := by
  intro d hd
  obtain ⟨j, hj⟩ := List.mem_iff_getElem?.mp hd
  rw [getElem?_update] at hj
  obtain ⟨c, hc, rfl⟩ := Option.map_eq_some_iff.mp hj
  have hold := h c (List.mem_of_getElem? hc)
  split
  · next hi => exact hf c (hi ▸ hc) hold
  · exact hold

namespace Sound

theorem dispatch (h : m.Sound F) {id : Uuid} (hnew : ∀ d ∈ m.made, d.id.text ≠ id.text)
    (frame : Text) (destroyed : Bool) : (m.dispatch id frame destroyed).Sound F := by
  refine ⟨h.tracked.dispatch hnew frame destroyed, fun c hc => ?_⟩
  rcases List.mem_append.mp hc with hc | hc
  · exact h.fulfilled c hc
  · rw [List.mem_singleton.mp hc]
    split
    · exact Call.FulfilledBy.refuse _ _
    · exact Call.FulfilledBy.of_none rfl

theorem failAll (h : m.Sound F) (message : Text) : (m.failAll message).Sound F := by
  refine ⟨h.tracked.failAll message, fun d hd => ?_⟩
  obtain ⟨j, hj⟩ := List.mem_iff_getElem?.mp hd
  rw [getElem?_failAll] at hj
  obtain ⟨c, hc, rfl⟩ := Option.map_eq_some_iff.mp hj
  have hold := h.fulfilled c (List.mem_of_getElem? hc)
  split
  · exact hold.reject message
  · exact hold

theorem dispatchFrame {m' : Calls} (h : m.Sound F) {frame : Text}
    (hread : ∀ id r, readResponse frame = some (id, r) → F id r)
    (hframe : m.dispatchFrame frame = some m') : m'.Sound F := by
  refine ⟨h.tracked.dispatchFrame hframe, ?_⟩
  rcases h.tracked.dispatchFrame_cases hframe with rfl | ⟨i, c, r, hc, -, hr, rfl⟩
  · exact h.fulfilled
  · apply fulfilled_update (m := m.delete c.id.text) h.fulfilled
    intro d hd hold
    obtain rfl : c = d := Option.some.inj (hc.symm.trans hd)
    exact hold.respond (hread _ _ hr)

/-- The lines of a chunk, one after the other. -/
theorem dispatchFrames {m' : Calls} (h : m.Sound F) {frames : List Text}
    (hread : ∀ frame ∈ frames, ∀ id r, readResponse frame = some (id, r) → F id r)
    (hframes : frames.foldlM Calls.dispatchFrame m = some m') : m'.Sound F := by
  induction frames generalizing m with
  | nil =>
      obtain rfl : m = m' := by simpa using hframes
      exact h
  | cons frame frames ih =>
      rw [List.foldlM_cons] at hframes
      obtain ⟨t, ht, hrest⟩ := Option.bind_eq_some_iff.mp hframes
      exact ih (h.dispatchFrame (hread frame (by simp)) ht)
        (fun f hf => hread f (List.mem_cons_of_mem _ hf)) hrest

end Sound

end Calls

/-! ## Runs -/

namespace Mt5CommandClient

theorem calls_scheduleReconnect (s : Mt5CommandClient) : s.scheduleReconnect.calls = s.calls := by
  unfold scheduleReconnect
  split <;> rfl

theorem calls_onClose (s : Mt5CommandClient) (k : Socket) :
    (s.onClose k).calls = s.calls.failAll "MT5 command socket closed" := by
  unfold onClose
  split
  · rfl
  · exact calls_scheduleReconnect _

/-- **The step lemma**: `F` contains the responses that the step reads. -/
theorem sound_step {F : Text → ResponseFrame → Prop} {s s' : Mt5CommandClient} {e : Event}
    (hs : s.calls.Sound F) (h : s.step e = some s')
    (hread : ∀ i, ∀ frame ∈ s.framesOn i e, ∀ id r, readResponse frame = some (id, r) → F id r) :
    s'.calls.Sound F := by
  have htracked := hs.tracked
  cases e with
  | dispatch id action payload =>
      obtain ⟨hnew, rfl⟩ := step_dispatch.mp h
      exact hs.dispatch hnew _ _
  | ensured i =>
      obtain ⟨c, hc, ⟨hstage, -⟩, rfl⟩ := step_ensured.mp h
      refine ⟨htracked.change hc rfl ((htracked.lawful_at hc).ready hstage) rfl, ?_⟩
      exact Calls.fulfilled_update hs.fulfilled i fun _ _ hd => hd
  | gaveUp i =>
      obtain ⟨c, hc, hstage, rfl⟩ := step_gaveUp.mp h
      refine ⟨htracked.change hc rfl ((htracked.lawful_at hc).refuse hstage _) rfl, ?_⟩
      exact Calls.fulfilled_update hs.fulfilled i fun d _ _ => Call.FulfilledBy.refuse d _
  | execute i =>
      obtain ⟨c, hc, hstage, rfl⟩ := step_execute.mp h
      -- the call is in the map before its frame is written
      refine ⟨htracked.execute hc hstage _, ?_⟩
      exact Calls.fulfilled_update (m := s.calls.set c.id.text i) hs.fulfilled i
        fun _ _ hd => hd.execute _
  | timeout i =>
      obtain ⟨c, hc, htimer, rfl⟩ := step_timeout.mp h
      refine ⟨htracked.settle hc rfl ((htracked.lawful_at hc).clear_settle htimer _) rfl, ?_⟩
      exact Calls.fulfilled_update (m := s.calls.delete c.id.text) hs.fulfilled i
        fun _ _ hd => hd.reject _
  | wrote i error =>
      obtain ⟨c, hc, hcallback, rfl⟩ := step_wrote.mp h
      have hlawful := htracked.lawful_at hc
      cases error with
      | none =>
          refine ⟨htracked.change hc rfl hlawful.callBack_none rfl, ?_⟩
          exact Calls.fulfilled_update hs.fulfilled i fun _ _ hd => hd.callBack none
      | some message =>
          refine ⟨htracked.settle hc rfl (hlawful.callBack_some hcallback message) rfl, ?_⟩
          exact Calls.fulfilled_update (m := s.calls.delete c.id.text) hs.fulfilled i
            fun _ _ hd => hd.callBack (some message)
  | connected c =>
      obtain ⟨k, -, -, rfl⟩ := step_connected.mp h
      exact hs
  | error c message =>
      obtain ⟨k, -, -, rfl⟩ := step_error.mp h
      rw [onError, calls_scheduleReconnect]
      exact hs.failAll message
  | data c chunk =>
      obtain ⟨k, -, -, hdata⟩ := step_data.mp h
      obtain ⟨calls, hcalls, rfl⟩ := onData_eq_some hdata
      have hsound : calls.Sound F := by
        refine hs.dispatchFrames (fun frame hframe => hread c frame ?_) hcalls
        simpa [framesOn] using hframe
      -- a line that grows too long costs the socket, after the frames were dispatched
      unfold dropOverflow
      split <;> exact hsound
  | close c =>
      obtain ⟨k, -, -, rfl⟩ := step_close.mp h
      rw [calls_onClose]
      exact hs.failAll _
  | reconnect =>
      obtain ⟨-, rfl⟩ := step_reconnect.mp h
      unfold connect
      split <;> exact hs
  | destroy =>
      obtain rfl := step_destroy.mp h
      exact hs.failAll _

/-- A response that some socket has brought: a frame that its handler has passed on is read as
this id and this content. -/
def Brought (s : Mt5CommandClient) (id : Text) (r : ResponseFrame) : Prop :=
  ∃ k ∈ s.sockets, ∃ frame ∈ k.frames, readResponse frame = some (id, r)

theorem Brought.step {s s' : Mt5CommandClient} {e : Event} (h : s.step e = some s') {id : Text}
    {r : ResponseFrame} (hs : s.Brought id r) : s'.Brought id r := by
  obtain ⟨k, hk, frame, hframe, hread⟩ := hs
  obtain ⟨i, hi⟩ := List.mem_iff_getElem?.mp hk
  obtain ⟨k', hk', hgrown⟩ := step_socket h hi
  refine ⟨k', List.mem_of_getElem? hk', frame, ?_, hread⟩
  rw [hgrown.frames]
  exact List.mem_append_left _ hframe

/-- What a step reads was brought by the time it is over. -/
theorem brought_of_framesOn {s s' : Mt5CommandClient} {e : Event} (h : s.step e = some s') {i : ℕ}
    {frame : Text} (hframe : frame ∈ s.framesOn i e) {id : Text} {r : ResponseFrame}
    (hread : readResponse frame = some (id, r)) : s'.Brought id r := by
  cases e with
  | data c chunk =>
      obtain ⟨k, hk, -, -⟩ := step_data.mp h
      have hc : c = i := by
        by_contra hne
        simp [framesOn, hne] at hframe
      subst hc
      obtain ⟨k', hk', hgrown⟩ := step_socket h hk
      refine ⟨k', List.mem_of_getElem? hk', frame, ?_, hread⟩
      rw [hgrown.frames]
      exact List.mem_append_right _ hframe
  | _ => simp [framesOn] at hframe

/-- What holds of the commands of a client.  `fulfilled`: a result is that of a
response with the id of the call.  `other`: frames without the id of a call leave
it alone.  `once`: a command that was written and is settled has no timer and no
entry.  `settled`: a command whose timer does not run any more is settled and has
no entry.  `pending` holds only commands whose timer runs. -/
structure Settlement (s : Mt5CommandClient) : Prop where
  fulfilled : ∀ c ∈ s.calls.made, ∀ result : Option Json, c.outcome = some (.ok result) →
    ∃ k ∈ s.sockets, ∃ frame ∈ k.frames, ∃ r,
      readResponse frame = some (c.id.text, r) ∧ r.ok = true ∧ r.result = result
  other : ∀ (frames : List Text) (m' : Calls), frames.foldlM Calls.dispatchFrame s.calls = some m' →
    ∀ (i : ℕ) (c : Call), s.calls.made[i]? = some c → m'.made[i]? ≠ some c →
      ∃ frame ∈ frames, ∃ r, readResponse frame = some (c.id.text, r)
  once : ∀ (i : ℕ) (c : Call), s.calls.made[i]? = some c → c.written = true →
    c.outcome.isSome = true →
      c.timer = false ∧ ∀ e ∈ s.calls.pending, e.1 ≠ c.id.text ∧ e.2 ≠ i
  settled : ∀ (i : ℕ) (c : Call), s.calls.made[i]? = some c → c.stage = .begun →
    c.timer = false →
      c.outcome.isSome = true ∧ ∀ e ∈ s.calls.pending, e.1 ≠ c.id.text ∧ e.2 ≠ i
  pending : ∀ e ∈ s.calls.pending, ∃ c, s.calls.made[e.2]? = some c ∧ c.id.text = e.1 ∧
    c.timer = true

/-- A stopped timer means that there is no entry. -/
theorem no_entry {m : Calls} (h : m.Tracked) {i : ℕ} {c : Call} (hc : m.made[i]? = some c)
    (htimer : c.timer = false) : ∀ e ∈ m.pending, e.1 ≠ c.id.text ∧ e.2 ≠ i := by
  intro e he
  obtain ⟨d, hd, hrun, hkey⟩ := (h.mem_pending e).mp he
  have hne : e.2 ≠ i := by
    rintro rfl
    rw [hc] at hd
    simp [← Option.some.inj hd, htimer] at hrun
  exact ⟨fun hid => hne (h.distinct _ _ d c hd hc (hkey.trans hid)), hne⟩

/-- The invariant gives what is promised. -/
theorem settlement_of_sound {s : Mt5CommandClient} (h : s.calls.Sound s.Brought) :
    s.Settlement := by
  have htracked := h.tracked
  refine ⟨fun c hc result hresult => ?_, fun frames m' hframes i c hc hchanged => ?_,
    fun i c hc hwritten hsettled => ?_, fun i c hc hbegun htimer => ?_, fun e he => ?_⟩
  · obtain ⟨r, ⟨k, hk, frame, hframe, hread⟩, hok, hr⟩ := h.fulfilled c hc result hresult
    exact ⟨k, hk, frame, hframe, r, hread, hok, hr⟩
  · by_contra hno
    apply hchanged
    refine htracked.dispatchFrames_other hframes hc fun frame hframe r hread => hno ?_
    exact ⟨frame, hframe, r, hread⟩
  · have htimer : c.timer = false := by
      by_contra hrun
      have hopen := (htracked.lawful_at hc).open_of_timer hwritten (by simpa using hrun)
      simp [hopen] at hsettled
    exact ⟨htimer, no_entry htracked hc htimer⟩
  · exact ⟨(htracked.lawful_at hc).settled_of_stopped hbegun htimer, no_entry htracked hc htimer⟩
  · obtain ⟨c, hc, htimer, hkey⟩ := (htracked.mem_pending e).mp he
    exact ⟨c, hc, hkey, htimer⟩

/-- The invariant holds in every state of every run. -/
theorem sound_of_run {es : List Event} {s : Mt5CommandClient}
    (hrun : run step initial es = some s) : s.calls.Sound s.Brought := by
  have hstep : ∀ t e t', t.calls.Sound t.Brought → step t e = some t' →
      t'.calls.Sound t'.Brought := by
    intro t e t' ht h
    refine sound_step ⟨ht.tracked, fun c hc result hresult => ?_⟩ h
      fun i frame hframe id r hread => brought_of_framesOn h hframe hread
    obtain ⟨r, hr, hrest⟩ := ht.fulfilled c hc result hresult
    exact ⟨r, hr.step h, hrest⟩
  refine run_invariant hstep ⟨⟨?_, ?_, ?_⟩, ?_⟩ hrun <;> simp [initial, connect]

/-- **Every command is settled once**, in every run of the client. Whoever settles a command takes
it from the map in the same step, so the response, the timer and the loss of the connection
exclude each other. -/
theorem settlement_of_run {es : List Event} {s : Mt5CommandClient}
    (hrun : run step initial es = some s) : s.Settlement :=
  settlement_of_sound (sound_of_run hrun)

/-- A response to the command with the sample id. -/
def sampleResponse : Json :=
  .obj [("type", .str "response"), ("id", .str sampleId.text), ("ok", .bool true),
    ("result", .arr [])]

theorem readResponse_sample : readResponse sampleResponse.print =
    some (sampleId.text, ⟨true, some (.arr []), none⟩) := by
  rw [readResponse, Json.parse_print]
  rfl

/-- The bytes of the response. -/
def sampleResponseBytes : Bytes := Utf8.encode (sampleResponse.print ++ ['\n'])

/-- A command is written. -/
def written : List Event :=
  [.connected 0, .dispatch sampleId "symbols" (.obj []), .ensured 0, .execute 0]

/-- The frame of the command. -/
def sampleFrame : Text := commandFrame sampleId "symbols" (.obj []) ++ ['\n']

/-- The command once it is written. -/
def sampleCall : Call :=
  { id := sampleId, frame := sampleFrame, stage := .begun, timer := true, written := true,
    callback := true }

/-- The client after these steps. -/
def afterWritten : Mt5CommandClient :=
  { sockets := [{ written := [sampleFrame], connected := true }]
    sock := some 0
    calls := ⟨[sampleCall], [(sampleId.text, 0)]⟩ }

theorem run_written : run step initial written = some afterWritten := rfl

/-- The client once the response has come. -/
def afterAnswered : Mt5CommandClient :=
  { sockets :=
      [{ written := [sampleFrame]
         received := [sampleResponseBytes]
         frames := [sampleResponse.print]
         connected := true }]
    sock := some 0
    calls := ⟨[sampleCall.clearTimeout.settle (.ok (some (.arr [])))], []⟩ }

theorem step_answered :
    step afterWritten (.data 0 sampleResponseBytes) = some afterAnswered := by
  have hbuffered : afterWritten.buffered sampleResponseBytes =
      sampleResponse.print ++ '\n' :: [] := Utf8.decode_encode _
  have hno := Json.newline_notMem_print sampleResponse
  rw [step_data]
  refine ⟨_, rfl, rfl, ?_⟩
  rw [onData, hbuffered, completeLines_line hno, openTail_line hno, completeLines_nil,
    List.foldlM_cons, Calls.dispatchFrame, readResponse_sample]
  rfl

/-- A command and its response. -/
theorem answered_settlement : ∃ s, run step initial (written ++ [.data 0 sampleResponseBytes]) =
    some s ∧ s.Settlement ∧ s.calls.pending = [] ∧
      s.calls.made.map Call.outcome = [some (.ok (some (.arr [])))] := by
  have hrun : run step initial (written ++ [.data 0 sampleResponseBytes]) =
      some afterAnswered := by
    rw [run_append]
    exact ⟨_, run_written, by rw [run_cons]; exact ⟨_, step_answered, rfl⟩⟩
  exact ⟨_, hrun, settlement_of_run hrun, rfl, rfl⟩

end Mt5CommandClient

end AkronSlot.Slot
