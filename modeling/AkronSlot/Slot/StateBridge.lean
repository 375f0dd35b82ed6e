import AkronSlot.Systems.Runs
import AkronSlot.Wire.Python
import AkronSlot.Wire.Utf8

/-!
# The state bridge (`services/mt5-state-bridge.py`)

The bridge polls `slot-state.json` and sends its members, without `ts`, when the file says
something else than what was sent last.  It forgets what it sent when it cannot read the file,
and it sends a `startup` frame from time to time.

An exception ends the process, and s6 starts it again: bytes that are not UTF-8 raise a
`UnicodeDecodeError`, and a JSON value other than an object has no `items`.

## The values

The bridge does not look at the values in the file.  They are of a type `V`: the values as far
as `json.dumps` with `sort_keys` tells them apart.  `json.loads` is a parameter.

## Memory as a register

`last_raw` and `last_heartbeat` are what the loop knows of its past, and a restart forgets both.
Each is a register of `Systems.Runs`: `tells` and `beats` say what an event writes to it, and
`register_eq_iff` then says what it holds after a run.  The law of a turn is stated over the
run, with the registers read that way.

## Main Definitions

* `readStateFile`, `Bridge.iterate`
* `Event`, `step` — the process under s6
* `Published`, `Beat` — what was sent last, as the events of a run tell it

## Main Results

* `lastRaw_eq_some_iff`, `lastHeartbeat_iff` — the variables of the loop hold what the run says
* `turnLaw_of_run`
-/

namespace AkronSlot.Slot.StateBridge

open Wire Systems Wire.Utf8 Wire.Python

variable {V : Type}

/-! ## The file -/

/-- A dictionary, with its keys in the order of insertion. -/
abbrev Dict (V : Type) := List (Text × V)

/-- What `json.loads` does with a text: a dictionary, `None`, another value (or an exception
that is no `JSONDecodeError`), or a `JSONDecodeError`. -/
inductive Loaded (V : Type) where
  | dict (d : Dict V)
  | null
  | value
  | malformed
  deriving DecidableEq

/-- What `read_state_file` returns: `None`, a dictionary, or what is not one. JSON that is no
object is returned like an object, and the next line raises. -/
inductive StateRead (V : Type) where
  | nothing
  | dict (d : Dict V)
  | value
  deriving DecidableEq

/-- The newlines of a file that is opened in text mode. -/
def universalNewlines : Text → Text
  | [] => []
  | '\r' :: '\n' :: t => '\n' :: universalNewlines t
  | '\r' :: t => '\n' :: universalNewlines t
  | c :: t => c :: universalNewlines t

/-- `read_state_file`.  Without bytes the file is missing, or cannot be opened; `none` is a
`UnicodeDecodeError`. -/
def readStateFile (loads : Text → Loaded V) (file : Option Bytes) : Option (StateRead V) :=
  match file with
  | none => some .nothing
  | some bytes =>
      if encode (decode bytes) ≠ bytes then none
      else
        let raw := strip (universalNewlines (decode bytes))
        if raw = [] then some .nothing
        else
          match loads raw with
          | .malformed | .null => some .nothing
          | .dict d => some (.dict d)
          | .value => some .value

/-! ## The loop -/

inductive Kind where
  | account
  | startup
  deriving DecidableEq

/-- A frame: its kind, its data and its time. -/
structure Frame (V : Type) where
  kind : Kind
  data : Dict V
  ts : ℤ
  deriving DecidableEq

/-- What comes of a `send`: whether a connection is made, and whether `sendall` succeeds. The
first is asked only when there is no connection. -/
structure Attempt where
  connects : Bool
  sendall : Bool
  deriving DecidableEq

/-- What an iteration of the loop can read: the monotonic clock, the file, and what comes of
the two sends. -/
structure Turn where
  now : ℚ
  file : Option Bytes
  accountSend : Attempt
  accountTs : ℤ
  heartbeatSend : Attempt
  heartbeatTs : ℤ

/-- The variables of `loop` and whether the client has a socket, with what was handed to
`send` and what it returned. -/
structure Bridge (V : Type) where
  sock : Bool := false
  lastRaw : Option (Dict V) := none
  lastHeartbeat : ℚ := 0
  sends : List (Frame V × Bool) := []

/-- What `json.dumps` with `sort_keys` makes of a dictionary. -/
def sortKeys (d : Dict V) : Dict V := d.insertionSort fun a b => a.1 ≤ b.1

/-- The data of an account frame. -/
def dataOf (d : Dict V) : Dict V := d.filter fun m => m.1 ≠ "ts"

namespace Bridge

variable (b : Bridge V) (t : Turn)

/-- `SlotClient.send`. -/
def send (a : Attempt) (payload : Frame V) : Bridge V × Bool :=
  if !b.sock && !a.connects then
    ({ b with sock := false, sends := b.sends ++ [(payload, false)] }, false)
  else if a.sendall then
    ({ b with sock := true, sends := b.sends ++ [(payload, true)] }, true)
  else ({ b with sock := false, sends := b.sends ++ [(payload, false)] }, false)

/-- What `send` returns. -/
def accepts (a : Attempt) : Bool := (b.sock || a.connects) && a.sendall

theorem send_eq (a : Attempt) (payload : Frame V) :
    b.send a payload = ({ b with sock := b.accepts a
                                 sends := b.sends ++ [(payload, b.accepts a)] }, b.accepts a) := by
  unfold send accepts
  cases b.sock <;> cases a.connects <;> cases a.sendall <;> rfl

variable [DecidableEq V]

/-- An iteration that has read a dictionary, up to the heartbeat. -/
def publish (d : Dict V) : Bridge V :=
  let raw := sortKeys d
  if some raw ≠ b.lastRaw then
    let sent := b.send t.accountSend ⟨.account, dataOf d, t.accountTs⟩
    if sent.2 then { sent.1 with lastRaw := some raw } else sent.1
  else b

omit [DecidableEq V] in
/-- The heartbeat at the end of an iteration. -/
def heartbeat (heartbeatS : ℚ) : Bridge V :=
  if t.now - b.lastHeartbeat ≥ heartbeatS then
    let sent := b.send t.heartbeatSend ⟨.startup, [], t.heartbeatTs⟩
    if sent.2 then { sent.1 with lastHeartbeat := t.now } else sent.1
  else b

variable (loads : Text → Loaded V) (heartbeatS : ℚ)

/-- One iteration of `loop`; `none` is an exception. -/
def iterate : Option (Bridge V) :=
  match readStateFile loads t.file with
  | none => none
  | some .nothing => some ({ b with lastRaw := none }.heartbeat t heartbeatS)
  | some (.dict d) => some ((b.publish t d).heartbeat t heartbeatS)
  -- `state.items` is an AttributeError
  | some .value => none

omit [DecidableEq V] in
/-- s6 starts the process again. -/
def restart : Bridge V := { sends := b.sends }

end Bridge

/-- What can happen: an iteration, or the end of the process. -/
inductive Event where
  | turn (t : Turn)
  | restart

variable [DecidableEq V] (loads : Text → Loaded V) (heartbeatS : ℚ)

/-- The process under s6. -/
def step (b : Bridge V) : Event → Option (Bridge V)
  | .turn t => some ((b.iterate t loads heartbeatS).getD b.restart)
  | .restart => some b.restart

/-! ## What a turn does -/

namespace Bridge

/-- What a turn sends of a dictionary. -/
def accountSends (b : Bridge V) (t : Turn) (d : Dict V) : List (Frame V × Bool) :=
  if b.lastRaw = some (sortKeys d) then []
  else [(⟨.account, dataOf d, t.accountTs⟩, b.accepts t.accountSend)]

omit [DecidableEq V] in
/-- What a turn sends at its end. -/
def heartbeatSends (b : Bridge V) (t : Turn) : List (Frame V × Bool) :=
  if t.now - b.lastHeartbeat < heartbeatS then []
  else [(⟨.startup, [], t.heartbeatTs⟩, b.accepts t.heartbeatSend)]

omit [DecidableEq V] in
theorem sends_heartbeat (b : Bridge V) (t : Turn) :
    (b.heartbeat t heartbeatS).sends = b.sends ++ b.heartbeatSends heartbeatS t := by
  unfold heartbeat heartbeatSends
  simp only [send_eq, ge_iff_le, ← not_lt]
  split_ifs <;> simp

omit [DecidableEq V] in
theorem lastRaw_heartbeat (b : Bridge V) (t : Turn) :
    (b.heartbeat t heartbeatS).lastRaw = b.lastRaw := by
  unfold heartbeat
  simp only [send_eq]
  split_ifs <;> rfl

omit [DecidableEq V] in
theorem lastHeartbeat_heartbeat (b : Bridge V) (t : Turn) :
    (b.heartbeat t heartbeatS).lastHeartbeat =
      if t.now - b.lastHeartbeat < heartbeatS then b.lastHeartbeat
      else if b.accepts t.heartbeatSend then t.now else b.lastHeartbeat := by
  unfold heartbeat
  simp only [send_eq, ge_iff_le, ← not_lt, ite_not]
  split_ifs <;> rfl

variable (b : Bridge V) (t : Turn) (d : Dict V)

theorem sends_publish :
    (b.publish t d).sends = b.sends ++ b.accountSends t d := by
  unfold publish accountSends
  simp only [send_eq, ne_eq, ite_not, eq_comm]
  split_ifs <;> simp

theorem lastRaw_publish :
    (b.publish t d).lastRaw =
      if b.lastRaw ≠ some (sortKeys d) ∧ b.accepts t.accountSend then some (sortKeys d)
      else b.lastRaw := by
  unfold publish
  simp only [send_eq, ne_eq, ite_not, eq_comm, ite_and]
  split_ifs <;> rfl

theorem lastHeartbeat_publish : (b.publish t d).lastHeartbeat = b.lastHeartbeat := by
  unfold publish
  simp only [send_eq]
  split_ifs <;> rfl

end Bridge

/-! ## Events, seen from outside -/

/-- The dictionary that a turn reads. -/
def Turn.reads (t : Turn) : Option (Dict V) :=
  match readStateFile loads t.file with
  | some (.dict d) => some d
  | _ => none

/-- A turn that ends the process. -/
def Turn.raises (t : Turn) : Bool :=
  match readStateFile loads t.file with
  | none | some .value => true
  | _ => false

/-- What is handed to `send`, and what it returns. -/
def newSends (b : Bridge V) (e : Event) : List (Frame V × Bool) :=
  ((step loads heartbeatS b e).elim [] Bridge.sends).drop b.sends.length

/-- A frame of a kind is sent. -/
def Delivers (kind : Kind) (b : Bridge V) (e : Event) : Prop :=
  ∃ f ∈ newSends loads heartbeatS b e, f.1.kind = kind ∧ f.2 = true

instance (kind : Kind) (b : Bridge V) (e : Event) :
    Decidable (Delivers loads heartbeatS kind b e) :=
  inferInstanceAs (Decidable (∃ f ∈ newSends loads heartbeatS b e, f.1.kind = kind ∧ f.2 = true))

/-- What an event says about the dictionary that the slot has: it was sent, or the bridge
knows nothing of it any more. -/
def tells (b : Bridge V) : Event → Option (Option (Dict V))
  | .restart => some none
  | .turn t =>
      match t.reads loads with
      | none => some none
      | some d =>
          if Delivers loads heartbeatS .account b (.turn t) then some (some (sortKeys d)) else none

/-- What an event says about the time of the last heartbeat. -/
def beats (b : Bridge V) : Event → Option ℚ
  | .restart => some 0
  | .turn t =>
      if t.raises loads then some 0
      else if Delivers loads heartbeatS .startup b (.turn t) then some t.now
      else none

/-- In a run, the dictionary `d` was the last one to be sent, the file could be read ever
since, and the process has gone on. -/
def Published (es : List Event) (d : Dict V) : Prop :=
  LastWrote (step loads heartbeatS) (tells loads heartbeatS) {} es (some (sortKeys d))

/-- In a run, `x` is the time of the last heartbeat that was sent, or zero for a process
without one.  `time.monotonic` counts from the start of the machine, so that a process that was
restarted, and knows of no heartbeat, sends one in its first turn. -/
def Beat (es : List Event) (x : ℚ) : Prop :=
  LastWrote (step loads heartbeatS) (beats loads heartbeatS) {} es x ∨
    (Unwritten (step loads heartbeatS) (beats loads heartbeatS) {} es ∧ (0 : ℚ) = x)

section Turns

variable {loads heartbeatS} {t : Turn} {d : Dict V} (b : Bridge V)

/-- A turn that reads a dictionary publishes it, and then comes the heartbeat. -/
theorem step_reads (h : t.reads loads = some d) :
    step loads heartbeatS b (.turn t) = some ((b.publish t d).heartbeat t heartbeatS) := by
  unfold Turn.reads at h
  split at h
  · next d' heq =>
      obtain rfl := Option.some.inj h
      simp [step, Bridge.iterate, heq]
  · cases h

/-- A turn that raises is a restart. -/
theorem step_raises (h : t.raises loads = true) :
    step loads heartbeatS b (.turn t) = some b.restart := by
  unfold Turn.raises at h
  split at h
  · next heq => simp [step, Bridge.iterate, heq]
  · next heq => simp [step, Bridge.iterate, heq]
  · cases h

/-- A turn without a dictionary forgets. -/
theorem step_nothing (hreads : t.reads loads = none) (hraises : t.raises loads = false) :
    step loads heartbeatS b (.turn t) =
      some ({ b with lastRaw := none }.heartbeat t heartbeatS) := by
  unfold Turn.reads at hreads
  unfold Turn.raises at hraises
  cases hread : readStateFile loads t.file with
  | none => simp [hread] at hraises
  | some r =>
      cases r with
      | nothing => simp [step, Bridge.iterate, hread]
      | dict d => simp [hread] at hreads
      | value => simp [hread] at hraises

variable (loads heartbeatS) in
@[simp] theorem newSends_restart : newSends loads heartbeatS b .restart = [] := by
  simp [newSends, step, Bridge.restart]

theorem newSends_raises (h : t.raises loads = true) :
    newSends loads heartbeatS b (.turn t) = [] := by
  rw [newSends, step_raises b h]
  simp [Bridge.restart]

theorem newSends_nothing (hreads : t.reads loads = none) (hraises : t.raises loads = false) :
    newSends loads heartbeatS b (.turn t) =
      { b with lastRaw := none }.heartbeatSends heartbeatS t := by
  rw [newSends, step_nothing b hreads hraises, Option.elim_some, Bridge.sends_heartbeat]
  exact List.drop_left

theorem newSends_reads (h : t.reads loads = some d) :
    newSends loads heartbeatS b (.turn t) =
      b.accountSends t d ++ (b.publish t d).heartbeatSends heartbeatS t := by
  rw [newSends, step_reads b h, Option.elim_some, Bridge.sends_heartbeat, Bridge.sends_publish,
    List.append_assoc]
  exact List.drop_left

omit [DecidableEq V] in
theorem mem_heartbeatSends {b : Bridge V} {f : Frame V × Bool}
    (h : f ∈ b.heartbeatSends heartbeatS t) : f.1.kind = .startup := by
  unfold Bridge.heartbeatSends at h
  split at h
  · cases h
  · rw [List.mem_singleton.mp h]

theorem mem_accountSends {b : Bridge V} {f : Frame V × Bool} (h : f ∈ b.accountSends t d) :
    f.1.kind = .account := by
  unfold Bridge.accountSends at h
  split at h
  · cases h
  · rw [List.mem_singleton.mp h]

/-- A dictionary is sent when it is not the one that is remembered. -/
theorem delivers_account_iff (h : t.reads loads = some d) :
    Delivers loads heartbeatS .account b (.turn t) ↔
      b.lastRaw ≠ some (sortKeys d) ∧ b.accepts t.accountSend = true := by
  unfold Delivers
  rw [newSends_reads b h]
  constructor
  · rintro ⟨f, hf, hkind, hok⟩
    rcases List.mem_append.mp hf with hf | hf
    · unfold Bridge.accountSends at hf
      split at hf
      · cases hf
      · next hne =>
          rw [List.mem_singleton.mp hf] at hok
          exact ⟨hne, hok⟩
    · rw [mem_heartbeatSends hf] at hkind
      cases hkind
  · rintro ⟨hne, hok⟩
    refine ⟨(⟨.account, dataOf d, t.accountTs⟩, b.accepts t.accountSend),
      List.mem_append_left _ ?_, rfl, hok⟩
    rw [Bridge.accountSends, if_neg hne]
    exact List.mem_singleton_self _

omit [DecidableEq V] in
/-- A heartbeat is sent when the last one is long ago. -/
theorem delivers_heartbeatSends {b : Bridge V} :
    (∃ f ∈ b.heartbeatSends heartbeatS t, f.1.kind = .startup ∧ f.2 = true) ↔
      ¬ t.now - b.lastHeartbeat < heartbeatS ∧ b.accepts t.heartbeatSend = true := by
  unfold Bridge.heartbeatSends
  split_ifs with hlate <;> simp [hlate]

theorem delivers_startup_reads (h : t.reads loads = some d) :
    Delivers loads heartbeatS .startup b (.turn t) ↔
      ¬ t.now - b.lastHeartbeat < heartbeatS ∧
        (b.publish t d).accepts t.heartbeatSend = true := by
  rw [← Bridge.lastHeartbeat_publish b t d, ← delivers_heartbeatSends]
  unfold Delivers
  rw [newSends_reads b h]
  constructor
  · rintro ⟨f, hf, hkind, hok⟩
    rcases List.mem_append.mp hf with hf | hf
    · rw [mem_accountSends hf] at hkind
      cases hkind
    · exact ⟨f, hf, hkind, hok⟩
  · rintro ⟨f, hf, hf'⟩
    exact ⟨f, List.mem_append_right _ hf, hf'⟩

end Turns

/-! ## What the bridge remembers -/

section Memory

variable {loads heartbeatS} {b b' : Bridge V} {e : Event}

/-- `last_raw` after an event. -/
theorem lastRaw_step (h : step loads heartbeatS b e = some b') :
    b'.lastRaw = (tells loads heartbeatS b e).getD b.lastRaw := by
  cases e with
  | restart =>
      obtain rfl := Option.some.inj h
      rfl
  | turn t =>
      cases hreads : t.reads loads with
      | some d =>
          rw [step_reads b hreads] at h
          obtain rfl := Option.some.inj h
          simp only [tells, hreads]
          rw [Bridge.lastRaw_heartbeat, Bridge.lastRaw_publish]
          simp only [delivers_account_iff b hreads]
          split_ifs <;> rfl
      | none =>
          simp only [tells, hreads, Option.getD_some]
          cases hraises : t.raises loads with
          | true =>
              rw [step_raises b hraises] at h
              obtain rfl := Option.some.inj h
              rfl
          | false =>
              rw [step_nothing b hreads hraises] at h
              obtain rfl := Option.some.inj h
              exact Bridge.lastRaw_heartbeat _ _ _

/-- `last_heartbeat` after an event. -/
theorem lastHeartbeat_step (h : step loads heartbeatS b e = some b') :
    b'.lastHeartbeat = (beats loads heartbeatS b e).getD b.lastHeartbeat := by
  cases e with
  | restart =>
      obtain rfl := Option.some.inj h
      rfl
  | turn t =>
      cases hraises : t.raises loads with
      | true =>
          rw [step_raises b hraises] at h
          obtain rfl := Option.some.inj h
          simp [beats, hraises, Bridge.restart]
      | false =>
          simp only [beats, hraises, Bool.false_eq_true, if_false]
          cases hreads : t.reads loads with
          | some d =>
              rw [step_reads b hreads] at h
              obtain rfl := Option.some.inj h
              rw [Bridge.lastHeartbeat_heartbeat, Bridge.lastHeartbeat_publish]
              simp only [delivers_startup_reads b hreads]
              split_ifs <;> simp_all
          | none =>
              have hdelivers : Delivers loads heartbeatS .startup b (.turn t) ↔
                  ¬ t.now - b.lastHeartbeat < heartbeatS ∧
                    b.accepts t.heartbeatSend = true := by
                unfold Delivers
                rw [newSends_nothing b hreads hraises]
                exact delivers_heartbeatSends
              rw [step_nothing b hreads hraises] at h
              obtain rfl := Option.some.inj h
              rw [Bridge.lastHeartbeat_heartbeat]
              simp only [hdelivers]
              have haccepts : Bridge.accepts { b with lastRaw := none } t.heartbeatSend =
                  b.accepts t.heartbeatSend := rfl
              rw [haccepts]
              split_ifs <;> simp_all

/-- **`last_raw` is what the run says was published.** -/
theorem lastRaw_eq_some_iff {es : List Event} (h : run (step loads heartbeatS) {} es = some b)
    (d : Dict V) : b.lastRaw = some (sortKeys d) ↔ Published loads heartbeatS es d := by
  have hlaw : ∀ s e t, step loads heartbeatS s e = some t →
      Bridge.lastRaw t = (tells loads heartbeatS s e).getD (Bridge.lastRaw s) :=
    fun s e t hs => lastRaw_step hs
  have hregister := register_eq_iff hlaw h (some (sortKeys d))
  rw [hregister, Published]
  exact or_iff_left fun hnone => nomatch hnone.2

/-- **`last_heartbeat` is the time of the last heartbeat of the run.** -/
theorem lastHeartbeat_iff {es : List Event} (h : run (step loads heartbeatS) {} es = some b)
    (x : ℚ) : b.lastHeartbeat = x ↔ Beat loads heartbeatS es x := by
  have hlaw : ∀ s e t, step loads heartbeatS s e = some t →
      Bridge.lastHeartbeat t = (beats loads heartbeatS s e).getD (Bridge.lastHeartbeat s) :=
    fun s e t hs => lastHeartbeat_step hs
  exact register_eq_iff hlaw h x

end Memory

/-! ## The law of a turn -/

/-- What a turn sends after a run.

The clauses follow the branches of the loop: a file that ends the process, one that cannot be
read, one with a dictionary, and the heartbeat, which comes last and whatever was read.  What
decides is said in terms of the run and not of the variables of the loop (`Published`, `Beat`),
so that the law can be checked against what was sent before. -/
structure TurnLaw (es : List Event) (b : Bridge V) (t : Turn) : Prop where
  /-- A turn that ends the process sends nothing. -/
  raised : t.raises loads = true → newSends loads heartbeatS b (.turn t) = []
  /-- Without a dictionary no account is sent. -/
  unread : t.reads loads = none →
    ∀ f ∈ newSends loads heartbeatS b (.turn t), f.1.kind = .startup
  /-- A dictionary is sent without `ts`, once, unless it was the last one to be sent. -/
  account : ∀ d, t.reads loads = some d →
    (Published loads heartbeatS es d ∧
      (newSends loads heartbeatS b (.turn t)).filter (·.1.kind = .account) = []) ∨
    (¬ Published loads heartbeatS es d ∧
      (newSends loads heartbeatS b (.turn t)).filter (·.1.kind = .account) =
        [(⟨.account, dataOf d, t.accountTs⟩, b.accepts t.accountSend)])
  /-- A heartbeat is sent, once, when the last one is long enough ago. -/
  startup : t.raises loads = false → ∀ x, Beat loads heartbeatS es x →
    ((newSends loads heartbeatS b (.turn t)).filter (·.1.kind = .startup)).map Prod.fst =
      if t.now - x < heartbeatS then [] else [⟨.startup, [], t.heartbeatTs⟩]

section Law

variable {loads heartbeatS} {t : Turn} {d : Dict V} {b : Bridge V}

theorem filter_account_reads (h : t.reads loads = some d) :
    (newSends loads heartbeatS b (.turn t)).filter (·.1.kind = .account) =
      b.accountSends t d := by
  rw [newSends_reads b h, List.filter_append, List.filter_eq_self.mpr, List.filter_eq_nil_iff.mpr,
    List.append_nil]
  · intro f hf
    simp [mem_heartbeatSends hf]
  · intro f hf
    simp [mem_accountSends hf]

/-- The heartbeat of a turn does not depend on what else it sends. -/
theorem filter_startup (h : t.raises loads = false) :
    ((newSends loads heartbeatS b (.turn t)).filter (·.1.kind = .startup)).map Prod.fst =
      if t.now - b.lastHeartbeat < heartbeatS then [] else [⟨.startup, [], t.heartbeatTs⟩] := by
  cases hreads : t.reads loads with
  | none =>
      rw [newSends_nothing b hreads h, List.filter_eq_self.mpr]
      · simp only [Bridge.heartbeatSends]
        split_ifs <;> rfl
      · intro f hf
        simp [mem_heartbeatSends hf]
  | some d =>
      rw [newSends_reads b hreads, List.filter_append, List.filter_eq_nil_iff.mpr,
        List.nil_append, List.filter_eq_self.mpr]
      · simp only [Bridge.heartbeatSends, Bridge.lastHeartbeat_publish]
        split_ifs <;> rfl
      · intro f hf
        simp [mem_heartbeatSends hf]
      · intro f hf
        simp [mem_accountSends hf]

/-- **What the bridge sends**: after every run of turns and restarts. A report is sent when the
file has changed and shows an account, and a heartbeat when one is due; a send that fails is tried
again in the next turn. -/
theorem turnLaw_of_run {es : List Event} (h : run (step loads heartbeatS) {} es = some b)
    (t : Turn) : TurnLaw loads heartbeatS es b t where
  raised hraises := newSends_raises b hraises
  unread hreads f hf := by
    cases hraises : t.raises loads with
    | true =>
        rw [newSends_raises b hraises] at hf
        cases hf
    | false =>
        rw [newSends_nothing b hreads hraises] at hf
        exact mem_heartbeatSends hf
  account d hreads := by
    rw [filter_account_reads hreads, ← lastRaw_eq_some_iff h, Bridge.accountSends]
    by_cases hlast : b.lastRaw = some (sortKeys d)
    · exact .inl ⟨hlast, if_pos hlast⟩
    · exact .inr ⟨hlast, if_neg hlast⟩
  startup hraises x hx := by
    rw [filter_startup hraises, (lastHeartbeat_iff h x).mpr hx]

/-- A state file. -/
def sampleText : Text := "\x7b\"balance\":5,\"ts\":1\x7d"

/-- `json.loads`, for that file. -/
def sampleLoads (text : Text) : Loaded ℕ :=
  if text = sampleText then .dict [("balance", 5), ("ts", 1)] else .malformed

/-- A turn that reads it. -/
def sampleTurn (now : ℚ) : Turn :=
  ⟨now, some (encode (sampleText ++ ['\r', '\n'])), ⟨true, true⟩, 0, ⟨true, true⟩, 0⟩

/-- The second turn finds what the first one sent. -/
theorem sampleTurn_law : ∃ b : Bridge ℕ,
    run (step sampleLoads 30) {} [.turn (sampleTurn 31)] = some b ∧
      TurnLaw sampleLoads 30 [.turn (sampleTurn 31)] b (sampleTurn 32) ∧
      b.sends = [(⟨.account, [("balance", 5)], 0⟩, true), (⟨.startup, [], 0⟩, true)] ∧
      newSends sampleLoads 30 b (.turn (sampleTurn 32)) = [] :=
  ⟨_, rfl, turnLaw_of_run rfl _, by decide +kernel, by decide +kernel⟩

end Law

end AkronSlot.Slot.StateBridge
