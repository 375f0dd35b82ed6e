import AkronSlot.Systems.Dedup
import AkronSlot.Systems.Runs
import AkronSlot.Wire.Text

/-!
# The account publisher (`services/mt5-account-publisher.py`)

The publisher polls the terminal and sends a frame when what it observes has changed.  It
compares with `last_sent`, which has the shape of the frame for account data and for a
logout but not for an initialisation that fails; a failed send leaves it as it is.

What the outside does in an iteration of the loop is a `Reading`.

## Two layers

`Systems.Dedup` has the abstract sender: it is offered observations, hands on those that differ
from the last one it delivered, and tries again what failed. The loop of the publisher does not
look like that: it has three branches with three ways to compare, a heartbeat that also sends,
and a variable that is read with a key in one branch and as a whole in another. `Follows`
connects the two by what was attempted and what `last_sent` holds, and `Follows.iterate` is the
simulation of one iteration by one turn of the abstract sender; the law is then read off the
abstract sender.

## The shape of `last_sent`

For account data and for a logout `last_sent` is the data of the frame. For an initialisation
that fails it is a dictionary that only this branch compares with. Different observations leave
different dictionaries (`Observation.kept_injective`), so that a comparison in any of the
branches is one of observations.

## Main Definitions

* `SlotClient.send`, `normalizeAccount`, `tryInitMt5`, `iterate`
* `observed` — what an iteration observes
* `Follows` — the publisher is a sender that does not repeat itself
* `PublisherLaw`

## Main Results

* `Follows.iterate`
* `publisherLaw_of_readings`
-/

namespace AkronSlot.Slot.AccountPublisher

open Wire Systems Systems.Dedup

/-! ## Data -/

/-- The values in the dictionaries of the publisher. -/
inductive PyValue where
  | bool (b : Bool)
  | int (n : ℤ)
  | str (t : Text)
  | float (x : ℚ)
  deriving DecidableEq

/-- A dictionary, with its keys in the order of insertion.  Two dictionaries that the
publisher compares have their common keys in the same order. -/
abbrev PyDict := List (Text × PyValue)

/-- `d.get(key)`. -/
def PyDict.get (d : PyDict) (key : Text) : Option PyValue := d.lookup key

inductive Kind where
  | account
  | startup
  deriving DecidableEq

/-- A frame: its kind, its data and its time. -/
structure Frame where
  kind : Kind
  data : PyDict
  ts : ℤ

/-- What `mt5.account_info()` returns; an attribute is `none` where it is missing or `None`, which
`getattr` with a default treats alike. -/
structure AccountInfo where
  login : Option ℤ
  server : Option Text
  balance : Option ℚ
  equity : Option ℚ

/-- `normalize_account`. -/
def normalizeAccount (info : AccountInfo) : PyDict :=
  [("logged_in", .bool true),
    ("login", .int (info.login.getD 0)),
    ("server", .str (info.server.getD "")),
    ("balance", .float (info.balance.getD 0)),
    ("equity", .float (info.equity.getD 0))]

/-- The environment variables that the loop decides by, and whether MetaTrader5 can be
imported. -/
structure Config where
  hasMt5 : Bool
  initRetrySecs : ℚ
  initTimeoutSecs : ℚ
  maxNoneStreak : ℤ

/-- What an iteration of the loop can read: the monotonic clock at its beginning and after
an account reading that failed, what comes of `mt5.initialize()` (an error is an exception
anywhere in its `try`) and of `mt5.account_info()`, whether a connection to the slot is
made and whether `sendall` succeeds, and the time of a frame. -/
structure Reading where
  now : ℚ
  restartedAt : ℚ
  initialized : Except Unit Bool
  accountInfo : Except Unit (Option AccountInfo)
  connects : Bool
  sendall : Bool
  ts : ℤ

/-! ## The connection to the slot -/

/-- A client: whether it has a socket, and what was handed to `send` with what it returned. -/
structure SlotClient where
  sock : Bool
  sends : List (Frame × Bool)

/-- `SlotClient.send`. -/
def SlotClient.send (client : SlotClient) (r : Reading) (payload : Frame) : SlotClient × Bool :=
  if !client.sock && !r.connects then (⟨false, client.sends ++ [(payload, false)]⟩, false)
  else if r.sendall then (⟨true, client.sends ++ [(payload, true)]⟩, true)
  else (⟨false, client.sends ++ [(payload, false)]⟩, false)

/-- What `send` returns. -/
def SlotClient.accepts (client : SlotClient) (r : Reading) : Bool :=
  (client.sock || r.connects) && r.sendall

theorem SlotClient.send_result (client : SlotClient) (r : Reading) (payload : Frame) :
    (client.send r payload).2 = client.accepts r := by
  unfold send accepts
  cases client.sock <;> cases r.connects <;> cases r.sendall <;> rfl

theorem SlotClient.sends_send (client : SlotClient) (r : Reading) (payload : Frame) :
    (client.send r payload).1.sends = client.sends ++ [(payload, client.accepts r)] := by
  unfold send accepts
  cases client.sock <;> cases r.connects <;> cases r.sendall <;> rfl

/-! ## The loop -/

/-- The variables of `loop`. What an iteration reads, it reads from its observation, so a run is a
list of these. -/
structure Publisher where
  mt5Ready : Bool
  noneStreak : ℤ
  client : SlotClient
  lastSent : Option PyDict
  initStartedAt : ℚ
  lastHeartbeat : ℚ

/-- The publisher before its loop. -/
def start (startedAt : ℚ) : Publisher := ⟨false, 0, ⟨false, []⟩, none, startedAt, 0⟩

/-- `try_init_mt5`. -/
def tryInitMt5 (cfg : Config) (r : Reading) : Bool :=
  cfg.hasMt5 &&
    match r.initialized with
    | .ok ok => ok
    | .error _ => false

namespace Publisher

variable (cfg : Config) (s : Publisher) (r : Reading)

/-- Send an account frame, and keep a dictionary when that succeeds. -/
def publish (data kept : PyDict) : Publisher :=
  let sent := s.client.send r ⟨.account, data, r.ts⟩
  { s with client := sent.1, lastSent := if sent.2 then some kept else s.lastSent }

/-- `last_sent is None or last_sent.get(key) != value` does not hold. -/
def lastSays (key : Text) (value : PyValue) : Bool :=
  match s.lastSent with
  | none => false
  | some d => d.get key = some value

/-- The message for the time that has gone by without MetaTrader5. -/
def errMsg : Text :=
  if r.now - s.initStartedAt > cfg.initTimeoutSecs then "mt5-init-timeout"
  else "mt5-init-pending"

/-- An iteration in which `try_init_mt5` failed. -/
def initFailed : Publisher :=
  if r.now - s.lastHeartbeat ≥ cfg.initRetrySecs then
    let message := s.errMsg cfg r
    let next :=
      if s.lastSays "last_error" (.str message) then s
      else s.publish r [("logged_in", .bool false), ("last_error", .str message)]
        [("last_error", .str message)]
    { next with lastHeartbeat := r.now }
  else s

/-- `mt5.shutdown()`, and the initialisation starts again. -/
def restart : Publisher := { s with mt5Ready := false, initStartedAt := r.restartedAt }

/-- An iteration in which `mt5.account_info()` was `None`. -/
def noAccount : Publisher :=
  let s := { s with noneStreak := s.noneStreak + 1 }
  let next :=
    if s.lastSays "logged_in" (.bool false) then s
    else s.publish r [("logged_in", .bool false)] [("logged_in", .bool false)]
  if next.noneStreak ≥ cfg.maxNoneStreak then { next.restart r with noneStreak := 0 } else next

/-- An iteration with account data. -/
def account (info : AccountInfo) : Publisher :=
  let s := { s with noneStreak := 0 }
  let data := normalizeAccount info
  if some data ≠ s.lastSent then s.publish r data data else s

/-- An iteration with MetaTrader5. -/
def pollAccount : Publisher :=
  match r.accountInfo with
  | .error _ => s.restart r
  | .ok none => s.noAccount cfg r
  | .ok (some info) => s.account r info

/-- The heartbeat of a publisher without MetaTrader5. -/
def heartbeat : Publisher :=
  if r.now - s.lastHeartbeat ≥ 30 then
    let sent := s.client.send r ⟨.startup, [], r.ts⟩
    { s with client := sent.1, lastHeartbeat := if sent.2 then r.now else s.lastHeartbeat }
  else s

/-- One iteration of `loop`. -/
def iterate : Publisher :=
  let initialising := cfg.hasMt5 && !s.mt5Ready
  if initialising && !tryInitMt5 cfg r then s.initFailed cfg r
  else
    let s := if initialising then { s with mt5Ready := true } else s
    if cfg.hasMt5 && s.mt5Ready then s.pollAccount cfg r else s.heartbeat r

end Publisher

/-! ## Observations -/

/-- The account that the publisher tells of, with the defaults of what is missing. -/
@[ext] structure Account where
  login : ℤ
  server : Text
  balance : ℚ
  equity : ℚ
  deriving DecidableEq

/-- What an iteration can observe. -/
inductive Observation where
  | account (a : Account)
  | loggedOut
  | initError (message : Text)
  deriving DecidableEq

/-- What a frame says of an observation. -/
def Observation.said : Observation → PyDict
  | account a =>
      [("logged_in", .bool true), ("login", .int a.login), ("server", .str a.server),
        ("balance", .float a.balance), ("equity", .float a.equity)]
  | loggedOut => [("logged_in", .bool false)]
  | initError message => [("logged_in", .bool false), ("last_error", .str message)]

/-- What the publisher keeps of it. -/
def Observation.kept : Observation → PyDict
  | initError message => [("last_error", .str message)]
  | o => o.said

/-- The account data in what `mt5.account_info()` returns. -/
def AccountInfo.account (info : AccountInfo) : Account where
  login := info.login.getD 0
  server := info.server.getD ""
  balance := info.balance.getD 0
  equity := info.equity.getD 0

theorem normalizeAccount_eq (info : AccountInfo) :
    normalizeAccount info = (Observation.account info.account).said := rfl

theorem Observation.said_injective : Function.Injective said := by
  intro o o' h
  cases o <;> cases o' <;> simp_all [said, Account.ext_iff]

theorem Observation.kept_injective : Function.Injective kept := by
  intro o o' h
  cases o <;> cases o' <;> simp_all [kept, said, Account.ext_iff]

/-- `last_error` is kept of an initialisation that failed, and of nothing else. -/
theorem Observation.get_lastError (o : Observation) (message : Text) :
    o.kept.get "last_error" = some (.str message) ↔ o = initError message := by
  cases o <;> simp [kept, said, PyDict.get, List.lookup]

/-- `logged_in` is kept as `False` of a logout, and of nothing else. -/
theorem Observation.get_loggedIn (o : Observation) :
    o.kept.get "logged_in" = some (.bool false) ↔ o = loggedOut := by
  cases o <;> simp [kept, said, PyDict.get, List.lookup]

/-- What is observed in what `mt5.account_info()` returns. -/
def Reading.observed (r : Reading) : Option Observation :=
  match r.accountInfo with
  | .error _ => none
  | .ok none => some .loggedOut
  | .ok (some info) => some (.account info.account)

namespace Publisher

/-- What an iteration observes; an initialisation that fails counts when its message is due. The
heartbeat observes nothing: it is sent whatever was sent before. -/
def observed (cfg : Config) (s : Publisher) (r : Reading) : Option Observation :=
  if cfg.hasMt5 then
    if !s.mt5Ready && !tryInitMt5 cfg r then
      if r.now - s.lastHeartbeat ≥ cfg.initRetrySecs then some (.initError (s.errMsg cfg r))
      else none
    else r.observed
  else none

/-- The data of the account frames handed to `send`, with what it returned. -/
def accountSends (s : Publisher) : List (PyDict × Bool) :=
  (s.client.sends.filter (·.1.kind = .account)).map fun sent => (sent.1.data, sent.2)

/-- The publisher behaves as a sender that does not repeat itself: what it has handed to `send`
are the attempts, and `last_sent` holds the latest one that succeeded. -/
structure Follows (s : Publisher) (attempts : List (Observation × Bool)) : Prop where
  sends : s.accountSends = attempts.map (Prod.map Observation.said id)
  lastSent : s.lastSent = (latest attempts).map Observation.kept

section Iteration

variable {cfg : Config} {s : Publisher} {attempts : List (Observation × Bool)}

theorem accountSends_publish (s : Publisher) (r : Reading) (data kept : PyDict) :
    (s.publish r data kept).accountSends = s.accountSends ++ [(data, s.client.accepts r)] := by
  simp [publish, accountSends, SlotClient.sends_send]

theorem lastSent_publish (s : Publisher) (r : Reading) (data kept : PyDict) :
    (s.publish r data kept).lastSent = if s.client.accepts r then some kept else s.lastSent := by
  rw [publish, SlotClient.send_result]

theorem Follows.publish (h : s.Follows attempts) (r : Reading) (o : Observation) :
    (s.publish r o.said o.kept).Follows (attempts ++ [(o, s.client.accepts r)]) := by
  constructor
  · rw [accountSends_publish, h.sends, List.map_append]
    rfl
  · rw [lastSent_publish, h.lastSent, latest_append]
    split <;> rfl

/-- An observation is told unless it is what was told last. -/
theorem Follows.tell (h : s.Follows attempts) (r : Reading) (o : Observation) {told : Bool}
    (htold : told = true ↔ latest attempts = some o) :
    (if told then s else s.publish r o.said o.kept).Follows
      (offer attempts o (s.client.accepts r)) := by
  by_cases hlast : latest attempts = some o
  · rw [if_pos (htold.mpr hlast), offer_of_eq hlast]
    exact h
  · rw [if_neg (mt htold.mp hlast), offer_of_ne hlast]
    exact h.publish r o

theorem Follows.restart (h : s.Follows attempts) (r : Reading) : (s.restart r).Follows attempts :=
  ⟨h.sends, h.lastSent⟩

/-- What was kept has a value for a key exactly when that is what the observation says. -/
theorem Follows.lastSays_iff (h : s.Follows attempts) {key : Text} {value : PyValue}
    {o : Observation} (hget : ∀ o' : Observation, o'.kept.get key = some value ↔ o' = o) :
    s.lastSays key value = true ↔ latest attempts = some o := by
  rw [lastSays, h.lastSent]
  cases latest attempts with
  | none => simp
  | some o' => simp [hget]

theorem Follows.maxNoneStreak (h : s.Follows attempts) (r : Reading) :
    (if s.noneStreak ≥ cfg.maxNoneStreak then { s.restart r with noneStreak := 0 }
      else s).Follows attempts := by
  split
  · exact ⟨h.sends, h.lastSent⟩
  · exact h

theorem Follows.initFailed (h : s.Follows attempts) (r : Reading) :
    (s.initFailed cfg r).Follows
      (poll attempts (if r.now - s.lastHeartbeat ≥ cfg.initRetrySecs
        then some (.initError (s.errMsg cfg r)) else none) (s.client.accepts r)) := by
  rw [Publisher.initFailed]
  split
  · have htold := h.tell r (.initError (s.errMsg cfg r))
      (h.lastSays_iff fun o => o.get_lastError (s.errMsg cfg r))
    exact ⟨htold.sends, htold.lastSent⟩
  · exact h

theorem Follows.noAccount (h : s.Follows attempts) (r : Reading) :
    (s.noAccount cfg r).Follows (offer attempts .loggedOut (s.client.accepts r)) := by
  have hcounted : ({ s with noneStreak := s.noneStreak + 1 } : Publisher).Follows attempts :=
    ⟨h.sends, h.lastSent⟩
  have htold := hcounted.tell r .loggedOut (hcounted.lastSays_iff Observation.get_loggedIn)
  exact htold.maxNoneStreak r

theorem Follows.account (h : s.Follows attempts) (r : Reading) (info : AccountInfo) :
    (s.account r info).Follows
      (offer attempts (.account info.account) (s.client.accepts r)) := by
  have hsame : some (normalizeAccount info) = s.lastSent ↔
      latest attempts = some (.account info.account) := by
    rw [h.lastSent, normalizeAccount_eq, eq_comm]
    exact (Option.map_injective Observation.kept_injective).eq_iff' rfl
  have hcounted : ({ s with noneStreak := 0 } : Publisher).Follows attempts :=
    ⟨h.sends, h.lastSent⟩
  rw [Publisher.account]
  by_cases hlast : latest attempts = some (.account info.account)
  · rw [if_neg (not_not.mpr (hsame.mpr hlast)), offer_of_eq hlast]
    exact hcounted
  · rw [if_pos (mt hsame.mp hlast), offer_of_ne hlast]
    exact hcounted.publish r (.account info.account)

theorem Follows.heartbeat (h : s.Follows attempts) (r : Reading) :
    (s.heartbeat r).Follows attempts := by
  unfold Publisher.heartbeat
  split
  · refine ⟨?_, h.lastSent⟩
    rw [← h.sends]
    simp [accountSends, SlotClient.sends_send]
  · exact h

theorem Follows.pollAccount (h : s.Follows attempts) (r : Reading) :
    (s.pollAccount cfg r).Follows (poll attempts r.observed (s.client.accepts r)) := by
  unfold Publisher.pollAccount Reading.observed
  match r.accountInfo with
  | .error _ => exact h.restart r
  | .ok none => exact h.noAccount r
  | .ok (some info) => exact h.account r info

/-- **One iteration is one turn** of a sender that does not repeat itself. -/
theorem Follows.iterate (h : s.Follows attempts) (r : Reading) :
    (s.iterate cfg r).Follows (poll attempts (s.observed cfg r) (s.client.accepts r)) := by
  have hbegun : ({ s with mt5Ready := true } : Publisher).Follows attempts :=
    ⟨h.sends, h.lastSent⟩
  unfold Publisher.iterate observed
  cases hmt5 : cfg.hasMt5 with
  | false => exact h.heartbeat r
  | true =>
      cases hready : s.mt5Ready with
      | true =>
          simpa [hready] using h.pollAccount r
      | false =>
          cases hinit : tryInitMt5 cfg r with
          | false => exact h.initFailed r
          | true => exact hbegun.pollAccount r

end Iteration

/-! ## Runs -/

variable (cfg : Config)

/-- The publisher after some iterations of its loop. -/
def loop (s : Publisher) (readings : List Reading) : Publisher :=
  readings.foldl (fun s r => s.iterate cfg r) s

/-- The data of the account frames that were sent. -/
def accountFrames (s : Publisher) : List PyDict := delivered s.accountSends

/-- The account frames that an iteration hands to `send`. -/
def attempted (s : Publisher) (r : Reading) : List (PyDict × Bool) :=
  (s.iterate cfg r).accountSends.drop s.accountSends.length

/-- What holds of a publisher and of its next iterations: no frame is sent twice in a row;
what an iteration observes is what was sent last, unless a send fails in it; and what
failed is attempted when it is observed again. -/
structure PublisherLaw (s : Publisher) : Prop where
  distinct : s.accountFrames.IsChain (· ≠ ·)
  current : ∀ r o, s.observed cfg r = some o → (∀ sent ∈ s.attempted cfg r, sent.2 = true) →
    (s.iterate cfg r).accountFrames.getLast? = some o.said
  retries : ∀ r between r' o, s.observed cfg r = some o → (o.said, false) ∈ s.attempted cfg r →
    Along (fun s r => some (s.iterate cfg r)) (fun s r => s.observed cfg r ≠ some o)
      (s.iterate cfg r) between →
    ((s.iterate cfg r).loop cfg between).observed cfg r' = some o →
    ∃ ok, ((s.iterate cfg r).loop cfg between).attempted cfg r' = [(o.said, ok)]

section Law

variable {cfg : Config} {s : Publisher} {attempts : List (Observation × Bool)} {r : Reading}
  {o : Observation}

theorem Follows.accountFrames (h : s.Follows attempts) :
    s.accountFrames = (delivered attempts).map Observation.said := by
  rw [Publisher.accountFrames, h.sends, delivered_map]

theorem Follows.getLast?_accountFrames (h : s.Follows attempts) :
    s.accountFrames.getLast? = (latest attempts).map Observation.said := by
  rw [h.accountFrames, List.getLast?_map]
  rfl

/-- What was told last is not attempted. -/
theorem Follows.attempted_of_eq (h : s.Follows attempts) (ho : s.observed cfg r = some o)
    (hlast : latest attempts = some o) : s.attempted cfg r = [] := by
  have hnext : (s.iterate cfg r).Follows (poll attempts (s.observed cfg r) _) := h.iterate r
  rw [ho, poll, offer_of_eq hlast] at hnext
  rw [attempted, hnext.sends, h.sends, List.drop_length]

/-- Everything else is. -/
theorem Follows.attempted_of_ne (h : s.Follows attempts) (ho : s.observed cfg r = some o)
    (hlast : latest attempts ≠ some o) :
    s.attempted cfg r = [(o.said, s.client.accepts r)] := by
  have hnext : (s.iterate cfg r).Follows (poll attempts (s.observed cfg r) _) := h.iterate r
  rw [ho, poll, offer_of_ne hlast] at hnext
  rw [attempted, hnext.sends, h.sends, List.map_append, List.drop_left]
  rfl

/-- What an iteration observes was told last, unless a send fails in it. -/
theorem Follows.current (h : s.Follows attempts) (ho : s.observed cfg r = some o)
    (hsent : ∀ sent ∈ s.attempted cfg r, sent.2 = true) :
    (s.iterate cfg r).accountFrames.getLast? = some o.said := by
  have hnext : (s.iterate cfg r).Follows (poll attempts (s.observed cfg r) _) := h.iterate r
  rw [ho] at hnext
  rw [hnext.getLast?_accountFrames]
  by_cases hlast : latest attempts = some o
  · rw [poll, offer_of_eq hlast, hlast]
    rfl
  · have haccepts : s.client.accepts r = true := by
      rw [h.attempted_of_ne ho hlast] at hsent
      exact hsent _ (List.mem_singleton_self _)
    rw [haccepts, poll, offer_of_ne hlast, latest_append]
    rfl

/-- What failed was not told last. -/
theorem Follows.latest_of_failed (h : s.Follows attempts) (ho : s.observed cfg r = some o)
    (hfailed : (o.said, false) ∈ s.attempted cfg r) : ∃ attempts',
      (s.iterate cfg r).Follows attempts' ∧ latest attempts' ≠ some o := by
  have hlast : latest attempts ≠ some o := by
    intro heq
    rw [h.attempted_of_eq ho heq] at hfailed
    exact List.not_mem_nil hfailed
  rw [h.attempted_of_ne ho hlast, List.mem_singleton] at hfailed
  have hrejects : s.client.accepts r = false := (Prod.mk.inj hfailed).2.symm
  refine ⟨_, h.iterate r, ?_⟩
  rw [ho, hrejects, poll, offer_of_ne hlast, latest_append]
  exact hlast

theorem run_loop (s : Publisher) (readings : List Reading) :
    run (fun s r => some (s.iterate cfg r)) s readings = some (s.loop cfg readings) := by
  induction readings generalizing s with
  | nil => rfl
  | cons r readings ih => exact ih (s.iterate cfg r)

/-- What was not told last is not, as long as it is not observed. -/
theorem loop_latest_of_ne {readings : List Reading}
    (halong : Along (fun s r => some (s.iterate cfg r)) (fun s r => s.observed cfg r ≠ some o)
      s readings) (h : s.Follows attempts) (hlast : latest attempts ≠ some o) :
    ∃ attempts', (s.loop cfg readings).Follows attempts' ∧ latest attempts' ≠ some o := by
  have hstep : ∀ (s : Publisher) (r : Reading) (s' : Publisher),
      (∃ attempts, s.Follows attempts ∧ latest attempts ≠ some o) → s.observed cfg r ≠ some o →
      some (s.iterate cfg r) = some s' →
      ∃ attempts, s'.Follows attempts ∧ latest attempts ≠ some o := by
    rintro s r s' ⟨attempts, h, hlast⟩ hne hstep
    obtain rfl := Option.some.inj hstep
    exact ⟨_, h.iterate r, latest_poll_of_ne hlast hne _⟩
  exact run_along_invariant hstep ⟨attempts, h, hlast⟩ halong (run_loop s readings)

theorem Follows.law (h : s.Follows attempts) (hchain : (delivered attempts).IsChain (· ≠ ·)) :
    s.PublisherLaw cfg where
  distinct := by
    rw [h.accountFrames, List.isChain_map]
    exact hchain.imp fun _ _ hne heq => hne (Observation.said_injective heq)
  current _ _ := h.current
  retries r between r' o ho hfailed halong ho' := by
    obtain ⟨attempts', h', hlast⟩ := h.latest_of_failed ho hfailed
    obtain ⟨attempts'', h'', hlast'⟩ := loop_latest_of_ne halong h' hlast
    exact ⟨_, h''.attempted_of_ne ho' hlast'⟩

theorem Follows.start (startedAt : ℚ) : (start startedAt).Follows [] := ⟨rfl, rfl⟩

/-- **The law of the publisher**: after any iterations of its loop. What was sent last is
remembered in one of three shapes, and each reading is compared with the fields of its own shape.
-/
theorem publisherLaw_of_readings (cfg : Config) (startedAt : ℚ) (readings : List Reading) :
    ((AccountPublisher.start startedAt).loop cfg readings).PublisherLaw cfg := by
  have hstep : ∀ (s : Publisher) (r : Reading) (s' : Publisher),
      (∃ attempts, s.Follows attempts ∧ (delivered attempts).IsChain (· ≠ ·)) →
      some (s.iterate cfg r) = some s' →
      ∃ attempts, s'.Follows attempts ∧ (delivered attempts).IsChain (· ≠ ·) := by
    rintro s r s' ⟨attempts, h, hchain⟩ hstep
    obtain rfl := Option.some.inj hstep
    exact ⟨_, h.iterate r, isChain_poll hchain _ _⟩
  obtain ⟨attempts, h, hchain⟩ := run_invariant hstep
    ⟨[], Follows.start startedAt, List.isChain_nil⟩ (run_loop _ readings)
  exact h.law hchain

end Law

end Publisher

end AkronSlot.Slot.AccountPublisher
