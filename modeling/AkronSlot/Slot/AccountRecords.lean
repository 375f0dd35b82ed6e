import AkronSlot.Slot.Trading
import AkronSlot.Systems.Registry
import AkronSlot.Systems.Runs

/-!
# The account records of `Mt5Connector`

`connect`, `disconnect`, `state` and `handleEvent`: the records that the connector
keeps under the references of the accounts, the calls of `connect` that wait for a
login and the events it puts on its bus.  A call of `connect` holds the record it
has found or made and reads it until it is logged in or its time is over; a call of
`disconnect` waits for the answer to its command.  The account of an event is the
one that the TCP server has resolved.

The text of a number is left open, as `numberText`.

## Records are objects

A call of `connect` awaits while others go on, and afterwards it reads the record it had in
hand, not the one that the map has under the reference by then. A `disconnect` in between takes
the record out of the map and leaves the object. So the records are in a `Registry`: the map
gives places, a call of `connect` remembers a place, and the object at a place stays when it is
no longer named.

## What is observable

The events on the bus are kept as a list, the last one last. Who is subscribed to them is the
business of the event streams; here it only matters what is emitted under which reference.

## Main Definitions

* `SessionRecord`, `Mt5Connector`
* `connect`, `disconnect`, `state`, `handleEvent`
* `tcpEvent` — an event frame, from the TCP server on
* `Event`, `step`
-/

namespace AkronSlot.Slot

open Wire Systems

/-! ## Broker events -/

/-- `AccountEvent`. -/
inductive AccountNotice where
  | login
  | logout
  | error (detail : Json)

/-- `Fill`. -/
structure Fill where
  brokerOrderId : Text
  symbol : Text
  qty : ℚ
  price : ℚ
  ts : ℚ

/-- `BrokerEvent`. -/
inductive BrokerEvent where
  | fill (data : Fill)
  | orderState (orderId status : Text)
  | account (data : AccountNotice)

/-! ## The login of an event -/

section StringOf

variable (numberText : Numeral → Text)

mutual

/-- `String(v)`. -/
def stringOf : Json → Text
  | .null => "null"
  | .bool b => if b then "true" else "false"
  | .num n => numberText n
  | .str s => s
  | .arr vs => joined vs
  | .obj _ => "[object Object]"

/-- The elements of an array, with commas between them. -/
def joined : List Json → Text
  | [] => []
  | [v] => elementString v
  | v :: w :: vs => elementString v ++ ',' :: joined (w :: vs)

/-- An element of an array; `null` is empty. -/
def elementString : Json → Text
  | .null => []
  | .bool b => if b then "true" else "false"
  | .num n => numberText n
  | .str s => s
  | .arr vs => joined vs
  | .obj _ => "[object Object]"

end

/-- `evt.data?.login`.  The schemas of the other kinds drop it. -/
def Frame.login : Frame → Option Json
  | .account data _ => data.bind fun ms => (Json.obj ms).get "login"
  | _ => none

/-- The login that the account is resolved by; without one it is empty. -/
def Frame.loginText (f : Frame) : Text := (f.login.map (stringOf numberText)).getD []

end StringOf

/-! ## The connector -/

/-- `BrokerCreds`, without the password. -/
structure BrokerCreds where
  server : Text
  login : Text
  deriving DecidableEq

/-- `refFor`. -/
def refFor (creds : BrokerCreds) : Text :=
  "mt5-".toList ++ (creds.server ++ '-' :: creds.login)

/-- `AccountRecord`, with what the events write. The defaults are those of a record that `connect`
has just made. -/
structure SessionRecord extends AccountRecord where
  ref : Text
  loggedIn : Bool := false
  balance : ℚ := 0
  equity : ℚ := 0
  lastError : Option Text := none

/-- A call of `connect` that has found or made its record; `record` is its place among the
objects. The call goes on polling this record even when the reference has got another one. -/
structure ConnectCall where
  ref : Text
  record : ℕ
  returned : Bool

/-- `AccountState`. -/
structure AccountState where
  accountRef : Text
  loggedIn : Bool
  balance : Option ℚ := none
  equity : Option ℚ := none
  lastError : Option Text := none

/-- The connector.  `logouts` are the references of the `disconnect` calls that wait
for their answer, `bus` the events it has emitted. -/
structure Mt5Connector where
  accounts : Registry Text SessionRecord := {}
  connects : List ConnectCall := []
  logouts : List Text := []
  bus : List (BrokerEvent × Text) := []

namespace Mt5Connector

/-- The connector when the slot starts. -/
def initial : Mt5Connector := {}

/-- `emitToBus`. -/
def emitToBus (s : Mt5Connector) (e : BrokerEvent) (ref : Text) : Mt5Connector :=
  { s with bus := s.bus ++ [(e, ref)] }

/-- The record that `connect` makes. -/
def freshRecord (creds : BrokerCreds) : SessionRecord where
  brokerServer := creds.server
  brokerLogin := creds.login
  ref := refFor creds

/-- `connect` up to its first `await`: it makes a record only if there is none. -/
def connect (s : Mt5Connector) (creds : BrokerCreds) : Mt5Connector :=
  let accounts := s.accounts.createIfAbsent (refFor creds) (freshRecord creds)
  let call : ConnectCall :=
    { ref := refFor creds
      record := (accounts.position (refFor creds)).getD 0
      returned := (accounts.get (refFor creds)).any (·.loggedIn) }
  let s' : Mt5Connector := { s with accounts, connects := s.connects ++ [call] }
  s'.emitToBus (.account .login) (refFor creds)

/-- Whether the record that a call of `connect` holds is logged in. -/
def sees (s : Mt5Connector) (call : ConnectCall) : Bool :=
  (s.accounts.objects[call.record]?).any (·.loggedIn)

/-- `disconnect` up to its first `await`. -/
def disconnect (s : Mt5Connector) (ref : Text) : Mt5Connector :=
  match s.accounts.get ref with
  | none => s
  | some _ => { s with accounts := s.accounts.remove ref, logouts := s.logouts ++ [ref] }

/-- `state`. -/
def state (s : Mt5Connector) (ref : Text) : AccountState :=
  match s.accounts.get ref with
  | none => { accountRef := ref, loggedIn := false, lastError := some "unknown accountRef" }
  | some rec =>
      { accountRef := ref
        loggedIn := rec.loggedIn
        balance := some rec.balance
        equity := some rec.equity
        lastError := rec.lastError }

/-! ## Events -/

/-- A field of the data of an account event, if it is of the type that is checked. -/
def written {α : Type} (schema : Json → Option α) (key : Text) (data : List (Text × Json)) :
    Option α :=
  ((Json.obj data).get key).bind schema

/-- The record of an account once the data of an account event is written. -/
def writeAccount (data : List (Text × Json)) (rec : SessionRecord) : SessionRecord :=
  { rec with
    loggedIn := (written asBoolean "logged_in" data).getD rec.loggedIn
    balance := ((written asNumber "balance" data).map Numeral.value).getD rec.balance
    equity := ((written asNumber "equity" data).map Numeral.value).getD rec.equity
    lastError := (written asString "last_error" data).or rec.lastError }

/-- What an account event tells the subscribers. -/
def accountNotice (data : List (Text × Json)) : Option AccountNotice :=
  match written asBoolean "logged_in" data with
  | some loggedIn => some (if loggedIn then .login else .logout)
  | none =>
      if Json.truthy ((Json.obj data).get "last_error") then
        ((Json.obj data).get "last_error").map .error
      else none

/-- An account event under a reference. Without data the first property access throws, and the TCP
server catches it; so nothing is written and nobody is told. -/
def onAccount (s : Mt5Connector) (ref : Text) (data : Option (List (Text × Json))) : Mt5Connector :=
  match data with
  | none => s
  | some data =>
      let s := { s with accounts := s.accounts.modify ref (writeAccount data) }
      match accountNotice data with
      | none => s
      | some notice => s.emitToBus (.account notice) ref

/-- `handleEvent` under a reference. -/
def handleEventAt (s : Mt5Connector) (ref : Text) (now : ℚ) : Frame → Mt5Connector
  | .fill data ts =>
      s.emitToBus (.fill
        { brokerOrderId := data.brokerOrderId.getD []
          symbol := data.symbol
          qty := ((data.qty.or data.volume).map Numeral.value).getD 0
          price := (data.price.map Numeral.value).getD 0
          ts := (ts.map Numeral.value).getD now }) ref
  | .orderState data _ =>
      s.emitToBus (.orderState ((data.brokerOrderId.or data.orderId).getD []) data.status) ref
  | .account data _ => s.onAccount ref data
  | _ => s

/-- The reference an event is for: that of the resolved account; otherwise that of a record with
the login of the event, or the first one. The last resort means that an event for nobody is given
to whoever connected first. -/
def eventRef (numberText : Numeral → Text) (s : Mt5Connector) (f : Frame)
    (resolved : Option AccountRow) : Option Text :=
  match resolved with
  | some account => some (accountRef "mt5" account)
  | none =>
      (f.login.bind fun login => s.accounts.keyOf fun rec =>
        rec.brokerLogin = stringOf numberText login).or s.accounts.firstKey

/-- `handleEvent`. -/
def handleEvent (numberText : Numeral → Text) (s : Mt5Connector) (f : Frame)
    (resolved : Option AccountRow) (now : ℚ) : Mt5Connector :=
  match s.eventRef numberText f resolved with
  | none => s
  | some ref => s.handleEventAt ref now f

/-- `Mt5TcpServer.handleEvent`, as far as the connector hears of it.  Only an event
frame that is not a start-up reaches `onEvent`, and only with an account. -/
def tcpEvent (numberText : Numeral → Text) (rows : List AccountRow) (s : Mt5Connector) (f : Frame)
    (now : ℚ) : Mt5Connector :=
  match f with
  | .startup _ | .response _ _ _ _ => s
  | f =>
      match resolveAccount rows (f.loginText numberText) with
      | none => s
      | some account => s.handleEvent numberText f (some account) now

/-! ## Steps -/

/-- What can happen next. A call of `connect` or `disconnect` that waits goes on at an event of
its own, and other calls and frames come in between. -/
inductive Event where
  | connect (creds : BrokerCreds)
  /-- A sleep in the loop of a call of `connect` is over. -/
  | slept (j : ℕ)
  /-- The time of a call of `connect` is over. -/
  | timedOut (j : ℕ)
  | disconnect (ref : Text)
  /-- The `logout` command of a call of `disconnect` has been answered. -/
  | loggedOut (j : ℕ)
  | frame (f : Frame) (now : ℚ)

/-- A call of `connect` that has not returned goes on. -/
def onConnect (s : Mt5Connector) (j : ℕ) (returns : ConnectCall → Bool) : Option Mt5Connector :=
  (s.connects[j]?).bind fun call =>
    if call.returned then none
    else some { s with connects := s.connects.set j { call with returned := returns call } }

/-- The connector takes a step. -/
def step (numberText : Numeral → Text) (rows : List AccountRow) (s : Mt5Connector) :
    Event → Option Mt5Connector
  | .connect creds => some (s.connect creds)
  | .slept j => s.onConnect j s.sees
  | .timedOut j => s.onConnect j fun _ => true
  | .disconnect ref => some (s.disconnect ref)
  | .loggedOut j =>
      (s.logouts[j]?).map fun ref =>
        { s with logouts := s.logouts.eraseIdx j }.emitToBus (.account .logout) ref
  | .frame f now => some (s.tcpEvent numberText rows f now)

/-! ## One record -/

section Records

variable (numberText : Numeral → Text) (rows : List AccountRow)

/-- The record that a frame writes, and what it writes. -/
def frameWrites : Frame → Option (Text × List (Text × Json))
  | .account (some data) ts =>
      (resolveAccount rows ((Frame.account (some data) ts).loginText numberText)).map fun account =>
        (accountRef "mt5" account, data)
  | _ => none

/-- What an event does to the record of a reference. It is stated for one reference at a time, so
that what holds of one account does not depend on what the others do. -/
def recordAfter (rec : Option SessionRecord) (ref : Text) : Event → Option SessionRecord
  | .connect creds => if ref = refFor creds then rec.or (some (freshRecord creds)) else rec
  | .disconnect ref' => if ref = ref' then none else rec
  | .frame f _ =>
      match frameWrites numberText rows f with
      | none => rec
      | some (ref', data) => if ref = ref' then rec.map (writeAccount data) else rec
  | _ => rec

theorem accounts_onAccount (s : Mt5Connector) (ref : Text) (data : List (Text × Json)) :
    (s.onAccount ref (some data)).accounts = s.accounts.modify ref (writeAccount data) := by
  unfold onAccount
  dsimp only
  split <;> rfl

/-- What the connector tells its subscribers about an account event. -/
theorem bus_onAccount (s : Mt5Connector) (ref : Text) (data : List (Text × Json)) :
    (s.onAccount ref (some data)).bus =
      s.bus ++ (accountNotice data).toList.map fun n => (.account n, ref) := by
  rw [onAccount]
  cases accountNotice data with
  | none => exact (List.append_nil _).symm
  | some n => rfl

/-- What a frame does to the records. -/
theorem accounts_tcpEvent (s : Mt5Connector) (f : Frame) (now : ℚ) :
    (s.tcpEvent numberText rows f now).accounts =
      match frameWrites numberText rows f with
      | none => s.accounts
      | some (ref, data) => s.accounts.modify ref (writeAccount data) := by
  have hquiet : ∀ f : Frame, (∀ ref, (s.handleEventAt ref now f).accounts = s.accounts) →
      (match resolveAccount rows (f.loginText numberText) with
        | none => s
        | some account => s.handleEvent numberText f (some account) now).accounts =
          s.accounts := by
    intro f hf
    cases resolveAccount rows (f.loginText numberText) with
    | none => rfl
    | some account => exact hf _
  cases f with
  | account data ts =>
      cases data with
      | none => exact hquiet _ fun _ => rfl
      | some data =>
          unfold tcpEvent frameWrites
          dsimp only
          cases resolveAccount rows ((Frame.account (some data) ts).loginText numberText) with
          | none => rfl
          | some account => exact accounts_onAccount _ _ _
  | fill data ts => exact hquiet _ fun _ => rfl
  | orderState data ts => exact hquiet _ fun _ => rfl
  | position data ts => exact hquiet _ fun _ => rfl
  | startup ts => rfl
  | response id ok result error => rfl

/-- **The step lemma**: what each event does to the record of each reference. -/
theorem get_step {s s' : Mt5Connector} {e : Event} (h : s.step numberText rows e = some s')
    (ref : Text) :
    s'.accounts.get ref = recordAfter numberText rows (s.accounts.get ref) ref e := by
  have hconnect : ∀ {j : ℕ} {returns : ConnectCall → Bool}, s.onConnect j returns = some s' →
      s'.accounts = s.accounts := by
    intro j returns h
    obtain ⟨call, -, hcall⟩ := Option.bind_eq_some_iff.mp h
    obtain ⟨-, hs'⟩ := Option.ite_none_left_eq_some.mp hcall
    rw [← Option.some.inj hs']
  cases e with
  | connect creds =>
      obtain rfl := Option.some.inj h
      show (s.accounts.createIfAbsent (refFor creds) (freshRecord creds)).get ref =
        if ref = refFor creds then _ else _
      rw [Registry.get_createIfAbsent]
      split
      · next heq => rw [heq]
      · rfl
  | slept j => rw [hconnect h]; rfl
  | timedOut j => rw [hconnect h]; rfl
  | disconnect ref' =>
      obtain rfl := Option.some.inj h
      show (s.disconnect ref').accounts.get ref = if ref = ref' then _ else _
      cases hrec : s.accounts.get ref' with
      | none =>
          -- a reference without a record
          have hsame : s.disconnect ref' = s := by rw [disconnect, hrec]
          rw [hsame]
          split
          · next heq => rw [heq, hrec]
          · rfl
      | some rec =>
          have hremoved : (s.disconnect ref').accounts = s.accounts.remove ref' := by
            rw [disconnect, hrec]
          rw [hremoved]
          exact Registry.get_remove _ _ _
  | loggedOut j =>
      obtain ⟨ref', -, rfl⟩ := Option.map_eq_some_iff.mp h
      rfl
  | frame f now =>
      obtain rfl := Option.some.inj h
      rw [accounts_tcpEvent, recordAfter]
      cases frameWrites numberText rows f with
      | none => rfl
      | some write =>
          dsimp only
          rw [Registry.get_modify]
          split
          · next heq => rw [heq]
          · rfl

end Records

end Mt5Connector

end AkronSlot.Slot
