import AkronSlot.Slot.Frames
import AkronSlot.Systems.Runs

/-!
# The login detector (`login-detector.ts`)

A tick asks `wmctrl` for the windows of the terminal, decides whether somebody is logged
in, and when that has changed records it, writes the state file and publishes an account
event.  It waits twice: for the probe, and after a login for `onTransition`.  An interval,
`setImmediate` and `refresh()` start ticks, so that several can be in flight; they share
`prev` and `forcePublish`.

What `wmctrl` prints, or the message of its failure, comes with the event that settles a
probe, and so does whether the write of the state file succeeds.  The detector has the TCP
server to publish to.

## Regular expressions by hand

The patterns of the source are few and small, and each is a function on texts here, with the
pattern in its docstring. They are translated for the titles they can meet: a title is what is
left of a line once it is cut at blanks, so it has a word and single blanks.

## A tick in two halves

A tick stops at each of its awaits, and others run meanwhile. So it is no function but a place
in a list: `beginTick` puts it there, `probed` and `notified` take it on, and the variables they
share are fields of the detector.

## Main Definitions

* `probeLogin`, `parseAccountTitle` — what the window titles say
* `LoginDetector` with `startLoginDetector`, `probed`, `notified`
* `Event`, `step`
-/

namespace AkronSlot.Slot

open Wire Systems

/-! ## Window titles -/

/-- The blanks of `\s` and `trim`. -/
def isBlank (c : Char) : Bool :=
  c = ' ' || (decide (9 ≤ c.toNat) && decide (c.toNat ≤ 13)) ||
    c.toNat ∈ [0xA0, 0x1680, 0x2028, 0x2029, 0x202F, 0x205F, 0x3000, 0xFEFF] ||
    (decide (0x2000 ≤ c.toNat) && decide (c.toNat ≤ 0x200A))

def trim (t : Text) : Text := ((t.dropWhile isBlank).reverse.dropWhile isBlank).reverse

/-- The words of `t.trim().split(/\s+/)`. -/
def words (t : Text) : List Text := (t.splitOnP isBlank).filter (· ≠ [])

/-- What follows a prefix. -/
def afterPrefix : Text → Text → Option Text
  | [], t => some t
  | _ :: _, [] => none
  | c :: p, d :: t => if c = d then afterPrefix p t else none

/-- A text with its ASCII letters in lower case. -/
def lowerCase (t : Text) : Text := t.map Char.toLower

/-- `\w`. -/
def isWordChar (c : Char) : Bool := c.isAlphanum || c = '_'

/-- `^<p>\b`, for a prefix that ends with a word character. -/
def startsWithWord (p t : Text) : Bool :=
  (afterPrefix p t).any fun rest => rest.head?.all fun c => !isWordChar c

/-- `/^Login\b|^MetaTrader 5 - Login\b|^\s*Login\s*$/i`. -/
def isLoginTitle (title : Text) : Bool :=
  startsWithWord "login" (lowerCase title) ||
    startsWithWord "metatrader 5 - login" (lowerCase title) ||
    trim (lowerCase title) = "login".toList

/-- The three patterns of a title after login. -/
def isAccountTitle (title : Text) : Bool :=
  (afterPrefix "MetaTrader 5" title).isSome || title.contains ':' ||
    (afterPrefix "account:" (lowerCase title)).any fun rest => rest.head?.any isBlank

/-- What a title says about the account. -/
structure TitleAccount where
  login : Option Text := none
  server : Option Text := none
  deriving DecidableEq

/-- `\d{4,}`: the digits that a text starts with, and the rest. -/
def loginDigits (t : Text) : Option (Text × Text) :=
  if 4 ≤ (t.takeWhile Char.isDigit).length then
    some (t.takeWhile Char.isDigit, t.dropWhile Char.isDigit)
  else none

/-- `([A-Za-z][\w-]*?)\s*:`. -/
def serverName : Text → Option Text
  | [] => none
  | c :: t =>
      let inName : Char → Bool := fun c => isWordChar c || c = '-'
      if c.isAlpha ∧ ((t.dropWhile inName).dropWhile isBlank).head? = some ':' then
        some (c :: t.takeWhile inName)
      else none

/-- `/^(\d{4,})\s*-\s*([A-Za-z][\w-]*?)\s*:/`. -/
def loginAndServer (title : Text) : Option TitleAccount := do
  let (login, rest) ← loginDigits title
  let rest ← afterPrefix ['-'] (rest.dropWhile isBlank)
  let server ← serverName (rest.dropWhile isBlank)
  return ⟨some login, some server⟩

/-- `parseAccountTitle`. -/
def parseAccountTitle (title : Text) : TitleAccount :=
  match loginAndServer title with
  | some account => account
  | none =>
      match afterPrefix "account:" (lowerCase title) with
      | none => {}
      | some rest => { login := (loginDigits (rest.dropWhile isBlank)).map Prod.fst }

example : parseAccountTitle "32324375 - Deriv-Server-02: Real Account - Hedge" =
    ⟨some "32324375", some "Deriv-Server-02"⟩ := by decide

/-- The loop of `probeLogin` over the windows; `mt5Windows` of them were the terminal's.
A title has a word at least, and none is kept for the fallback: the loop returns at the
first one that it would keep. -/
def scanWindows : ℕ → List Text → Bool × Option TitleAccount
  | mt5Windows, [] => (decide (2 ≤ mt5Windows), none)
  | mt5Windows, line :: lines =>
      let parts := words line
      let title := [' '].intercalate (parts.drop 4)
      if parts.length < 5 then scanWindows mt5Windows lines
      else if find "terminal64.exe" (lowerCase (parts.getD 2 [])) = none then
        scanWindows mt5Windows lines
      else if isLoginTitle title then (false, none)
      else if isAccountTitle title then (true, some (parseAccountTitle title))
      else scanWindows (mt5Windows + 1) lines

/-- `probeLogin`: a probe that fails reports that nobody is logged in. -/
def probeLogin : Except Text Text → Bool × Option TitleAccount
  | .error _ => (false, none)
  | .ok stdout => scanWindows 0 ((stdout.splitOn '\n').filter fun line => trim line ≠ [])

/-! ## The state file -/

inductive SlotState where
  | pendingLogin | operational | unknown
  deriving DecidableEq, Repr

/-- The state that is recorded for a login and for a logout. -/
def SlotState.ofBool (loggedIn : Bool) : SlotState :=
  if loggedIn then .operational else .pendingLogin

/-- `readSlotState`; no text is no file, which counts as a slot that waits for a login. Anything
but the two words that the detector writes is unknown. -/
def readSlotState : Option Text → SlotState
  | none => .pendingLogin
  | some text =>
      if trim text = "operational".toList then .operational
      else if trim text = "pending_login".toList then .pendingLogin
      else .unknown

/-! ## The detector -/

/-- `prev`, the login state that the detector has recorded. It is unknown until a probe has
settled, unless the state file tells of a login. -/
inductive LoginState where
  | unknown | loggedOut | loggedIn
  deriving DecidableEq, Repr

/-- `loggedIn ? 'logged_in' : 'logged_out'`. -/
def LoginState.ofBool (loggedIn : Bool) : LoginState := if loggedIn then .loggedIn else .loggedOut

/-- What is written to the state file. -/
def stateText (loggedIn : Bool) : Text := if loggedIn then "operational\n" else "pending_login\n"

/-- The event that is published; empty texts are left out. -/
def transitionEvent (loggedIn : Bool) (account : Option TitleAccount) : Json :=
  let member (key : Text) (text : Option Text) : List (Text × Json) :=
    match text with
    | none | some [] => []
    | some t => [(key, .str t)]
  .obj [("type", .str "event"), ("kind", .str "account"),
    ("data", .obj (("logged_in", .bool loggedIn) ::
      (member "login" (account.bind (·.login)) ++ member "server" (account.bind (·.server)))))]

/-- A tick: it waits for its probe, or after a login for `onTransition`, or is over. Several can
be under way at once, since the interval does not wait for the one before. -/
inductive Tick where
  | probing
  | notifying (account : Option TitleAccount)
  | done
  deriving DecidableEq

/-- The detector: `immediates` are the ticks in the queue of `setImmediate`, `ticks` those
that have begun. -/
structure LoginDetector where
  stateFile : Option Text
  prev : LoginState := .unknown
  forcePublish : Bool := false
  stopped : Bool := false
  immediates : ℕ := 0
  ticks : List Tick := []
  published : List Json := []

namespace LoginDetector

/-- `startLoginDetector`. -/
def startLoginDetector (stateFile : Option Text) : LoginDetector :=
  if readSlotState stateFile = .operational then
    { stateFile, prev := .loggedIn, immediates := 1, published := [transitionEvent true none] }
  else { stateFile, immediates := 1 }

/-- `tick`, up to its probe. -/
def beginTick (s : LoginDetector) : LoginDetector :=
  if s.stopped then s else { s with ticks := s.ticks ++ [.probing] }

/-- A transition, or a publication that was asked for. `prev` is set when a transition is
recorded, before anybody is told of it. -/
def Due (s : LoginDetector) (next : LoginState) : Prop := next ≠ s.prev ∨ s.forcePublish = true

instance decidableDue (s : LoginDetector) (next : LoginState) : Decidable (s.Due next) :=
  inferInstanceAs (Decidable (_ ∨ _))

/-- `tick`, after its probe; `written` says whether the state file can be written. A write that
fails throws after `prev` was set, and the tick is over. -/
def probed (s : LoginDetector) (i : ℕ) (probe : Bool × Option TitleAccount) (written : Bool) :
    LoginDetector :=
  if s.Due (.ofBool probe.1) then
    let s := { s with forcePublish := false, prev := .ofBool probe.1 }
    match probe.1, written with
    | true, true =>
        { s with
          stateFile := some (stateText true)
          ticks := s.ticks.set i (.notifying probe.2) }
    | true, false => { s with ticks := s.ticks.set i .done }
    | false, written =>
        { s with
          stateFile := if written then some (stateText false) else s.stateFile
          ticks := s.ticks.set i .done
          published := s.published ++ [transitionEvent false none] }
  else { s with ticks := s.ticks.set i .done }

/-- `tick`, after `onTransition`. -/
def notified (s : LoginDetector) (i : ℕ) (account : Option TitleAccount) : LoginDetector :=
  { s with
    ticks := s.ticks.set i .done
    published := s.published ++ [transitionEvent true account] }

/-- What can happen next. -/
inductive Event where
  /-- The interval timer goes off. -/
  | interval
  /-- A tick in the queue of `setImmediate` gets its turn. -/
  | immediate
  | refresh
  /-- The probe of a tick settles. -/
  | probed (i : ℕ) (wmctrl : Except Text Text) (written : Bool)
  /-- The `onTransition` of a tick settles. -/
  | notified (i : ℕ)
  | stop

/-- The detector takes a step. -/
def step (s : LoginDetector) : Event → Option LoginDetector
  | .interval => if s.stopped then none else some s.beginTick
  | .immediate =>
      if s.immediates = 0 then none
      else some { s with immediates := s.immediates - 1 }.beginTick
  | .refresh => some { s with forcePublish := true, immediates := s.immediates + 1 }
  | .probed i wmctrl written =>
      if s.ticks[i]? = some .probing then some (s.probed i (probeLogin wmctrl) written) else none
  | .notified i =>
      match s.ticks[i]? with
      | some (.notifying account) => some (s.notified i account)
      | _ => none
  | .stop => some { s with stopped := true }

/-- No tick is in flight: none waits for its probe or for `onTransition`. -/
def Quiet (s : LoginDetector) : Prop := ∀ t ∈ s.ticks, t = .done

instance decidableQuiet (s : LoginDetector) : Decidable s.Quiet :=
  List.decidableBAll (fun t => t = Tick.done) s.ticks

/-- The `logged_in` of an event. -/
def loggedInOf (event : Json) : Option Bool :=
  ((event.get "data").bind fun data => data.get "logged_in").bind asBoolean

end LoginDetector

end AkronSlot.Slot
