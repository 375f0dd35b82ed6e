import AkronSlot.Slot.LastWrites
import AkronSlot.Wire.Utf8

/-!
# The validator (`validator.ts`)

`POST /v1/sync` and `POST /internal/sync` schedule a validation of accounts they have read
from the table.  A validation that begins takes the time, decrypts the credentials and
calls `connect`; when that call returns it stores `active`, and when the decryption throws
it stores `error`.  What it stores it stores blindly, under the id of the row it was
scheduled with.  Other writers update the status of an account in between: the reconciler,
and whoever disables an account.

The decryption is a parameter: the plaintext, or the message of what it throws.

## Where a validation waits

`runValidation` has one `await` that matters, that of `connect`. Up to it a validation runs in
one go, and behind it in another; between them it is in the list `validations`, with the number
of its call of `connect`. The loop of `connect` itself sleeps and looks again, which is why a
call can take many turns (`resume`), each of which either goes on waiting or is the last one.

## Main Definitions

* `StoredAccount`, `StatusUpdate`, `AccountTable`
* `Validation`, `Validator`
* `sync`, `internalSync`, `runValidation`, `resume`
* `ValidatorEvent`, `step`
-/

namespace AkronSlot.Slot

open Wire Systems Mt5Connector

/-! ## The accounts table -/

/-- `AccountRow` with the columns that a validation reads and writes. -/
structure StoredAccount extends AccountRow where
  encryptedCreds : Bytes
  lastValidationTs : Option ℤ := none
  lastError : Option Text := none
  updatedAt : ℤ

/-- The parameters of the statement of `updateStatus`. The row is found by the tenant and the id,
and by nothing that has changed since it was read. -/
structure StatusUpdate where
  tenantId : Text
  id : Text
  status : AccountStatus
  lastValidationTs : Option ℤ
  lastError : Option Text
  updatedAt : ℤ

/-- What the statement makes of a row. -/
def StatusUpdate.write (u : StatusUpdate) (row : StoredAccount) : StoredAccount :=
  if row.id = u.id ∧ row.tenantId = u.tenantId then
    { row with
      status := u.status
      lastValidationTs := u.lastValidationTs
      lastError := u.lastError
      updatedAt := u.updatedAt }
  else row

@[simp] theorem StatusUpdate.write_id (u : StatusUpdate) (row : StoredAccount) :
    (u.write row).id = row.id := by
  unfold write
  split <;> rfl

@[simp] theorem StatusUpdate.write_tenantId (u : StatusUpdate) (row : StoredAccount) :
    (u.write row).tenantId = row.tenantId := by
  unfold write
  split <;> rfl

/-- The table `accounts`; `id` is its primary key. -/
structure AccountTable where
  rows : List StoredAccount := []
  nodup_ids : (rows.map (·.id)).Nodup := by simp

namespace AccountTable

/-- The row of an id. -/
def get (T : AccountTable) (id : Text) : Option StoredAccount := T.rows.find? (·.id = id)

/-- `list`. -/
def list (T : AccountTable) (tenantId : Text) : List StoredAccount :=
  (T.rows.filter (·.tenantId = tenantId)).mergeSort fun a b => b.createdAt ≤ a.createdAt

/-- `updateStatus`. -/
def updateStatus (T : AccountTable) (u : StatusUpdate) : AccountTable where
  rows := T.rows.map u.write
  nodup_ids := by
    have hids : (T.rows.map u.write).map (·.id) = T.rows.map (·.id) := by
      rw [List.map_map]
      exact List.map_congr_left fun row _ => u.write_id row
    rw [hids]
    exact T.nodup_ids

/-- An update writes the row of every id in its place. -/
@[simp] theorem get_updateStatus (T : AccountTable) (u : StatusUpdate) (id : Text) :
    (T.updateStatus u).get id = (T.get id).map u.write := by
  have hsame : (fun row : StoredAccount => decide (row.id = id)) ∘ u.write =
      fun row : StoredAccount => decide (row.id = id) := by
    funext row
    simp
  rw [get, updateStatus, List.find?_map, hsame, get]

theorem id_of_get {T : AccountTable} {id : Text} {row : StoredAccount} (h : T.get id = some row) :
    row.id = id := by simpa using List.find?_some h

/-- A row is the row of its id. -/
theorem get_of_mem {T : AccountTable} {row : StoredAccount} (h : row ∈ T.rows) :
    T.get row.id = some row := find?_key T.nodup_ids h

/-- The rows of a tenant. -/
theorem mem_list {T : AccountTable} {tenantId : Text} {row : StoredAccount} :
    row ∈ T.list tenantId ↔ row ∈ T.rows ∧ row.tenantId = tenantId := by
  rw [list, (List.mergeSort_perm _ _).mem_iff, List.mem_filter]
  simp

end AccountTable

/-! ## Validations -/

/-- A validation that has begun: the row it was scheduled with, the time of its beginning,
the call of `connect` it waits for, and what it has stored. -/
structure Validation where
  account : StoredAccount
  now : ℤ
  call : Option ℕ := none
  verdict : Option StatusUpdate := none

/-- `deps`, as far as a validation reads them. -/
structure ValidatorDeps where
  tenantId : Text
  decrypt : Text → Bytes → Except Text Text
  numberText : Numeral → Text

/-- The slot: `scheduled` are the accounts in the queue of `setImmediate`, `validations`
those that have begun, in the order in which they did. -/
structure Validator where
  table : AccountTable
  connector : Mt5Connector := Mt5Connector.initial
  scheduled : List StoredAccount := []
  validations : List Validation := []

/-- The slot when it starts. -/
def Validator.start (T : AccountTable) : Validator := { table := T }

/-- What can happen next. A validation that waits for its login goes on at an event of its own, so
validations overlap, and other writers of the table come in between. -/
inductive ValidatorEvent where
  /-- `POST /v1/sync`. -/
  | sync
  /-- `POST /internal/sync`. -/
  | internalSync
  /-- The validation that was scheduled first begins. -/
  | runValidation (now : ℤ)
  /-- A sleep in the wait loop of a validation's call of `connect` is over. -/
  | slept (i : ℕ)
  /-- The time of that call is over. -/
  | timedOut (i : ℕ)
  | disconnect (ref : Text)
  | loggedOut (j : ℕ)
  | frame (f : Frame) (now : ℚ)
  /-- Another writer updates a status. -/
  | updateStatus (u : StatusUpdate)

namespace Validator

/-- `validateAccount`. -/
def validateAccount (s : Validator) (account : StoredAccount) : Validator :=
  { s with scheduled := s.scheduled ++ [account] }

/-- A validation stores its verdict. -/
def finish (s : Validator) (i : ℕ) (u : StatusUpdate) : Validator :=
  { s with
    table := s.table.updateStatus u
    validations := s.validations.modify i fun v => { v with verdict := some u } }

/-- The call of `connect` that a validation waits for. -/
def callOf (s : Validator) (i : ℕ) : Option ConnectCall :=
  ((s.validations[i]?).bind (·.call)).bind fun j => s.connector.connects[j]?

section Steps

variable (deps : ValidatorDeps)

/-- What a validation stores when `connect` has returned. -/
def activeUpdate (v : Validation) : StatusUpdate where
  tenantId := deps.tenantId
  id := v.account.id
  status := .active
  lastValidationTs := some v.now
  lastError := none
  updatedAt := v.now

/-- What a validation stores when something is thrown. -/
def errorUpdate (v : Validation) (message : Text) : StatusUpdate where
  tenantId := deps.tenantId
  id := v.account.id
  status := .error
  lastValidationTs := none
  lastError := some message
  updatedAt := v.now

/-- The handler of `POST /v1/sync`: the newest row, whatever its status is. -/
def sync (s : Validator) : Validator :=
  match (s.table.list deps.tenantId).head? with
  | none => s
  | some row => s.validateAccount row

/-- The handler of `POST /internal/sync`: the rows that are not disabled. -/
def internalSync (s : Validator) : Validator :=
  ((s.table.list deps.tenantId).filter (·.status ≠ .disabled)).foldl validateAccount s

/-- A validation after `await connect`: it goes on when the call has returned. -/
def afterConnect (s : Validator) (i : ℕ) : Validator :=
  match s.validations[i]? with
  | none => s
  | some v => if (s.callOf i).any (·.returned) then s.finish i (activeUpdate deps v) else s

/-- `runValidation` of the account that was scheduled first, up to its first `await`. When the
decryption throws, it ends here, with an error. -/
def runValidation (s : Validator) (now : ℤ) : Option Validator :=
  match s.scheduled with
  | [] => none
  | account :: scheduled =>
      match deps.decrypt deps.tenantId account.encryptedCreds with
      | .error message =>
          let v : Validation := { account, now }
          let s' := { s with scheduled, validations := s.validations ++ [v] }
          some (s'.finish s.validations.length (errorUpdate deps v message))
      | .ok _ =>
          let v : Validation := { account, now, call := some s.connector.connects.length }
          let connector := s.connector.connect (credsOf account.toAccountRow)
          let s' := { s with scheduled, connector, validations := s.validations ++ [v] }
          some (s'.afterConnect deps s.validations.length)

/-- The connector takes a step. -/
def onConnector (s : Validator) (e : Mt5Connector.Event) : Option Validator :=
  (s.connector.step deps.numberText (s.table.rows.map (·.toAccountRow)) e).map fun connector =>
    { s with connector }

/-- The wait loop of a validation's call takes a turn. When the call returns, the validation goes
on in the same step, as nothing can come in between. -/
def resume (s : Validator) (i : ℕ) (turn : ℕ → Mt5Connector.Event) : Option Validator :=
  ((s.validations[i]?).bind (·.call)).bind fun j =>
    (s.onConnector deps (turn j)).map fun s' => s'.afterConnect deps i

/-- The slot takes a step. -/
def step (s : Validator) : ValidatorEvent → Option Validator
  | .sync => some (s.sync deps)
  | .internalSync => some (s.internalSync deps)
  | .runValidation now => s.runValidation deps now
  | .slept i => s.resume deps i .slept
  | .timedOut i => s.resume deps i .timedOut
  | .disconnect ref => s.onConnector deps (.disconnect ref)
  | .loggedOut j => s.onConnector deps (.loggedOut j)
  | .frame f now => s.onConnector deps (.frame f now)
  | .updateStatus u => some { s with table := s.table.updateStatus u }

end Steps

end Validator

end AkronSlot.Slot
