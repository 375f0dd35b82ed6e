import AkronSlot.Slot.CommandClient
import AkronSlot.Systems.FirstLeast

/-!
# The accounts table

The rows of `accounts` and the two ways the slot picks one of them.  The trading
routes take the newest row of their tenant (`resolveAccountRef`); events fall
back to the oldest row that is not disabled (`resolveAccount`).

## Two orders in one table

The two queries sort the same column in opposite directions, and only one of them looks at the
tenant or the status. A lower layer of specification says which row each of them finds
(`OldestEnabled`, `NewestOf`, `FirstWithLogin`), with the ties as SQLite breaks them for rows
that come in the order of insertion; the modules on references and attribution compare these
rows and never unfold a query.
-/

namespace AkronSlot.Slot

open Wire Systems

inductive AccountStatus where
  | pendingValidation | validating | active | error | disabled
  deriving DecidableEq, Repr

/-- `AccountRow`, without credentials and validation times: what the two queries and the
references built from a row read. -/
structure AccountRow where
  id : Text
  tenantId : Text
  brokerServer : Text
  brokerLogin : Text
  status : AccountStatus
  createdAt : ℤ
  deriving DecidableEq

/-- The statement `SELECT * FROM accounts WHERE tenant_id = ? ORDER BY created_at DESC`. The sort
is stable, so that rows of one time keep the order of insertion. -/
def listAccounts (rows : List AccountRow) (tenantId : Text) : List AccountRow :=
  (rows.filter (·.tenantId = tenantId)).mergeSort fun a b => b.createdAt ≤ a.createdAt

/-- The fallback `SELECT * FROM accounts WHERE status != 'disabled' ORDER BY created_at ASC
LIMIT 1`. -/
def fallbackAccount (rows : List AccountRow) : Option AccountRow :=
  ((rows.filter (·.status ≠ .disabled)).mergeSort fun a b => a.createdAt ≤ b.createdAt).head?

/-- `resolveAccount` of `app.ts`: the row of a login, or the fallback. The fallback is also taken
when the login is given and no row has it, so that an event of an unknown account is booked on the
oldest one. -/
def resolveAccount (rows : List AccountRow) (brokerLogin : Text) : Option AccountRow :=
  let exact :=
    if brokerLogin.isEmpty then none
    else rows.find? fun a => a.brokerLogin = brokerLogin && a.status ≠ .disabled
  exact.or (fallbackAccount rows)

/-- The rows that are not disabled. -/
def enabledAccounts (rows : List AccountRow) : List AccountRow :=
  rows.filter (·.status ≠ .disabled)

@[simp] theorem resolveAccount_nil (rows : List AccountRow) :
    resolveAccount rows [] = fallbackAccount rows := rfl

/-- The fallback is a row that is not disabled. -/
theorem mem_enabledAccounts_of_fallbackAccount {rows : List AccountRow} {a : AccountRow}
    (h : fallbackAccount rows = some a) : a ∈ enabledAccounts rows := by
  have hmem := List.mem_of_mem_head? h
  exact (List.mergeSort_perm _ _).mem_iff.mp hmem

/-- There is a fallback as soon as some row is not disabled. -/
theorem exists_fallbackAccount {rows : List AccountRow} {a : AccountRow}
    (ha : a ∈ enabledAccounts rows) : ∃ b, fallbackAccount rows = some b := by
  have hmem := (List.mergeSort_perm (enabledAccounts rows)
    fun a b => decide (a.createdAt ≤ b.createdAt)).mem_iff.mpr ha
  exact ⟨_, List.head?_eq_some_head (List.ne_nil_of_mem hmem)⟩

/-- There is no fallback if and only if every row is disabled. -/
theorem fallbackAccount_eq_none_iff {rows : List AccountRow} :
    fallbackAccount rows = none ↔ ∀ a ∈ rows, a.status = .disabled := by
  constructor
  · intro h a ha
    by_contra hstatus
    obtain ⟨b, hb⟩ := exists_fallbackAccount (List.mem_filter.mpr ⟨ha, decide_eq_true hstatus⟩)
    rw [h] at hb
    cases hb
  · intro h
    cases hfallback : fallbackAccount rows with
    | none => rfl
    | some a =>
        have hmem := List.mem_filter.mp (mem_enabledAccounts_of_fallbackAccount hfallback)
        exact absurd (h a hmem.1) (of_decide_eq_true hmem.2)

theorem exists_resolveAccount {rows : List AccountRow} {a : AccountRow}
    (ha : a ∈ enabledAccounts rows) (brokerLogin : Text) :
    ∃ b, resolveAccount rows brokerLogin = some b := by
  obtain ⟨b, hb⟩ := exists_fallbackAccount ha
  rw [resolveAccount, hb]
  exact Option.isSome_iff_exists.mp (by simp)

/-- Only rows that are not disabled are found. -/
theorem mem_enabledAccounts_of_resolveAccount {rows : List AccountRow} {brokerLogin : Text}
    {a : AccountRow} (h : resolveAccount rows brokerLogin = some a) :
    a ∈ enabledAccounts rows := by
  rw [resolveAccount] at h
  rcases Option.or_eq_some_iff.mp h with hexact | ⟨-, hfallback⟩
  · split at hexact
    · cases hexact
    · have hfound := List.find?_some hexact
      rw [Bool.and_eq_true] at hfound
      exact List.mem_filter.mpr ⟨List.mem_of_find?_eq_some hexact, hfound.2⟩
  · exact mem_enabledAccounts_of_fallbackAccount hfallback

/-- A login that only one enabled row has is resolved to that row. -/
theorem resolveAccount_of_distinct {rows : List AccountRow} {a : AccountRow}
    (hdistinct : ((enabledAccounts rows).map (·.brokerLogin)).Nodup)
    (ha : a ∈ enabledAccounts rows) (hlogin : a.brokerLogin ≠ []) :
    resolveAccount rows a.brokerLogin = some a := by
  have henabled := List.mem_filter.mp ha
  cases hfind : rows.find? fun b => b.brokerLogin = a.brokerLogin && b.status ≠ .disabled with
  | none =>
      have hnone := List.find?_eq_none.mp hfind a henabled.1
      rw [Bool.and_eq_true, decide_eq_true_iff] at hnone
      exact absurd ⟨rfl, henabled.2⟩ hnone
  | some b =>
      have hb := List.find?_some hfind
      rw [Bool.and_eq_true, decide_eq_true_iff] at hb
      have hmem : b ∈ enabledAccounts rows :=
        List.mem_filter.mpr ⟨List.mem_of_find?_eq_some hfind, hb.2⟩
      have hsame : b = a := List.inj_on_of_nodup_map hdistinct hmem ha hb.1
      rw [resolveAccount, List.isEmpty_eq_false_iff.mpr hlogin, hfind, hsame]
      rfl

/-! ## What the queries select -/

/-- The oldest row that is not disabled, the first one of several. Rows that were made in the same
millisecond keep their order. -/
def OldestEnabled (rows : List AccountRow) (a : AccountRow) : Prop :=
  FirstLeast (fun a => a.status ≠ .disabled) (fun a b => a.createdAt ≤ b.createdAt) rows a

/-- The newest row of a tenant, the first one of several. -/
def NewestOf (tenantId : Text) (rows : List AccountRow) (a : AccountRow) : Prop :=
  FirstLeast (fun a => a.tenantId = tenantId) (fun a b => b.createdAt ≤ a.createdAt) rows a

/-- The first row that is not disabled with a login. -/
def FirstWithLogin (rows : List AccountRow) (brokerLogin : Text) (a : AccountRow) : Prop :=
  a.status ≠ .disabled ∧ a.brokerLogin = brokerLogin ∧ ∃ front back, rows = front ++ a :: back ∧
    ∀ b ∈ front, b.status ≠ .disabled → b.brokerLogin ≠ brokerLogin

/-- The row that an event with the login of some row finds: the first one with this login that is
not disabled, whatever tenant it belongs to. -/
def FoundBy (rows : List AccountRow) (brokerLogin : Text) (a : AccountRow) : Prop :=
  if brokerLogin = [] then OldestEnabled rows a else FirstWithLogin rows brokerLogin a

theorem fallbackAccount_eq_some_iff {rows : List AccountRow} {a : AccountRow} :
    fallbackAccount rows = some a ↔ OldestEnabled rows a := by
  apply head?_mergeSort_filter_iff
  · intro a b c hab hbc
    simp only [decide_eq_true_eq] at hab hbc ⊢
    exact hab.trans hbc
  · intro a b
    simpa using le_total a.createdAt b.createdAt

theorem head?_listAccounts_eq_some_iff {rows : List AccountRow} {tenantId : Text}
    {a : AccountRow} :
    (listAccounts rows tenantId).head? = some a ↔ NewestOf tenantId rows a := by
  apply head?_mergeSort_filter_iff
  · intro a b c hab hbc
    simp only [decide_eq_true_eq] at hab hbc ⊢
    exact hbc.trans hab
  · intro a b
    simpa using le_total b.createdAt a.createdAt

theorem resolveAccount_eq_some_iff {rows : List AccountRow} {r a : AccountRow}
    (hr : r ∈ enabledAccounts rows) :
    resolveAccount rows r.brokerLogin = some a ↔ FoundBy rows r.brokerLogin a := by
  have henabled := List.mem_filter.mp hr
  by_cases hlogin : r.brokerLogin = []
  · rw [hlogin, resolveAccount_nil, fallbackAccount_eq_some_iff, FoundBy, if_pos rfl]
  · have hfind : ∀ {b}, rows.find? (fun b => b.brokerLogin = r.brokerLogin &&
        b.status ≠ .disabled) = some b ↔ FirstWithLogin rows r.brokerLogin b := by
      intro b
      rw [List.find?_eq_some_iff_append, Bool.and_eq_true, decide_eq_true_iff,
        decide_eq_true_iff]
      constructor
      · rintro ⟨⟨hb, hstatus⟩, front, back, heq, hfront⟩
        refine ⟨hstatus, hb, front, back, heq, ?_⟩
        intro c hc hc' hsame
        simpa [hc', hsame] using hfront c hc
      · rintro ⟨hstatus, hb, front, back, heq, hfront⟩
        refine ⟨⟨hb, hstatus⟩, front, back, heq, ?_⟩
        intro c hc
        by_cases hc' : c.status = .disabled
        · simp [hc']
        · simp [hfront c hc hc']
    rw [FoundBy, if_neg hlogin, ← hfind, resolveAccount, List.isEmpty_eq_false_iff.mpr hlogin]
    cases h : rows.find? fun b => b.brokerLogin = r.brokerLogin && b.status ≠ .disabled with
    | none =>
        have hnone := List.find?_eq_none.mp h r henabled.1
        rw [Bool.and_eq_true, decide_eq_true_iff] at hnone
        exact absurd ⟨rfl, henabled.2⟩ hnone
    | some b => exact Iff.rfl

end AkronSlot.Slot
