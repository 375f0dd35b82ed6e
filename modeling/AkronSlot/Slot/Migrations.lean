import AkronSlot.Wire.Text

/-!
# Migrations (`db/migrate.ts`)

`applyMigrations` walks through the registry, skips what `_migrations` names and runs the
SQL of every other migration together with the row that names it, in one transaction.  A
failure ends the run.  However many runs fail, and wherever, the database has been taken
through a beginning of the registry.

## What the records mean

The names in `_migrations` are what a later run knows of an earlier one, so they have to say
which SQL was committed, and the model keeps both: `committed` is what happened to the database,
`migrations` what it says about itself. One transaction writes to both or to neither, which is
the whole argument; the loop over the registry only has to be seen to try them in order and to
stop at a failure.

## Main Definitions

* `Database`, `transaction`
* `applyMigrations`
* `Through` — the database has been taken through the first migrations
* `MigrationLaw`

## Main Results

* `Through.applyMigrations` — one run
* `migrationLaw_of_runs`
-/

namespace AkronSlot.Slot

open Wire

/-! ## The database -/

/-- `Migration`. -/
structure Migration where
  name : Text
  sql : Text
  deriving DecidableEq

/-- The names in `_migrations`, when the table is there, and the migrations whose SQL has
been committed. -/
structure Database where
  migrations : Option (List Text)
  committed : List Migration

namespace Database

/-- A database file that has just been created. -/
def fresh : Database := ⟨none, []⟩

/-- The recorded names. -/
def names (db : Database) : List Text := db.migrations.getD []

/-- `CREATE TABLE IF NOT EXISTS _migrations`. -/
def createMigrations (db : Database) : Database := { db with migrations := some db.names }

/-- What goes wrong when a migration is applied: its SQL, the insertion of its row, or the commit.
A run may have a failure of its own at every migration. -/
structure Faults where
  sql : Migration → Option Text
  insert : Migration → Option Text
  commit : Migration → Option Text

/-- `db.exec(m.sql)`. -/
def exec (faults : Faults) (m : Migration) (db : Database) : Except Text Database :=
  match faults.sql m with
  | some message => .error message
  | none => .ok { db with committed := db.committed ++ [m] }

/-- `insertStmt.run(m.name, ...)`; the name is a primary key. -/
def insertName (faults : Faults) (m : Migration) (db : Database) : Except Text Database :=
  match faults.insert m with
  | some message => .error message
  | none =>
      if m.name ∈ db.names then .error "UNIQUE constraint failed: _migrations.name"
      else .ok { db with migrations := some (db.names ++ [m.name]) }

/-- A transaction: all of its body, or nothing. What is thrown inside leaves the database as it
was before, and is thrown again. -/
def transaction (db : Database) (body : Database → Except Text Database) :
    Database × Except Text Unit :=
  match body db with
  | .ok db' => (db', .ok ())
  | .error message => (db, .error message)

/-- The transaction of a migration. -/
def migrate (faults : Faults) (m : Migration) (db : Database) : Database × Except Text Unit :=
  transaction db fun db => do
    let db ← db.exec faults m
    let db ← db.insertName faults m
    match faults.commit m with
    | some message => .error message
    | none => return db

/-- The loop of `applyMigrations`; `applied` are the names that it read before. It reads them
once, so that it does not see what it records itself, which distinct names make harmless. -/
def applyPending (faults : Faults) (applied : List Text) :
    List Migration → Database → Database × Except Text (List Text)
  | [], db => (db, .ok [])
  | m :: ms, db =>
      if m.name ∈ applied then applyPending faults applied ms db
      else
        match db.migrate faults m with
        | (db, .error message) => (db, .error message)
        | (db, .ok ()) =>
            let rest := applyPending faults applied ms db
            (rest.1, rest.2.map (m.name :: ·))

/-- `applyMigrations`. -/
def applyMigrations (registry : List Migration) (faults : Faults) (db : Database) :
    Database × Except Text (List Text) :=
  let db := db.createMigrations
  applyPending faults db.names registry db

/-! ## One migration -/

section Migrate

variable {faults : Faults} {m : Migration} {db : Database}

/-- A migration that fails leaves the database as it is; otherwise its SQL is committed
and its name recorded. -/
theorem migrate_cases (hname : m.name ∉ db.names) :
    (∃ message, db.migrate faults m = (db, .error message)) ∨
      db.migrate faults m =
        (⟨some (db.names ++ [m.name]), db.committed ++ [m]⟩, .ok ()) := by
  unfold migrate transaction exec insertName
  cases hsql : faults.sql m with
  | some message => exact .inl ⟨message, rfl⟩
  | none =>
      cases hinsert : faults.insert m with
      | some message => exact .inl ⟨message, rfl⟩
      | none =>
          simp only [bind, Except.bind]
          have hnames : m.name ∉ (⟨db.migrations, db.committed ++ [m]⟩ : Database).names := hname
          rw [if_neg hnames]
          cases hcommit : faults.commit m with
          | some message => exact .inl ⟨message, rfl⟩
          | none => exact .inr rfl

end Migrate

/-! ## One run -/

/-- The names of a list of migrations. -/
def namesOf (ms : List Migration) : List Text := ms.map (·.name)

/-- Migrations that have been applied are skipped. -/
theorem applyPending_skip (faults : Faults) {applied : List Text} {ms : List Migration}
    (h : ∀ m ∈ ms, m.name ∈ applied) (rest : List Migration) (db : Database) :
    applyPending faults applied (ms ++ rest) db = applyPending faults applied rest db := by
  induction ms with
  | nil => rfl
  | cons m ms ih =>
      rw [List.forall_mem_cons] at h
      rw [List.cons_append, applyPending, if_pos h.1, ih h.2]

/-- The others are applied in their order, up to the first that fails. -/
theorem applyPending_cases (faults : Faults) {applied : List Text} {ms : List Migration}
    {db : Database} (happlied : ∀ m ∈ ms, m.name ∉ applied) (hnames : ∀ m ∈ ms, m.name ∉ db.names)
    (hdistinct : (namesOf ms).Nodup) : ∃ j ≤ ms.length,
      (applyPending faults applied ms db).1.names = db.names ++ namesOf (ms.take j) ∧
      (applyPending faults applied ms db).1.committed = db.committed ++ ms.take j ∧
      (((applyPending faults applied ms db).2 = .ok (namesOf ms) ∧ j = ms.length) ∨
        ∃ message, (applyPending faults applied ms db).2 = .error message) := by
  induction ms generalizing db with
  | nil => exact ⟨0, le_rfl, (List.append_nil _).symm, (List.append_nil _).symm, .inl ⟨rfl, rfl⟩⟩
  | cons m ms ih =>
      rw [List.forall_mem_cons] at happlied hnames
      obtain ⟨hfirst, hrest⟩ := List.nodup_cons.mp hdistinct
      rw [applyPending, if_neg happlied.1]
      -- a migration that fails ends the run
      rcases @migrate_cases faults m db hnames.1 with ⟨message, hfailed⟩ | hdone
      · rw [hfailed]
        exact ⟨0, Nat.zero_le _, (List.append_nil _).symm, (List.append_nil _).symm,
          .inr ⟨message, rfl⟩⟩
      · rw [hdone]
        dsimp only
        have hnext : ∀ m' ∈ ms, m'.name ∉
            (⟨some (db.names ++ [m.name]), db.committed ++ [m]⟩ : Database).names := by
          intro m' hm' hmem
          rcases List.mem_append.mp hmem with hold | hnew
          · exact hnames.2 m' hm' hold
          · exact hfirst (List.mem_map.mpr ⟨m', hm', List.mem_singleton.mp hnew⟩)
        obtain ⟨j, hj, hjnames, hjcommitted, hresult⟩ := ih happlied.2 hnext hrest
        refine ⟨j + 1, Nat.succ_le_succ hj, ?_, ?_, ?_⟩
        · rw [hjnames]
          exact List.append_assoc ..
        · rw [hjcommitted]
          exact List.append_assoc ..
        · rcases hresult with ⟨hok, hall⟩ | ⟨message, herror⟩
          · exact .inl ⟨by rw [hok]; rfl, by rw [hall]; rfl⟩
          · exact .inr ⟨message, by rw [herror]; rfl⟩

/-- The first `k` migrations of the registry are recorded and committed, and no others. The number
is the whole state of a database as far as migrations go. -/
structure Through (registry : List Migration) (k : ℕ) (db : Database) : Prop where
  le : k ≤ registry.length
  names : db.names = namesOf (registry.take k)
  committed : db.committed = registry.take k

section Run

variable {registry : List Migration} {k : ℕ} {db : Database}

/-- **One run takes the database further through the registry**, to its end when it does
not fail. -/
theorem Through.applyMigrations (h : Through registry k db)
    (hdistinct : (namesOf registry).Nodup) (faults : Faults) :
    ∃ j, Through registry j (applyMigrations registry faults db).1 ∧
      ((∃ message, (Database.applyMigrations registry faults db).2 = .error message) ∨
        ((Database.applyMigrations registry faults db).2 = .ok (namesOf (registry.drop k)) ∧
          j = registry.length)) := by
  have hsplit : namesOf registry = namesOf (registry.take k) ++ namesOf (registry.drop k) := by
    rw [namesOf, namesOf, namesOf, ← List.map_append, List.take_append_drop]
  have hparts := hdistinct
  rw [hsplit, List.nodup_append'] at hparts
  obtain ⟨-, hrest, hdisjoint⟩ := hparts
  have hpending : ∀ m ∈ registry.drop k, m.name ∉ db.createMigrations.names := by
    intro m hm hmem
    have hname : m.name ∈ namesOf (registry.take k) := h.names ▸ hmem
    exact hdisjoint hname (List.mem_map_of_mem hm)
  have happlied : ∀ m ∈ registry.take k, m.name ∈ db.createMigrations.names := by
    intro m hm
    have hname : m.name ∈ namesOf (registry.take k) := List.mem_map_of_mem hm
    exact h.names.symm ▸ hname
  -- what is recorded is the first part of the registry, and it is skipped
  have hrun : Database.applyMigrations registry faults db =
      applyPending faults db.createMigrations.names (registry.drop k) db.createMigrations := by
    rw [Database.applyMigrations]
    have hskip := applyPending_skip faults happlied (registry.drop k) db.createMigrations
    rwa [List.take_append_drop] at hskip
  obtain ⟨j, hj, hnames, hcommitted, hresult⟩ :=
    applyPending_cases faults hpending hpending hrest
  rw [List.length_drop] at hj hresult
  have htake : registry.take (k + j) = registry.take k ++ (registry.drop k).take j :=
    List.take_add
  have hle := h.le
  rw [hrun]
  refine ⟨k + j, ⟨by omega, ?_, ?_⟩, ?_⟩
  · have happend : namesOf (registry.take k ++ (registry.drop k).take j) =
        namesOf (registry.take k) ++ namesOf ((registry.drop k).take j) := List.map_append
    rw [hnames, htake, happend]
    exact congrArg (· ++ _) h.names
  · rw [hcommitted, htake]
    exact congrArg (· ++ _) h.committed
  · rcases hresult with ⟨hok, hall⟩ | herror
    · exact .inr ⟨hok, by omega⟩
    · exact .inl herror

/-- **After a run that does not fail there is nothing left to apply**, whatever would fail. -/
theorem Through.applyMigrations_complete (h : Through registry registry.length db)
    (faults : Faults) :
    Database.applyMigrations registry faults db = (db.createMigrations, .ok []) := by
  have happlied : ∀ m ∈ registry, m.name ∈ db.createMigrations.names := by
    intro m hm
    have hname : m.name ∈ namesOf (registry.take registry.length) := by
      rw [List.take_length]
      exact List.mem_map_of_mem hm
    exact h.names.symm ▸ hname
  have hskip := applyPending_skip faults happlied [] db.createMigrations
  rwa [List.append_nil] at hskip

theorem Through.fresh : Through registry 0 fresh := ⟨Nat.zero_le _, rfl, rfl⟩

/-- **However the runs end**, the database has been taken through a beginning. -/
theorem through_of_runs (hdistinct : (namesOf registry).Nodup) (runs : List Faults) :
    ∃ k, Through registry k
      (runs.foldl (fun db faults => (applyMigrations registry faults db).1) Database.fresh) := by
  induction runs using List.reverseRecOn with
  | nil => exact ⟨0, Through.fresh⟩
  | append_singleton runs faults ih =>
      obtain ⟨k, hk⟩ := ih
      obtain ⟨j, hj, -⟩ := hk.applyMigrations hdistinct faults
      rw [List.foldl_append]
      exact ⟨j, hj⟩

/-! ## All runs -/

/-- What holds of a database after some runs, and of the next ones. The names recorded are a
beginning of the registry, each of their migrations was committed once, and a run that returns
leaves nothing to do. -/
structure MigrationLaw (registry : List Migration) (db : Database) : Prop where
  recorded : db.names <+: namesOf registry
  committed : ∀ m, db.committed.count m = if m ∈ registry ∧ m.name ∈ db.names then 1 else 0
  returns : ∀ faults names, (applyMigrations registry faults db).2 = .ok names →
    (applyMigrations registry faults db).1.names = db.names ++ names
  complete : ∀ faults names, (applyMigrations registry faults db).2 = .ok names →
    ∀ faults', let next := (applyMigrations registry faults db).1
      (applyMigrations registry faults' next).2 = .ok [] ∧
        (applyMigrations registry faults' next).1.names = next.names ∧
        (applyMigrations registry faults' next).1.committed = next.committed

/-- A migration of the beginning is one whose name is recorded. -/
theorem Through.mem_take_iff (h : Through registry k db) (hdistinct : (namesOf registry).Nodup)
    (m : Migration) : m ∈ registry.take k ↔ m ∈ registry ∧ m.name ∈ db.names := by
  rw [h.names]
  constructor
  · exact fun hm => ⟨List.mem_of_mem_take hm, List.mem_map_of_mem hm⟩
  · rintro ⟨hm, hname⟩
    obtain ⟨m', hm', heq⟩ := List.mem_map.mp hname
    obtain rfl := List.inj_on_of_nodup_map hdistinct (List.mem_of_mem_take hm') hm heq
    exact hm'

theorem Through.law (h : Through registry k db) (hdistinct : (namesOf registry).Nodup) :
    MigrationLaw registry db where
  recorded := by
    rw [h.names]
    exact (List.take_prefix k registry).map _
  committed m := by
    have hnodup : (registry.take k).Nodup :=
      hdistinct.of_map.sublist (List.take_sublist k registry)
    rw [h.committed, List.Nodup.count hnodup]
    exact if_congr (h.mem_take_iff hdistinct m) rfl rfl
  returns faults names hok := by
    obtain ⟨j, hj, ⟨message, herror⟩ | ⟨hreturned, rfl⟩⟩ := h.applyMigrations hdistinct faults
    · cases hok.symm.trans herror
    · obtain rfl := Except.ok.inj (hok.symm.trans hreturned)
      rw [hj.names, List.take_length, h.names, namesOf, namesOf, namesOf, ← List.map_append,
        List.take_append_drop]
  complete faults names hok faults' := by
    obtain ⟨j, hj, ⟨message, herror⟩ | ⟨-, rfl⟩⟩ := h.applyMigrations hdistinct faults
    · cases hok.symm.trans herror
    · intro next
      rw [hj.applyMigrations_complete faults']
      exact ⟨rfl, rfl, rfl⟩

/-- **The law of migrations**: of a fresh database after any runs, each of which fails where it
may. A migration and its record are one transaction, so a run that fails leaves a prefix of the
list applied and recorded. -/
theorem migrationLaw_of_runs (hdistinct : (namesOf registry).Nodup) (runs : List Faults) :
    MigrationLaw registry
      (runs.foldl (fun db faults => (applyMigrations registry faults db).1) Database.fresh) := by
  obtain ⟨k, hk⟩ := through_of_runs hdistinct runs
  exact hk.law hdistinct

end Run

/-- Two migrations. -/
def twoMigrations : List Migration :=
  [⟨"0001_init", "CREATE TABLE accounts (id TEXT);"⟩,
    ⟨"0002_slot_state", "CREATE TABLE s (id TEXT);"⟩]

/-- The second one fails. -/
def secondFails : Faults where
  sql m := if m.name = "0002_slot_state" then some "near \"s\": syntax error" else none
  insert _ := none
  commit _ := none

/-- The law after a run that fails. -/
theorem secondFails_law :
    MigrationLaw twoMigrations (applyMigrations twoMigrations secondFails Database.fresh).1 :=
  migrationLaw_of_runs (by decide) [secondFails]

end Database

end AkronSlot.Slot
