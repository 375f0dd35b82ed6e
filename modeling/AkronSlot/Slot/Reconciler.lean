import AkronSlot.Slot.SimPositions
import AkronSlot.Slot.Validator
import AkronSlot.Wire.Double

/-!
# The reconciler (`reconciler.ts`)

A tick asks the broker for the positions of every active account and writes a `lot_drift`
for each of them whose quantity is not that of the ledger.  It walks through the positions
of the broker and compares quantities without their sides.  So it does not see a position
that only the ledger has, and it is wrong about positions on opposite sides.

## The threshold

Quantities are doubles, and so is the `0.1` that a difference is compared with, which is a
little more than a tenth; the difference is rounded before it is compared.  What the claim
of a drift is about are the numbers that the quantities denote (`Drifts`), and the two
comparisons part ways in a narrow band above a tenth, up to `roundedDrift`.  In decimals
this shows as 0.4 against 0.3 being recorded and 0.2 against 0.1 not.

## One instrument at a time

A tick is a loop over accounts, and a turn a loop over the positions of the broker. What it
writes for an instrument depends on the position of each side there and on nothing else, as the
ledger has one position for an instrument and the broker is asked to have one. So the comparison
is settled for a pair of positions that may be absent (`lotDiff_iff`), and the rest carries it
through the loops.

## Main Definitions

* `DriftRow`, `tick`
* `RecordsLotDrifts` — a drift is recorded for the instruments with one, and for no other
* `Comparable` — what the comparison of the tick is right about

## Main Results

* `log_tick`
* `lotDiff_iff` — one instrument
* `recordsLotDrifts_tick_iff`
-/

namespace AkronSlot.Slot.Reconciler

open Wire Systems

/-! ## A tick -/

inductive DriftKind where
  | lotDrift
  | priceDrift
  | brokerReject
  deriving DecidableEq

inductive Severity where
  | warn
  | error
  deriving DecidableEq

/-- What the column `detail` tells: the two quantities and their difference as the source computes
it, or why the positions could not be had. -/
inductive DriftDetail where
  | lots (instrument : Text) (ledger broker diff : ℚ)
  | positionsFailed (message : Text)

/-- The text in the column, with what JavaScript makes of a number and `toFixed(2)` of it. -/
def DriftDetail.text (numberText toFixed2 : ℚ → Text) : DriftDetail → Text
  | lots instrument ledger broker diff =>
      "instrument=".toList ++ instrument ++ " ledger=".toList ++ numberText ledger ++
        " broker=".toList ++ numberText broker ++ " diff=".toList ++ toFixed2 diff
  | positionsFailed message => "positions() failed: ".toList ++ message

/-- `DriftRow`. -/
structure DriftRow where
  accountId : Text
  ts : ℤ
  driftKind : DriftKind
  severity : Severity
  detail : DriftDetail

/-- What the tick reads when it is an account's turn: what `positions()` does with a reference,
what `ledger.positionsFor` returns, and the time. Each turn reads anew, so that the turns of one
tick need not agree. -/
structure Turn where
  positions : Text → Except Text (List SimReport)
  ledgerPos : List LedgerPosition
  now : ℤ

/-- The tables that the tick writes: `accounts` and `reconcile_log`. Rows are only added to the
log, at its end. -/
structure Tables where
  accounts : AccountTable
  log : List DriftRow

/-- The `accountRef` of the tick. -/
def accountRef (r : StoredAccount) : Text :=
  "sim-".toList ++ r.brokerServer ++ "-".toList ++ r.brokerLogin

/-- The difference above which a drift is recorded: the double `0.1`. -/
def maxDrift : ℚ := nearest (1 / 10)

/-- The body of the loop over the positions of the broker. -/
def lotDrift (ledgerPos : List LedgerPosition) (cp : SimReport) : Option DriftDetail :=
  let lp := ledgerPos.find? (·.instrument = cp.instrument)
  let lotDiff :=
    match lp with
    | some lp => |nearest (cp.qty - lp.qty)|
    | none => cp.qty
  if lotDiff > maxDrift then
    some (.lots cp.instrument ((lp.map (·.qty)).getD 0) cp.qty lotDiff)
  else none

/-- `recordDrift`. -/
def recordDrift (S : Tables) (row : DriftRow) : Tables := { S with log := S.log ++ [row] }

/-- One account of the tick. -/
def reconcile (tenantId : Text) (turns : Text → Turn) (S : Tables) (r : StoredAccount) : Tables :=
  let turn := turns r.id
  match turn.positions (accountRef r) with
  | .error message =>
      let S := recordDrift S ⟨r.id, turn.now, .brokerReject, .error, .positionsFailed message⟩
      { S with
        accounts := S.accounts.updateStatus ⟨tenantId, r.id, .error, none, some message, turn.now⟩ }
  | .ok connectorPos =>
      connectorPos.foldl (fun S cp =>
        match lotDrift turn.ledgerPos cp with
        | some detail => recordDrift S ⟨r.id, turn.now, .lotDrift, .warn, detail⟩
        | none => S) S

/-- `tick`; the accounts are read at its beginning. -/
def tick (tenantId : Text) (turns : Text → Turn) (S : Tables) : Tables :=
  (S.accounts.rows.filter (·.status = .active)).foldl (reconcile tenantId turns) S

/-! ## What a tick records -/

/-- The rows that an account's turn adds. -/
def driftRows (turns : Text → Turn) (r : StoredAccount) : List DriftRow :=
  match (turns r.id).positions (accountRef r) with
  | .error message =>
      [⟨r.id, (turns r.id).now, .brokerReject, .error, .positionsFailed message⟩]
  | .ok connectorPos =>
      (connectorPos.filterMap (lotDrift (turns r.id).ledgerPos)).map fun detail =>
        ⟨r.id, (turns r.id).now, .lotDrift, .warn, detail⟩

/-- The loop over the positions only adds rows. -/
theorem log_foldl (ledgerPos : List LedgerPosition) (row : DriftDetail → DriftRow)
    (positions : List SimReport) (S : Tables) :
    (positions.foldl (fun S cp =>
      match lotDrift ledgerPos cp with
      | some detail => recordDrift S (row detail)
      | none => S) S).log = S.log ++ (positions.filterMap (lotDrift ledgerPos)).map row := by
  induction positions generalizing S with
  | nil => exact (List.append_nil _).symm
  | cons cp positions ih =>
      rw [List.foldl_cons, ih]
      cases hdrift : lotDrift ledgerPos cp with
      | none => rw [List.filterMap_cons_none hdrift]
      | some detail =>
          rw [List.filterMap_cons_some hdrift]
          exact List.append_assoc ..

theorem log_reconcile (tenantId : Text) (turns : Text → Turn) (S : Tables) (r : StoredAccount) :
    (reconcile tenantId turns S r).log = S.log ++ driftRows turns r := by
  cases hpositions : (turns r.id).positions (accountRef r) with
  | error message =>
      simp only [reconcile, driftRows, hpositions]
      rfl
  | ok connectorPos =>
      simp only [reconcile, driftRows, hpositions]
      exact log_foldl _ _ connectorPos S

/-- **A tick adds the rows of every turn**, in the order of the accounts. -/
theorem log_tick (tenantId : Text) (turns : Text → Turn) (S : Tables) :
    (tick tenantId turns S).log =
      S.log ++ (S.accounts.rows.filter (·.status = .active)).flatMap (driftRows turns) := by
  rw [tick]
  generalize S.accounts.rows.filter (·.status = .active) = rows
  induction rows generalizing S with
  | nil => exact (List.append_nil _).symm
  | cons r rows ih =>
      rw [List.foldl_cons, ih, log_reconcile, List.flatMap_cons, List.append_assoc]

/-- The rows of a turn name its account. -/
theorem accountId_driftRows {turns : Text → Turn} {r : StoredAccount} {row : DriftRow}
    (h : row ∈ driftRows turns r) : row.accountId = r.id := by
  unfold driftRows at h
  split at h
  · rw [List.mem_singleton.mp h]
  · obtain ⟨detail, -, rfl⟩ := List.mem_map.mp h
    rfl

/-! ## Drift -/

/-- The signed quantity of a position that there may be: negative when it is short, zero
when it is absent. -/
def signedOf : Option (Bool × ℚ) → ℚ
  | some (long, qty) => qty * direction long
  | none => 0

/-- The side and the quantity that the broker has of an instrument. -/
def brokerAt (broker : List SimReport) (instrument : Text) : Option (Bool × ℚ) :=
  (broker.find? (·.instrument = instrument)).map fun p => (p.long, p.qty)

/-- The side and the quantity that the ledger has of it. -/
def ledgerAt (ledger : List LedgerPosition) (instrument : Text) : Option (Bool × ℚ) :=
  (ledger.find? (·.instrument = instrument)).map fun p => (p.long, p.qty)

/-- The signed quantities of an instrument differ by more than 0.1 lot. The difference and the
tenth are exact here: it is what a drift is, not how it is computed. -/
def Drifts (broker : List SimReport) (ledger : List LedgerPosition) (instrument : Text) : Prop :=
  1 / 10 < |signedOf (brokerAt broker instrument) - signedOf (ledgerAt ledger instrument)|

/-- The row is a `lot_drift` of an account for an instrument. -/
def DriftRow.IsLotDrift (row : DriftRow) (accountId instrument : Text) : Prop :=
  row.accountId = accountId ∧ row.driftKind = .lotDrift ∧
    ∃ ledger broker diff, row.detail = .lots instrument ledger broker diff

/-- Of an account's instruments, those that drift are recorded, and no other. Whether an
instrument drifts is decided by exact numbers, as a reader of the positions would. -/
def RecordsLotDrifts (rows : List DriftRow) (accountId : Text) (broker : List SimReport)
    (ledger : List LedgerPosition) : Prop :=
  ∀ instrument, (∃ row ∈ rows, row.IsLotDrift accountId instrument) ↔
    Drifts broker ledger instrument

/-- The rows that a tick writes. -/
def written (tenantId : Text) (turns : Text → Turn) (S : Tables) : List DriftRow :=
  (tick tenantId turns S).log.drop S.log.length

/-! ## One instrument -/

/-- The difference that the tick computes, without sides. -/
def lotDiff (broker : Bool × ℚ) : Option (Bool × ℚ) → ℚ
  | some ledger => |nearest (broker.2 - ledger.2)|
  | none => broker.2

/-- The largest difference that is rounded to the double `0.1`: the middle between that and
the next double. -/
def roundedDrift : ℚ := 14411518807585589 / 2 ^ 57

example : maxDrift < lotDiff (true, nearest (4 / 10)) (some (true, nearest (3 / 10))) := by
  decide +kernel

example : ¬ maxDrift < lotDiff (true, nearest (2 / 10)) (some (true, nearest (1 / 10))) := by
  decide +kernel

/-- What the comparison of two positions is right about.  A position that only the ledger
has must be small.  One that only the broker has must not be negative, nor between a tenth
and its double.  The difference of two positions on one side must not be just above a tenth.
On opposite sides their sum must be small and their difference with it, or both large. -/
def Comparable : Option (Bool × ℚ) → Option (Bool × ℚ) → Prop
  | none, none => True
  | some broker, none => |broker.2| ≤ 1 / 10 ∨ maxDrift < broker.2
  | none, some ledger => |ledger.2| ≤ 1 / 10
  | some broker, some ledger =>
      if broker.1 = ledger.1 then
        |broker.2 - ledger.2| ≤ 1 / 10 ∨ roundedDrift < |broker.2 - ledger.2|
      else
        (|broker.2 + ledger.2| ≤ 1 / 10 ∧ |broker.2 - ledger.2| ≤ roundedDrift) ∨
          (1 / 10 < |broker.2 + ledger.2| ∧ roundedDrift < |broker.2 - ledger.2|)

theorem signedOf_none : signedOf none = 0 := rfl

theorem abs_signedOf (p : Bool × ℚ) : |signedOf (some p)| = |p.2| := by
  obtain ⟨long, qty⟩ := p
  cases long <;> simp [signedOf, direction]

theorem maxDrift_eq : maxDrift = (7205759403792794 : ℕ) * 2 ^ (-56 : ℤ) := by
  have heval : maxDrift = 7205759403792794 / 2 ^ 56 := by decide +kernel
  rw [heval, zpow_neg, div_eq_mul_inv]
  norm_cast

theorem tenth_lt_maxDrift : 1 / 10 < maxDrift := by decide +kernel

theorem maxDrift_lt_roundedDrift : maxDrift < roundedDrift := by decide +kernel

/-- **The rounded difference is above the double `0.1`** exactly when the exact one is past
the middle to the next double. -/
theorem maxDrift_lt_nearest_iff {d : ℚ} : maxDrift < nearest d ↔ roundedDrift < d := by
  constructor
  · intro h
    by_contra hle
    have hround : nearest roundedDrift = maxDrift := by decide +kernel
    have hmono := nearest_mono (not_lt.mp hle)
    rw [hround] at hmono
    exact absurd h (not_lt.mpr hmono)
  · intro h
    rcases lt_or_ge d (1 / 8) with hsmall | hlarge
    · -- the doubles around `d` are those around a tenth
      have hpos : 0 < d := lt_trans (by norm_num [roundedDrift]) h
      have hlow : (-4 : ℤ) ≤ Int.log 2 d := by
        refine (Int.zpow_le_iff_le_log (by norm_num) hpos).mp (le_trans ?_ h.le)
        norm_num [roundedDrift]
      have hhigh : Int.log 2 d < -3 := by
        refine (Int.lt_zpow_iff_log_lt (by norm_num) hpos).mp (lt_of_lt_of_le hsmall ?_)
        norm_num
      have hunit : unitExp d = -56 := by
        unfold unitExp
        omega
      rw [maxDrift_eq]
      refine lt_nearest hunit (lt_of_le_of_lt (le_of_eq ?_) h)
      norm_num [roundedDrift]
    · have heighth : maxDrift < nearest (1 / 8) := by decide +kernel
      exact heighth.trans_le (nearest_mono hlarge)

/-- Rounding keeps the sign. -/
theorem abs_nearest (d : ℚ) : |nearest d| = nearest |d| := by
  rcases le_total 0 d with hd | hd
  · rw [abs_of_nonneg hd, abs_of_nonneg (nearest_nonneg hd)]
  · rw [abs_of_nonpos hd, nearest_neg, abs_of_nonpos]
    simpa using nearest_mono hd

theorem maxDrift_lt_lotDiff_iff (b l : Bool × ℚ) :
    maxDrift < lotDiff b (some l) ↔ roundedDrift < |b.2 - l.2| := by
  rw [lotDiff, abs_nearest, maxDrift_lt_nearest_iff]

/-- On one side the quantities are subtracted. -/
theorem abs_signedOf_sub_of_same {b l : Bool × ℚ} (h : b.1 = l.1) :
    |signedOf (some b) - signedOf (some l)| = |b.2 - l.2| := by
  have hfactor : signedOf (some b) - signedOf (some l) = signedOf (some (l.1, b.2 - l.2)) := by
    obtain ⟨long, qty⟩ := b
    obtain rfl : long = l.1 := h
    exact (sub_mul ..).symm
  rw [hfactor, abs_signedOf]

/-- On opposite sides the sizes add up. -/
theorem abs_signedOf_sub_of_opposite {b l : Bool × ℚ} (h : b.1 ≠ l.1) :
    |signedOf (some b) - signedOf (some l)| = |b.2 + l.2| := by
  have hfactor : signedOf (some b) - signedOf (some l) = signedOf (some (b.1, b.2 + l.2)) := by
    obtain ⟨long, qty⟩ := b
    obtain ⟨long', qty'⟩ := l
    cases long <;> cases long' <;> simp_all [signedOf, direction]
    all_goals ring
  rw [hfactor, abs_signedOf]

/-- A comparison with the bound `m` decides one with the smaller bound `t` unless the number
is between them. -/
theorem lt_iff_lt_of_le {t m x : ℚ} (h : t ≤ m) : (m < x ↔ t < x) ↔ x ≤ t ∨ m < x := by
  constructor
  · intro hiff
    rcases le_or_gt x t with hx | hx
    · exact .inl hx
    · exact .inr (hiff.mpr hx)
  · rintro (hx | hx)
    · exact ⟨fun hm => absurd (h.trans_lt hm) (not_lt.mpr hx), fun ht => absurd ht (not_lt.mpr hx)⟩
    · exact ⟨fun _ => h.trans_lt hx, fun _ => hx⟩

/-- Two comparisons agree when both hold or neither does. -/
theorem lt_iff_lt_iff {t m x y : ℚ} :
    (m < x ↔ t < y) ↔ (y ≤ t ∧ x ≤ m) ∨ (t < y ∧ m < x) := by
  simp only [← not_lt]
  by_cases hx : m < x <;> by_cases hy : t < y <;> simp [hx, hy]

/-- **The comparison of one instrument** is right exactly when its positions are comparable. -/
theorem lotDiff_iff (broker ledger : Option (Bool × ℚ)) :
    ((∃ b, broker = some b ∧ maxDrift < lotDiff b ledger) ↔
      1 / 10 < |signedOf broker - signedOf ledger|) ↔ Comparable broker ledger := by
  have hround : (1 : ℚ) / 10 ≤ roundedDrift :=
    (tenth_lt_maxDrift.trans maxDrift_lt_roundedDrift).le
  match broker, ledger with
  | none, none => simp [Comparable, signedOf]
  | none, some l =>
      have habs : |signedOf none - signedOf (some l)| = |l.2| := by
        rw [signedOf_none, zero_sub, abs_neg, abs_signedOf]
      simp [habs, Comparable]
  | some b, none =>
      have habs : |signedOf (some b) - signedOf none| = |b.2| := by
        rw [signedOf_none, sub_zero, abs_signedOf]
      have hex : (∃ b', some b = some b' ∧ maxDrift < lotDiff b' none) ↔ maxDrift < b.2 := by
        simp [lotDiff]
      rw [habs, hex, Comparable]
      constructor
      · intro hiff
        rcases le_or_gt |b.2| (1 / 10) with hsmall | hlarge
        · exact .inl hsmall
        · exact .inr (hiff.mpr hlarge)
      · rintro (hsmall | hlarge)
        · have hle : b.2 ≤ maxDrift := (le_abs_self _).trans (hsmall.trans tenth_lt_maxDrift.le)
          exact ⟨fun h => absurd h (not_lt.mpr hle), fun h => absurd h (not_lt.mpr hsmall)⟩
        · exact ⟨fun h => tenth_lt_maxDrift.trans (h.trans_le (le_abs_self _)), fun _ => hlarge⟩
  | some b, some l =>
      have hex : (∃ b', some b = some b' ∧ maxDrift < lotDiff b' (some l)) ↔
          roundedDrift < |b.2 - l.2| := by
        rw [← maxDrift_lt_lotDiff_iff]
        simp
      rw [hex, Comparable]
      split
      · next hside => rw [abs_signedOf_sub_of_same hside, lt_iff_lt_of_le hround]
      · next hside =>
          rw [abs_signedOf_sub_of_opposite hside]
          exact lt_iff_lt_iff

/-! ## One account -/

/-- The tick records the unsigned difference of a position when it is too large. -/
theorem lotDrift_iff (ledgerPos : List LedgerPosition) (cp : SimReport) (instrument : Text) :
    (∃ ledger broker diff, lotDrift ledgerPos cp = some (.lots instrument ledger broker diff)) ↔
      cp.instrument = instrument ∧
        maxDrift < lotDiff (cp.long, cp.qty) (ledgerAt ledgerPos instrument) := by
  have hdiff : lotDiff (cp.long, cp.qty) (ledgerAt ledgerPos cp.instrument) =
      match ledgerPos.find? (·.instrument = cp.instrument) with
      | some lp => |nearest (cp.qty - lp.qty)|
      | none => cp.qty := by
    rw [ledgerAt]
    cases ledgerPos.find? (·.instrument = cp.instrument) <;> rfl
  rw [lotDrift, ← hdiff]
  constructor
  · rintro ⟨ledger, broker, diff, heq⟩
    split at heq
    · obtain ⟨rfl, -⟩ := DriftDetail.lots.inj (Option.some.inj heq)
      exact ⟨rfl, ‹_›⟩
    · cases heq
  · rintro ⟨rfl, hlarge⟩
    exact ⟨_, _, _, if_pos hlarge⟩

section Account

variable {turns : Text → Turn} {r : StoredAccount} {broker : List SimReport}

/-- What the turn of an account records. -/
theorem driftRows_iff (hok : (turns r.id).positions (accountRef r) = .ok broker)
    (hbroker : (broker.map (·.instrument)).Nodup) (instrument : Text) :
    (∃ row ∈ driftRows turns r, row.IsLotDrift r.id instrument) ↔
      ∃ b, brokerAt broker instrument = some b ∧
        maxDrift < lotDiff b (ledgerAt (turns r.id).ledgerPos instrument) := by
  have hrows : driftRows turns r = (broker.filterMap (lotDrift (turns r.id).ledgerPos)).map
      fun detail => ⟨r.id, (turns r.id).now, .lotDrift, .warn, detail⟩ := by
    rw [driftRows, hok]
  rw [hrows]
  constructor
  · rintro ⟨row, hrow, -, -, hlots⟩
    obtain ⟨detail, hdetail, rfl⟩ := List.mem_map.mp hrow
    obtain ⟨cp, hcp, hdrift⟩ := List.mem_filterMap.mp hdetail
    obtain ⟨ledger, qty, diff, rfl⟩ := hlots
    obtain ⟨rfl, hlarge⟩ := (lotDrift_iff _ cp instrument).mp ⟨ledger, qty, diff, hdrift⟩
    exact ⟨_, by rw [brokerAt, find?_key hbroker hcp]; rfl, hlarge⟩
  · rintro ⟨b, hb, hlarge⟩
    obtain ⟨cp, hfind, rfl⟩ := Option.map_eq_some_iff.mp hb
    obtain ⟨hcp, rfl⟩ := (find?_key_iff hbroker).mp hfind
    obtain ⟨ledger, qty, diff, hdrift⟩ := (lotDrift_iff _ cp _).mpr ⟨rfl, hlarge⟩
    exact ⟨_, List.mem_map.mpr ⟨_, List.mem_filterMap.mpr ⟨cp, hcp, hdrift⟩, rfl⟩, rfl, rfl,
      ledger, qty, diff, rfl⟩

/-! ## The tick -/

variable {S : Tables}

/-- The rows of an account that a tick writes are those of its turn. -/
theorem written_iff (tenantId : Text) (hr : r ∈ S.accounts.rows) (hactive : r.status = .active)
    (instrument : Text) :
    (∃ row ∈ written tenantId turns S, row.IsLotDrift r.id instrument) ↔
      ∃ row ∈ driftRows turns r, row.IsLotDrift r.id instrument := by
  rw [written, log_tick, List.drop_left]
  constructor
  · rintro ⟨row, hrow, hdrift⟩
    obtain ⟨r', hr', hrow⟩ := List.mem_flatMap.mp hrow
    have hid : r'.id = r.id := (accountId_driftRows hrow).symm.trans hdrift.1
    obtain rfl := List.inj_on_of_nodup_map S.accounts.nodup_ids (List.mem_of_mem_filter hr') hr hid
    exact ⟨row, hrow, hdrift⟩
  · rintro ⟨row, hrow, hdrift⟩
    have hkept : r ∈ S.accounts.rows.filter (·.status = .active) :=
      List.mem_filter.mpr ⟨hr, decide_eq_true hactive⟩
    exact ⟨row, List.mem_flatMap.mpr ⟨r, hkept, hrow⟩, hdrift⟩

/-- **A tick records the drifts of an account** exactly when its positions are comparable. The
loop walks over the broker's positions, so one that only the ledger has is never compared, and the
bound is twice the one that the comment names. -/
theorem recordsLotDrifts_tick_iff (tenantId : Text) (hr : r ∈ S.accounts.rows)
    (hactive : r.status = .active)
    (hok : (turns r.id).positions (accountRef r) = .ok broker)
    (hbroker : (broker.map (·.instrument)).Nodup) :
    RecordsLotDrifts (written tenantId turns S) r.id broker (turns r.id).ledgerPos ↔
      ∀ instrument, Comparable (brokerAt broker instrument)
        (ledgerAt (turns r.id).ledgerPos instrument) := by
  refine forall_congr' fun instrument => ?_
  rw [written_iff tenantId hr hactive, driftRows_iff hok hbroker]
  exact lotDiff_iff _ _

end Account

/-- An active account. -/
def activeAccount : StoredAccount := ⟨⟨"a", "t", "Demo", "5001", .active, 0⟩, [], none, none, 0⟩

/-- A table with one active account. -/
def oneAccount : Tables where
  accounts := { rows := [activeAccount], nodup_ids := List.nodup_singleton _ }
  log := []

/-- What the broker and the ledger have of EURUSD. -/
def eurusd (broker ledger : Option (Bool × ℚ)) (_ : Text) : Turn where
  positions ref :=
    .ok (broker.toList.map fun p => ⟨"sim-pos-EURUSD", ref, "EURUSD", p.1, p.2, 1, 1⟩)
  ledgerPos := ledger.toList.map fun p => ⟨"EURUSD", p.1, p.2, 1⟩
  now := 0

/-- The positions that the broker has of EURUSD. -/
def eurusdReports (broker : Option (Bool × ℚ)) : List SimReport :=
  broker.toList.map fun p => ⟨"sim-pos-EURUSD", "sim-Demo-5001", "EURUSD", p.1, p.2, 1, 1⟩

/-- Two lots at the broker and one in the ledger are a drift that is recorded. -/
theorem twoLots_recorded :
    RecordsLotDrifts (written "t" (eurusd (some (true, 2)) (some (true, 1))) oneAccount) "a"
      (eurusdReports (some (true, 2)))
      (eurusd (some (true, 2)) (some (true, 1)) "a").ledgerPos := by
  have hcomparable : ∀ instrument, Comparable (brokerAt (eurusdReports (some (true, 2))) instrument)
      (ledgerAt (eurusd (some (true, 2)) (some (true, 1)) "a").ledgerPos instrument) := by
    intro instrument
    by_cases heq : "EURUSD".toList = instrument
    · subst heq
      exact .inr (by decide +kernel)
    · have hbroker : brokerAt (eurusdReports (some (true, 2))) instrument = none := by
        simpa [brokerAt, eurusdReports] using heq
      have hledger : ledgerAt (eurusd (some (true, 2)) (some (true, 1)) "a").ledgerPos
          instrument = none := by simpa [ledgerAt, eurusd] using heq
      rw [hbroker, hledger]
      trivial
  have hactive : activeAccount ∈ oneAccount.accounts.rows := List.mem_singleton_self _
  have hok : (eurusd (some (true, 2)) (some (true, 1)) activeAccount.id).positions
      (accountRef activeAccount) = .ok (eurusdReports (some (true, 2))) := rfl
  exact (recordsLotDrifts_tick_iff "t" hactive rfl hok (List.nodup_singleton _)).mpr hcomparable

/-- A position that only the ledger has is not recorded. -/
theorem ledgerOnly_not_recorded :
    ¬ RecordsLotDrifts (written "t" (eurusd none (some (true, 1))) oneAccount) "a"
      (eurusdReports none) (eurusd none (some (true, 1)) "a").ledgerPos := by
  intro h
  have hdrift : Drifts (eurusdReports none) (eurusd none (some (true, 1)) "a").ledgerPos
      "EURUSD" := by
    norm_num [Drifts, brokerAt, ledgerAt, eurusdReports, eurusd, signedOf, direction]
  obtain ⟨row, hrow, -⟩ := (h "EURUSD").mpr hdrift
  rw [written, log_tick] at hrow
  exact List.not_mem_nil hrow

end AkronSlot.Slot.Reconciler
