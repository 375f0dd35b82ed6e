import AkronSlot.Slot.Attribution
import AkronSlot.Slot.FillNetting

/-!
# Fills that are delivered again

The number of the deal is parsed and not stored, and the id of a row of `fills` is
random: a fill frame that arrives again is one more fill.  Whatever comes before,
between and after, the account has one row more than without it.

## What a repetition meets

The schema of a fill requires the deal, and `storeFill` does not write it: a row has a random
id, the order, the quantity and the price. There is nothing by which the second copy could be
told from another fill of the same size, and `UNIQUE` on the id never fires. So a repetition is
harmless only where the first delivery wrote nothing either.

## Main Definitions

* `FillFrame`, `receiveFills`
* `Redelivers`, `SameReads`

## Main Results

* `length_fillsOf_receiveFills`
* `sameReads_redelivered_iff`
-/

namespace AkronSlot.Slot

open Wire Systems Ledger

/-- A fill frame, with the accounts table and the clock when it arrives. -/
structure FillFrame where
  rows : List AccountRow
  now : ℚ
  data : FillData
  ts : Option Numeral

/-- The ledger after a sequence of fill frames. Each frame meets the accounts and the clock of its
own time. -/
def receiveFills (L : Ledger) (frames : List FillFrame) : Ledger :=
  frames.foldl (fun L f => handleEvent f.rows f.now L (.fill f.data f.ts)) L

/-- The frame of the same deal, for the same account, at another time. The accounts table may have
changed in between, but not in the row that a fill falls back to. -/
structure Redelivers (f g : FillFrame) : Prop where
  data : g.data = f.data
  ts : g.ts = f.ts
  account : fallbackAccount g.rows = fallbackAccount f.rows

/-- Two ledgers list the same fills and report the same positions. These are the two reads of
fills that the routes have; the ids of the rows are random and stay out of the comparison. -/
structure SameReads (L L' : Ledger) : Prop where
  listFills : ∀ accountId limit, L'.listFills accountId limit = L.listFills accountId limit
  positionsFor : ∀ accountId, L'.positionsFor accountId = L.positionsFor accountId

/-- The frames that are booked on an account. -/
def bookedOn (accountId : Text) (f : FillFrame) : Bool :=
  (fallbackAccount f.rows).any (·.id = accountId)

theorem receiveFills_append (L : Ledger) (fs gs : List FillFrame) :
    receiveFills L (fs ++ gs) = receiveFills (receiveFills L fs) gs :=
  List.foldl_append

/-- The fills of an account in the order in which they were stored. -/
def fillsOf (L : Ledger) (accountId : Text) : List FillRow :=
  L.fills.filter (·.accountId = accountId)

/-- A frame adds one fill to the account it is booked on. -/
theorem length_fillsOf_handleEvent (L : Ledger) (accountId : Text) (f : FillFrame) :
    (fillsOf (handleEvent f.rows f.now L (.fill f.data f.ts)) accountId).length =
      (fillsOf L accountId).length + [f].countP (bookedOn accountId) := by
  rw [List.countP_singleton]
  cases ha : fallbackAccount f.rows with
  | none =>
      rw [handleEvent, resolveAccount_nil, ha, bookedOn, ha]
      rfl
  | some a =>
      obtain ⟨⟨row, hfills, hrow⟩, -⟩ := ledger_fill ha f.now L f.data f.ts
      rw [fillsOf, hfills, List.filter_append, List.length_append, bookedOn, ha]
      by_cases haccount : a.id = accountId <;> simp [fillsOf, hrow, haccount]

/-- After a sequence every account has a fill for each frame that is booked on it. -/
theorem length_fillsOf_receiveFills (L : Ledger) (accountId : Text) (fs : List FillFrame) :
    (fillsOf (receiveFills L fs) accountId).length =
      (fillsOf L accountId).length + fs.countP (bookedOn accountId) := by
  induction fs generalizing L with
  | nil => rfl
  | cons f fs ih =>
      have hcons : receiveFills L (f :: fs) =
          receiveFills (handleEvent f.rows f.now L (.fill f.data f.ts)) fs := rfl
      rw [hcons, ih, length_fillsOf_handleEvent, add_assoc, ← List.countP_append]
      rfl

/-- The list without a limit has all fills of the account. -/
theorem length_listFills (L : Ledger) (accountId : Text) :
    (L.listFills accountId (-1)).length = (fillsOf L accountId).length := by
  rw [listFills, limited, if_pos (by decide), List.length_mergeSort, List.length_reverse]
  rfl

/-- **A fill that is delivered again leaves the ledger as it would have been exactly if there is
no account for it.** The number of the deal is not stored, so nothing can tell a repetition from a
second fill. -/
theorem sameReads_redelivered_iff {f g : FillFrame} (h : Redelivers f g) (L : Ledger)
    (before between after : List FillFrame) :
    SameReads (receiveFills L (before ++ f :: (between ++ after)))
      (receiveFills L (before ++ f :: (between ++ g :: after))) ↔
    ∀ a ∈ f.rows, a.status = .disabled := by
  rw [← fallbackAccount_eq_none_iff]
  constructor
  · intro hsame
    by_contra hsome
    obtain ⟨a, ha⟩ := Option.ne_none_iff_exists'.mp hsome
    have hlength := congrArg List.length (hsame.listFills a.id (-1))
    have hbooked : bookedOn a.id g := by
      rw [bookedOn, h.account, ha]
      simp
    -- all other frames add as many fills with the repeat as without it
    rw [length_listFills, length_listFills, length_fillsOf_receiveFills,
      length_fillsOf_receiveFills] at hlength
    simp only [List.countP_append, List.countP_cons, if_pos hbooked] at hlength
    omega
  · intro hnone
    have hskip : ∀ K : Ledger, handleEvent g.rows g.now K (.fill g.data g.ts) = K := by
      intro K
      rw [handleEvent, resolveAccount_nil, h.account, hnone]
    have hsame : receiveFills L (before ++ f :: (between ++ g :: after)) =
        receiveFills L (before ++ f :: (between ++ after)) := by
      rw [← List.cons_append, ← List.cons_append, receiveFills_append, receiveFills_append,
        receiveFills_append, receiveFills_append]
      exact congrArg (receiveFills · after) (hskip _)
    rw [hsame]
    exact ⟨fun _ _ => rfl, fun _ => rfl⟩

/-- The frame of the sample fill. -/
def sampleFrame : FillFrame := ⟨sampleDeps.accounts, 0, sampleFill, none⟩

/-- A frame that is sent twice. -/
theorem sampleFrame_redelivered :
    SameReads (receiveFills {} ([] ++ sampleFrame :: ([] ++ [])))
      (receiveFills {} ([] ++ sampleFrame :: ([] ++ [sampleFrame]))) ↔
    ∀ a ∈ sampleFrame.rows, a.status = .disabled :=
  sameReads_redelivered_iff ⟨rfl, rfl, rfl⟩ {} [] [] []

/-- The row of the sample fill. -/
def sampleRow : FillRow where
  orderId := none
  accountId := "a"
  instrument := "EURUSD"
  qty := 2
  price := 1
  ts := 0

/-- Without orders the sample fill is one more row. -/
theorem receiveFills_sampleFrame {L : Ledger} (h : L.orders = []) :
    receiveFills L [sampleFrame] = L.insertFill sampleRow := by
  have hqty : (Numeral.ofNat 2).value = 2 := Numeral.value_ofNat 2
  have hprice : (Numeral.ofNat 1).value = 1 := Numeral.value_ofNat 1
  show handleEvent sampleDeps.accounts 0 L (.fill sampleFill none) = _
  rw [handleEvent_fill h, sampleDeps_fallback]
  simp [sampleFill, sampleRow, hqty, hprice]

/-- The two lots of the fill are four after the frame was sent twice. -/
theorem redelivery_doubles_position :
    reportedNet ((receiveFills {} [sampleFrame]).positionsFor "a") "EURUSD" = 2 ∧
    reportedNet ((receiveFills {} [sampleFrame, sampleFrame]).positionsFor "a") "EURUSD" = 4 ∧
    ¬ SameReads (receiveFills {} [sampleFrame]) (receiveFills {} [sampleFrame, sampleFrame]) := by
  have hone : receiveFills {} [sampleFrame] = insertFill {} sampleRow :=
    receiveFills_sampleFrame rfl
  have htwo : receiveFills {} [sampleFrame, sampleFrame] =
      (insertFill {} sampleRow).insertFill sampleRow := by
    rw [← List.singleton_append, receiveFills_append, hone, receiveFills_sampleFrame rfl]
  have hfirst : reportedNet ((insertFill {} sampleRow).positionsFor "a") "EURUSD" = 2 := by
    rw [reportedNet_positionsFor, netFilled_insertFill rfl]
    norm_num [netFilled, settled, dust, sampleRow]
  have hsecond : reportedNet
      (((insertFill {} sampleRow).insertFill sampleRow).positionsFor "a") "EURUSD" = 4 := by
    rw [reportedNet_positionsFor, netFilled_insertFill rfl, netFilled_insertFill rfl]
    norm_num [netFilled, settled, dust, sampleRow]
  rw [hone, htwo]
  refine ⟨hfirst, hsecond, ?_⟩
  intro hsame
  rw [hsame.positionsFor, hfirst] at hsecond
  norm_num at hsecond

end AkronSlot.Slot
