import AkronSlot.Slot.FillNetting
import AkronSlot.Slot.LedgerOps
import AkronSlot.Systems.Runs

/-!
# The life of an order

An order is inserted with one of four statuses, and event frames write its status and its
closing time.  A fill writes `filled` and an order state whatever text it carries; neither
looks at the status that is there, and both write a closing time.

## A law about changes

That a closed order stays closed cannot be said of one ledger. `OrderLaw` is about a row,
`TransitionLaw` about a row before and after, and `LifecycleKept` asks for the second between
any two states of a run, which a chain of steps gives only because the law is transitive.

The ledger writes what it is told, so the law is up to the events: an `Admissible` one finds a
pending order and closes it, or finds it closed in the very same way.

## Main Definitions

* `LifecycleEvent`, `lifecycleStep`
* `OrderLaw`, `TransitionLaw`, `Lawful`
* `Admissible`

## Main Results

* `lawful_iff_admissible` — one step
* `lifecycleKept_iff` — a run
-/

namespace AkronSlot.Slot

open Wire Systems Ledger

/-! ## The law -/

/-- The statuses of `OrderStatus` that are final. -/
def closedStatuses : List Text := ["filled", "cancelled", "rejected"]

/-- `OrderStatus`. -/
def orderStatuses : List Text := "pending" :: closedStatuses

/-- A row has a status, and no closing time while it is pending. A closing time of a closed row is
not asked for, since an inserted row may have none. -/
structure OrderLaw (o : OrderRow) : Prop where
  status : o.status ∈ orderStatuses
  open_while_pending : o.status = "pending" → o.tsClose = none

/-- A row that is not pending is final, and one that leaves pending is closed. Final means that
neither the status nor the closing time changes any more. -/
structure TransitionLaw (o o' : OrderRow) : Prop where
  final : o.status ≠ "pending" → o'.status = o.status ∧ o'.tsClose = o.tsClose
  closes : o.status = "pending" → o'.status ≠ "pending" → o'.tsClose.isSome

/-- Every row keeps the law, and so does every change of one. Rows are told apart by their ids;
none is ever deleted. -/
structure Lawful (L L' : Ledger) : Prop where
  rows : ∀ o ∈ L'.orders, OrderLaw o
  kept : ∀ o ∈ L.orders, ∃ o' ∈ L'.orders, o'.id = o.id ∧ TransitionLaw o o'

/-! ## Events -/

inductive LifecycleEvent where
  | insertOrder (accountIds : List Text) (row : OrderRow)
  | frame (rows : List AccountRow) (now : ℚ) (f : Frame)

/-- Rows are inserted with a status of the type; frames carry any text. The status of an order
state is taken over from its frame unchecked. -/
def lifecycleStep (L : Ledger) : LifecycleEvent → Option Ledger
  | .insertOrder accountIds row =>
      if orderStatuses.contains row.status then
        some (L.perform accountIds (.insertOrder row))
      else none
  | .frame rows now f => some (handleEvent rows now L f)

/-- The row that a status update at a time may change: a pending one that it closes, or
one that it leaves as it is. -/
def Closes (o : OrderRow) (status : Text) (time : ℚ) : Prop :=
  (o.status = "pending" ∧ status ∈ closedStatuses) ∨
    (o.status ≠ "pending" ∧ status = o.status ∧ o.tsClose = some time)

/-- When an event keeps the law: it closes a pending order once, with a status and a time, or
repeats what is already there. An event that finds no order is admissible. -/
def Admissible (L : Ledger) : LifecycleEvent → Prop
  | .insertOrder accountIds row =>
      L.Accepts accountIds (.insertOrder row) → row.status = "pending" → row.tsClose = none
  | .frame rows now (.fill data ts) =>
      ∀ a ∈ fallbackAccount rows, ∀ o ∈ namedOrder L a.id data.brokerOrderId,
        Closes o "filled" ((ts.map Numeral.value).getD now)
  | .frame rows now (.orderState data _) =>
      ∀ a ∈ fallbackAccount rows, ∀ o ∈ namedOrder L a.id data.brokerOrderId,
        Closes o data.status now
  | .frame _ _ _ => True

/-! ## Steps -/

theorem transitionLaw_refl {o : OrderRow} : TransitionLaw o o where
  final _ := ⟨rfl, rfl⟩
  closes h h' := absurd h h'

theorem lawful_refl {L : Ledger} (h : ∀ o ∈ L.orders, OrderLaw o) : Lawful L L where
  rows := h
  kept o ho := ⟨o, ho, rfl, transitionLaw_refl⟩

/-- An update of one row is lawful exactly if it closes the row or leaves it as it is. -/
theorem law_update_iff {o : OrderRow} (ho : OrderLaw o) (status : Text)
    (brokerOrderId : Option Text) (time : ℚ) :
    (OrderLaw { o with status := status, brokerOrderId := brokerOrderId, tsClose := some time } ∧
      TransitionLaw o
        { o with status := status, brokerOrderId := brokerOrderId, tsClose := some time }) ↔
      Closes o status time := by
  constructor
  · rintro ⟨hlaw, htransition⟩
    have hnot : status ≠ "pending" := fun h => by
      have hnone := hlaw.open_while_pending h
      cases hnone
    by_cases hpending : o.status = "pending"
    · exact Or.inl ⟨hpending, (List.mem_cons.mp hlaw.status).resolve_left hnot⟩
    · obtain ⟨hstatus, hclose⟩ := htransition.final hpending
      exact Or.inr ⟨hpending, hstatus, hclose.symm⟩
  · rintro (⟨hpending, hclosed⟩ | ⟨hpending, rfl, hclose⟩)
    · refine ⟨⟨List.mem_cons_of_mem _ hclosed, ?_⟩, ?_, ?_⟩
      · rintro rfl
        exact absurd hclosed (by decide)
      · exact fun h => absurd hpending h
      · exact fun _ _ => rfl
    · refine ⟨⟨ho.status, fun h => absurd h hpending⟩, ?_, ?_⟩
      · exact fun _ => ⟨rfl, hclose.symm⟩
      · exact fun h => absurd h hpending

/-- The row that a status update makes of an order that keeps its ticket. -/
def closedRow (o : OrderRow) (status : Text) (time : ℚ) : OrderRow :=
  { o with status := status, brokerOrderId := o.brokerOrderId, tsClose := some time }

/-- A status update that keeps the ticket changes the one row with the id. -/
theorem mem_update_iff {L : Ledger} (hkeys : L.Keyed) {o : OrderRow} (ho : o ∈ L.orders)
    (status : Text) (time : ℚ) {k : OrderRow} :
    k ∈ (L.updateOrderStatus o.accountId o.id status o.brokerOrderId (some time)).orders ↔
      (k ∈ L.orders ∧ k.id ≠ o.id) ∨ k = closedRow o status time := by
  have hor : o.brokerOrderId.or o.brokerOrderId = o.brokerOrderId := by
    cases o.brokerOrderId <;> rfl
  constructor
  · intro hk
    rcases mem_updateOrderStatus hk with ⟨hmem, hne⟩ | ⟨k₀, hk₀, ⟨hid, -⟩, rfl⟩
    · refine Or.inl ⟨hmem, fun hid => hne ⟨hid, ?_⟩⟩
      rw [hkeys.eq_of_id hmem ho hid]
    · obtain rfl := hkeys.eq_of_id hk₀ ho hid
      right
      rw [hor]
      rfl
  · rintro (⟨hmem, hne⟩ | rfl)
    · refine List.mem_map.mpr ⟨k, hmem, ?_⟩
      rw [if_neg fun h => hne h.1]
    · refine List.mem_map.mpr ⟨o, ho, ?_⟩
      rw [if_pos ⟨rfl, rfl⟩, hor]
      rfl

/-- A status update is lawful exactly if it closes the row or leaves it as it is. -/
theorem lawful_updateOrderStatus_iff {L : Ledger} (hkeys : L.Keyed)
    (hlaw : ∀ o ∈ L.orders, OrderLaw o) {o : OrderRow} (ho : o ∈ L.orders) (status : Text)
    (time : ℚ) :
    Lawful L (L.updateOrderStatus o.accountId o.id status o.brokerOrderId (some time)) ↔
      Closes o status time := by
  have hmem := fun k => @mem_update_iff L hkeys o ho status time k
  rw [← law_update_iff (hlaw o ho) status o.brokerOrderId time]
  constructor
  · intro h
    refine ⟨h.rows _ ((hmem _).mpr (Or.inr rfl)), ?_⟩
    obtain ⟨o', ho', hid, htransition⟩ := h.kept o ho
    rcases (hmem o').mp ho' with ⟨-, hne⟩ | rfl
    · exact absurd hid hne
    · exact htransition
  · rintro ⟨hnew, htransition⟩
    refine ⟨fun k hk => ?_, fun k hk => ?_⟩
    · rcases (hmem k).mp hk with ⟨hk, -⟩ | rfl
      · exact hlaw k hk
      · exact hnew
    · by_cases hid : k.id = o.id
      · obtain rfl := hkeys.eq_of_id hk ho hid
        exact ⟨_, (hmem _).mpr (Or.inr rfl), rfl, htransition⟩
      · exact ⟨k, (hmem k).mpr (Or.inl ⟨hk, hid⟩), rfl, transitionLaw_refl⟩

/-- What a step keeps: the keys and the law of the rows. The keys are needed because an update
goes by the id of a row. -/
structure Sound (L : Ledger) : Prop where
  keys : L.Keyed
  rows : ∀ o ∈ L.orders, OrderLaw o

theorem sound_empty : Sound {} := ⟨keyed_empty, by simp⟩

/-- An event that names an order is lawful exactly if the update that it makes is. -/
theorem lawful_named_iff {L L' : Ledger} (hsound : Sound L) {accountId : Text}
    {brokerOrderId : Option Text} {status : Text} {time : ℚ}
    (hupdate : L'.orders = ((namedOrder L accountId brokerOrderId).elim L fun o =>
      L.updateOrderStatus accountId o.id status o.brokerOrderId (some time)).orders) :
    Lawful L L' ↔ ∀ o ∈ namedOrder L accountId brokerOrderId, Closes o status time := by
  have hcongr : ∀ K : Ledger, L'.orders = K.orders → (Lawful L L' ↔ Lawful L K) := by
    intro K hK
    constructor
    · exact fun h => ⟨hK ▸ h.rows, hK ▸ h.kept⟩
    · exact fun h => ⟨hK ▸ h.rows, hK ▸ h.kept⟩
  rw [hcongr _ hupdate]
  cases ho : namedOrder L accountId brokerOrderId with
  | none => exact iff_of_true (lawful_refl hsound.rows) (by simp)
  | some o =>
      obtain ⟨hmem, rfl, -⟩ := namedOrder_spec ho
      simp only [Option.elim_some, Option.mem_some_iff, forall_eq']
      exact lawful_updateOrderStatus_iff hsound.keys hsound.rows hmem status time

/-- A row that is inserted is lawful exactly if it has no closing time while it is pending. -/
theorem lawful_insertOrder_iff {L : Ledger} (hsound : Sound L) (accountIds : List Text)
    {row : OrderRow} (hstatus : row.status ∈ orderStatuses) :
    Lawful L (L.perform accountIds (.insertOrder row)) ↔
      Admissible L (.insertOrder accountIds row) := by
  unfold Admissible perform
  split
  · next haccept =>
      constructor
      · intro h _
        have hrow := h.rows row (List.mem_append_right _ (List.mem_singleton_self row))
        exact hrow.open_while_pending
      · intro h
        refine ⟨fun o ho => ?_, fun o ho => ?_⟩
        · rcases List.mem_append.mp ho with ho | ho
          · exact hsound.rows o ho
          · obtain rfl := List.mem_singleton.mp ho
            exact ⟨hstatus, h haccept⟩
        · exact ⟨o, List.mem_append_left _ ho, rfl, transitionLaw_refl⟩
  · next haccept => exact iff_of_true (lawful_refl hsound.rows) fun h => absurd h haccept

/-- **A step keeps the law exactly if its event is admissible.** -/
theorem lawful_iff_admissible {L L' : Ledger} (hsound : Sound L) {e : LifecycleEvent}
    (hstep : lifecycleStep L e = some L') : Lawful L L' ↔ Admissible L e := by
  cases e with
  | insertOrder accountIds row =>
      rw [lifecycleStep] at hstep
      split at hstep
      · next hstatus =>
          cases hstep
          exact lawful_insertOrder_iff hsound accountIds (List.contains_iff_mem.mp hstatus)
      · cases hstep
  | frame rows now f =>
      cases hstep
      cases ha : fallbackAccount rows with
      | none =>
          -- without an account nothing is written
          rw [handleEvent_of_no_account ha]
          refine iff_of_true (lawful_refl hsound.rows) ?_
          cases f <;> simp [Admissible, ha]
      | some account =>
          cases f with
          | fill data ts =>
              simp only [Admissible, ha, Option.mem_some_iff, forall_eq']
              refine lawful_named_iff hsound ?_
              rw [handleEvent_fill_eq ha]
              cases namedOrder L account.id data.brokerOrderId <;> rfl
          | orderState data ts =>
              simp only [Admissible, ha, Option.mem_some_iff, forall_eq']
              refine lawful_named_iff hsound ?_
              rw [handleEvent_orderState_eq ha]
          | position data ts => exact iff_of_true (lawful_refl hsound.rows) trivial
          | account data ts => exact iff_of_true (lawful_refl hsound.rows) trivial
          | startup ts => exact iff_of_true (lawful_refl hsound.rows) trivial
          | response id ok result error => exact iff_of_true (lawful_refl hsound.rows) trivial

theorem keyed_lifecycleStep {L L' : Ledger} (h : L.Keyed) {e : LifecycleEvent}
    (hstep : lifecycleStep L e = some L') : L'.Keyed := by
  cases e with
  | insertOrder accountIds row =>
      rw [lifecycleStep] at hstep
      split at hstep
      · cases hstep
        exact h.perform _
      · cases hstep
  | frame rows now f =>
      cases hstep
      exact h.handleEvent rows now f

theorem sound_step {L L' : Ledger} (hsound : Sound L) {e : LifecycleEvent}
    (hadmissible : Admissible L e) (hstep : lifecycleStep L e = some L') : Sound L' where
  keys := keyed_lifecycleStep hsound.keys hstep
  rows := ((lawful_iff_admissible hsound hstep).mpr hadmissible).rows

/-! ## Runs -/

theorem TransitionLaw.trans {o o' o'' : OrderRow} (h : TransitionLaw o o')
    (h' : TransitionLaw o' o'') : TransitionLaw o o'' where
  final hfinal := by
    obtain ⟨hstatus, hclose⟩ := h.final hfinal
    obtain ⟨hstatus', hclose'⟩ := h'.final (hstatus ▸ hfinal)
    exact ⟨hstatus'.trans hstatus, hclose'.trans hclose⟩
  closes hpending hleft := by
    by_cases hpending' : o'.status = "pending"
    · exact h'.closes hpending' hleft
    · rw [(h'.final hpending').2]
      exact h.closes hpending hpending'

theorem Lawful.trans {L L' L'' : Ledger} (h : Lawful L L') (h' : Lawful L' L'') :
    Lawful L L'' where
  rows := h'.rows
  kept o ho := by
    obtain ⟨o', ho', hid, htransition⟩ := h.kept o ho
    obtain ⟨o'', ho'', hid', htransition'⟩ := h'.kept o' ho'
    exact ⟨o'', ho'', hid'.trans hid, htransition.trans htransition'⟩

/-- Admissible events keep the law from the first state to the last. -/
theorem lawful_run {events : List LifecycleEvent} {L L' : Ledger} (hsound : Sound L)
    (halong : Along lifecycleStep Admissible L events)
    (hrun : run lifecycleStep L events = some L') : Lawful L L' := by
  induction events generalizing L with
  | nil =>
      cases hrun
      exact lawful_refl hsound.rows
  | cons e events ih =>
      obtain ⟨K, hK, hrest⟩ := (run_cons lifecycleStep).mp hrun
      have hfirst := (lawful_iff_admissible hsound hK).mpr halong.1
      exact hfirst.trans (ih (sound_step hsound halong.1 hK) (halong.2 K hK) hrest)

/-- The law holds between any two states of a run, and not only between neighbours. -/
def LifecycleKept (events : List LifecycleEvent) : Prop :=
  ∀ before between after L L', events = before ++ (between ++ after) →
    run lifecycleStep {} before = some L → run lifecycleStep L between = some L' → Lawful L L'

/-- **The orders of a run keep the law exactly if all its events are admissible** when their turn
comes. No status is compared with the one before it, so an event that would end an order twice or
take it back is carried out like any other. -/
theorem lifecycleKept_iff {events : List LifecycleEvent} {L : Ledger}
    (hrun : run lifecycleStep {} events = some L) :
    LifecycleKept events ↔ Along lifecycleStep Admissible {} events := by
  constructor
  · intro h
    have hlawful : Along lifecycleStep
        (fun K e => ∀ K', lifecycleStep K e = some K' → Lawful K K') {} events := by
      refine (along_iff_forall lifecycleStep).mpr ?_
      intro before e after K heq hbefore K' hstep
      refine h before [e] after K K' heq hbefore ?_
      exact (run_cons lifecycleStep).mpr ⟨K', hstep, rfl⟩
    refine (along_congr ?_ ?_ sound_empty hrun).mp hlawful
    · intro K e K' hsound hstep
      rw [← lawful_iff_admissible hsound hstep, hstep]
      simp
    · exact fun K e K' hsound hadmissible hstep => sound_step hsound hadmissible hstep
  · rintro halong before between after K K' rfl hbefore hbetween
    have hsound : Sound K :=
      run_along_invariant (fun _ _ _ hs hadmissible hstep => sound_step hs hadmissible hstep)
        sound_empty (halong.left lifecycleStep) hbefore
    exact lawful_run hsound ((halong.of_append lifecycleStep hbefore).left lifecycleStep) hbetween

/-- An order that is cancelled, and its late fill. -/
def lateFill : List LifecycleEvent :=
  [.insertOrder ["a"] (ticketOrder "1" "a" "42"),
    .frame sampleDeps.accounts 5 (.orderState ⟨none, some "42", "cancelled"⟩ none),
    .frame sampleDeps.accounts 6 (.fill sampleFill none)]

/-- The ledger with one order. -/
def oneOrder : Ledger where
  orders := [ticketOrder "1" "a" "42"]

theorem run_insertOrder :
    run lifecycleStep {} [.insertOrder ["a"] (ticketOrder "1" "a" "42")] = some oneOrder := by
  rw [run, lifecycleStep, if_pos (by decide), perform, if_pos (by decide)]
  rfl

/-- The row after the cancellation, and after the late fill. -/
def cancelledOrder : Ledger where
  orders := [closedRow (ticketOrder "1" "a" "42") "cancelled" 5]

def filledOrderRow : OrderRow :=
  { closedRow (ticketOrder "1" "a" "42") "cancelled" 5 with status := "filled", tsClose := some 6 }

theorem handleEvent_cancelled :
    handleEvent sampleDeps.accounts 5 oneOrder (.orderState ⟨none, some "42", "cancelled"⟩ none) =
      cancelledOrder := by
  rw [handleEvent_orderState_eq sampleDeps_fallback]
  rfl

theorem run_cancelled : run lifecycleStep {} (lateFill.take 2) = some cancelledOrder := by
  show run lifecycleStep {} ([_] ++ [_]) = _
  refine (run_append lifecycleStep).mpr ⟨oneOrder, run_insertOrder, ?_⟩
  exact congrArg some handleEvent_cancelled

/-- The order is pending when it is cancelled. -/
theorem admissible_cancelled : Admissible oneOrder
    (.frame sampleDeps.accounts 5 (.orderState ⟨none, some "42", "cancelled"⟩ none)) := by
  intro a ha o ho
  rw [sampleDeps_fallback, Option.mem_some_iff] at ha
  subst ha
  have hnamed : namedOrder oneOrder "a" (some "42".toList) = some (ticketOrder "1" "a" "42") := by
    rfl
  obtain rfl := Option.some.inj (hnamed.symm.trans ho)
  exact .inl ⟨rfl, by decide⟩

/-- An order that is inserted and cancelled keeps the law, and is closed in the end. -/
theorem cancelledOrder_lifecycleKept :
    (run lifecycleStep {} (lateFill.take 2)).map (·.orders.map fun o => (o.status, o.tsClose)) =
      some [("cancelled".toList, some 5)] ∧ LifecycleKept (lateFill.take 2) := by
  refine ⟨by rw [run_cancelled]; rfl, (lifecycleKept_iff run_cancelled).mpr ?_⟩
  refine ⟨fun _ _ => rfl, fun L hL => ⟨?_, fun _ _ => trivial⟩⟩
  have hone : run lifecycleStep {} [.insertOrder ["a"] (ticketOrder "1" "a" "42")] = some L :=
    (run_cons lifecycleStep).mpr ⟨L, hL, rfl⟩
  obtain rfl := Option.some.inj (run_insertOrder.symm.trans hone)
  exact admissible_cancelled

theorem orders_handleEvent_lateFill :
    (handleEvent sampleDeps.accounts 6 cancelledOrder (.fill sampleFill none)).orders =
      [filledOrderRow] := by
  rw [handleEvent_fill_eq sampleDeps_fallback]
  rfl

/-- A fill that arrives after the cancellation makes the order `filled`. -/
theorem cancelled_order_filled :
    (run lifecycleStep {} (lateFill.take 2)).map (·.orders.map (·.status)) =
      some ["cancelled".toList] ∧
    (run lifecycleStep {} lateFill).map (·.orders.map (·.status)) = some ["filled".toList] ∧
    ¬ LifecycleKept lateFill := by
  have hcancelled := run_cancelled
  have hfill : run lifecycleStep cancelledOrder (lateFill.drop 2) =
      some (handleEvent sampleDeps.accounts 6 cancelledOrder (.fill sampleFill none)) := rfl
  have hfilled : run lifecycleStep {} lateFill =
      some (handleEvent sampleDeps.accounts 6 cancelledOrder (.fill sampleFill none)) := by
    rw [← List.take_append_drop 2 lateFill]
    exact (run_append lifecycleStep).mpr ⟨cancelledOrder, hcancelled, hfill⟩
  refine ⟨by rw [hcancelled]; rfl, ?_, ?_⟩
  · rw [hfilled, Option.map_some, orders_handleEvent_lateFill]
    rfl
  · intro hkept
    have hlawful := hkept (lateFill.take 2) (lateFill.drop 2) [] _ _ rfl hcancelled hfill
    obtain ⟨o', ho', -, htransition⟩ := hlawful.kept _ (List.mem_singleton_self _)
    rw [orders_handleEvent_lateFill, List.mem_singleton] at ho'
    obtain ⟨hstatus, -⟩ := htransition.final (by decide)
    rw [ho'] at hstatus
    exact absurd hstatus (by decide)

end AkronSlot.Slot
