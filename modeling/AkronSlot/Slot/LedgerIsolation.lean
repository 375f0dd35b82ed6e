import AkronSlot.Slot.LedgerOps
import AkronSlot.Systems.OrderedMap
import AkronSlot.Systems.Runs

/-!
# What one account's operations do to another account

Every read and every update of the ledger is scoped by account.  The keys are not: an
order id, a ticket and the parent of a fill are looked up over all accounts.  The rows
of an account are a ledger of their own as long as no operation of the account names a
key that an order of another account holds.

## Restriction as a simulation

If the accounts were isolated, the rows of one of them after a sequence of operations would be
those after its own operations alone. So `restrict` should commute with every operation: an
operation of another account should not be seen through it, and one of the account should do the
same to its rows alone. The first always holds. The second fails where a key of another account
decides, and `Undisturbed` is the exact condition on one operation; the rest is an induction
that carries the constraints (`Keyed`) along.

## Main Definitions

* `restrict` — the rows of an account
* `Undisturbed`
* `Alike`

## Main Results

* `undisturbed_iff` — for one operation
* `alike_iff_undisturbed` — for two sequences
-/

namespace AkronSlot.Slot

open Wire Systems

namespace Ledger

variable {accountIds : List Text} {A : Text} {L : Ledger}

/-- The rows of an account: a ledger of their own, as it would be if the slot had no other
account. -/
def restrict (A : Text) (L : Ledger) : Ledger where
  orders := L.orders.filter (·.accountId = A)
  fills := L.fills.filter (·.accountId = A)

theorem mem_orders_restrict {o : OrderRow} :
    o ∈ (L.restrict A).orders ↔ o ∈ L.orders ∧ o.accountId = A := by
  simp [restrict]

/-! ## Writes -/

theorem restrict_updateOrderStatus (accountId id status : Text) (brokerOrderId : Option Text)
    (tsClose : Option ℚ) :
    (L.updateOrderStatus accountId id status brokerOrderId tsClose).restrict A =
      (L.restrict A).updateOrderStatus accountId id status brokerOrderId tsClose := by
  simp only [updateOrderStatus, restrict, List.filter_map]
  congr 2
  refine List.filter_congr fun o _ => ?_
  dsimp only [Function.comp]
  split <;> rfl

/-- An operation of the account writes the same into its rows. -/
theorem restrict_write {op : LedgerOp} (hop : op.accountId = A) :
    (L.write op).restrict A = (L.restrict A).write op := by
  cases op with
  | insertOrder row =>
      have hrow : row.accountId = A := hop
      simp [write, insertOrder, restrict, hrow]
  | updateOrderStatus accountId id status brokerOrderId tsClose =>
      exact restrict_updateOrderStatus accountId id status brokerOrderId tsClose
  | insertFill row =>
      have hrow : row.accountId = A := hop
      simp [write, insertFill, restrict, hrow]

/-- An operation of another account writes nothing into them. -/
theorem restrict_write_of_ne {op : LedgerOp} (hop : op.accountId ≠ A) :
    (L.write op).restrict A = L.restrict A := by
  cases op with
  | insertOrder row =>
      have hrow : row.accountId ≠ A := hop
      simp [write, insertOrder, restrict, hrow]
  | updateOrderStatus accountId orderId status brokerOrderId tsClose =>
      rw [write, restrict_updateOrderStatus]
      refine congrArg (fun orders => (⟨orders, (L.restrict A).fills⟩ : Ledger)) ?_
      refine (List.map_congr_left fun o ho => ?_).trans (List.map_id _)
      exact if_neg fun htarget => hop (htarget.2.symm.trans (mem_orders_restrict.mp ho).2)
  | insertFill row =>
      have hrow : row.accountId ≠ A := hop
      simp [write, insertFill, restrict, hrow]

theorem restrict_perform_of_ne {op : LedgerOp} (hop : op.accountId ≠ A) :
    (L.perform accountIds op).restrict A = L.restrict A := by
  rw [perform]
  split
  · exact restrict_write_of_ne hop
  · rfl

/-- An operation that is accepted alike has the same effect on the rows. -/
theorem restrict_perform {op : LedgerOp} (hop : op.accountId = A)
    (hiff : L.Accepts accountIds op ↔ (L.restrict A).Accepts accountIds op) :
    (L.perform accountIds op).restrict A = (L.restrict A).perform accountIds op := by
  rw [perform, perform]
  by_cases ha : L.Accepts accountIds op
  · rw [if_pos ha, if_pos (hiff.mp ha)]
    exact restrict_write hop
  · rw [if_neg ha, if_neg (hiff.not.mp ha)]

/-! ## Acceptance -/

/-- No order of another account decides about an operation: it holds the id or the ticket
of a new row only if an order of the account does too, it does not hold the ticket of an
update, and it is not the parent of a fill. -/
def Undisturbed (accountIds : List Text) (A : Text) (L : Ledger) : LedgerOp → Prop
  | .insertOrder row => row.accountId ∈ accountIds → (∃ o ∈ L.orders, SharesKey row o) →
      ∃ o ∈ L.orders, o.accountId = A ∧ SharesKey row o
  | .updateOrderStatus _ id _ brokerOrderId _ =>
      (∃ o ∈ L.orders, o.id = id ∧ o.accountId = A) →
        ∀ o ∈ L.orders, o.accountId ≠ A → ∀ b ∈ brokerOrderId, o.brokerOrderId ≠ some b
  | .insertFill row => row.accountId ∈ accountIds →
      ∀ o ∈ L.orders, o.accountId ≠ A → row.orderId ≠ some o.id

theorem undisturbed_insertOrder_iff {row : OrderRow} :
    L.Undisturbed accountIds A (.insertOrder row) ↔
      (L.Accepts accountIds (.insertOrder row) ↔
        (L.restrict A).Accepts accountIds (.insertOrder row)) := by
  constructor
  · intro hund
    constructor
    · rintro ⟨hid, hnone⟩
      exact ⟨hid, fun o ho => hnone o (mem_orders_restrict.mp ho).1⟩
    · rintro ⟨hid, hnone⟩
      refine ⟨hid, fun o ho hshares => ?_⟩
      obtain ⟨k, hk, haccount, hkey⟩ := hund hid ⟨o, ho, hshares⟩
      exact hnone k (mem_orders_restrict.mpr ⟨hk, haccount⟩) hkey
  · rintro hiff hid ⟨o, ho, hshares⟩
    by_contra hnone
    have hown : (L.restrict A).Accepts accountIds (.insertOrder row) := by
      refine ⟨hid, fun k hk hkey => hnone ?_⟩
      obtain ⟨hmem, haccount⟩ := mem_orders_restrict.mp hk
      exact ⟨k, hmem, haccount, hkey⟩
    exact (hiff.mpr hown).2 o ho hshares

theorem undisturbed_updateOrderStatus_iff (h : L.Keyed) {id status : Text}
    {brokerOrderId : Option Text} {tsClose : Option ℚ} :
    L.Undisturbed accountIds A (.updateOrderStatus A id status brokerOrderId tsClose) ↔
      (L.Accepts accountIds (.updateOrderStatus A id status brokerOrderId tsClose) ↔
        (L.restrict A).Accepts accountIds
          (.updateOrderStatus A id status brokerOrderId tsClose)) := by
  constructor
  · intro hund
    constructor
    · rintro haccept ⟨t, ht, htarget⟩ b hb o ho hob
      exact haccept ⟨t, (mem_orders_restrict.mp ht).1, htarget⟩ b hb o
        (mem_orders_restrict.mp ho).1 hob
    · rintro haccept ⟨t, ht, htid, htaccount⟩ b hb o ho hob
      by_cases haccount : o.accountId = A
      · exact haccept ⟨t, mem_orders_restrict.mpr ⟨ht, htaccount⟩, htid, htaccount⟩ b hb o
          (mem_orders_restrict.mpr ⟨ho, haccount⟩) hob
      · exact absurd hob (hund ⟨t, ht, htid, htaccount⟩ o ho haccount b hb)
  · rintro hiff ⟨t, ht, htid, htaccount⟩ o ho haccount b hb hob
    have hrefused : ¬ L.Accepts accountIds
        (.updateOrderStatus A id status brokerOrderId tsClose) := by
      intro haccept
      have hoid := haccept ⟨t, ht, htid, htaccount⟩ b hb o ho hob
      obtain rfl := h.eq_of_id ho ht (hoid.trans htid.symm)
      exact haccount htaccount
    -- the ticket is that of one order, so no order of the account holds it
    apply hrefused
    apply hiff.mpr
    rintro - c hc k hk hkc
    obtain rfl : b = c := Option.some.inj (hb.symm.trans hc)
    obtain ⟨hkmem, hkaccount⟩ := mem_orders_restrict.mp hk
    obtain rfl := h.eq_of_ticket ho hkmem hob hkc
    exact absurd hkaccount haccount

theorem undisturbed_insertFill_iff (h : L.Keyed) {row : FillRow} :
    L.Undisturbed accountIds A (.insertFill row) ↔
      (L.Accepts accountIds (.insertFill row) ↔
        (L.restrict A).Accepts accountIds (.insertFill row)) := by
  constructor
  · intro hund
    constructor
    · rintro ⟨hid, hparent⟩
      refine ⟨hid, fun i hi => ?_⟩
      obtain ⟨o, ho, rfl⟩ := hparent i hi
      have haccount : o.accountId = A := by
        by_contra hne
        exact hund hid o ho hne hi
      exact ⟨o, mem_orders_restrict.mpr ⟨ho, haccount⟩, rfl⟩
    · rintro ⟨hid, hparent⟩
      refine ⟨hid, fun i hi => ?_⟩
      obtain ⟨o, ho, hoid⟩ := hparent i hi
      exact ⟨o, (mem_orders_restrict.mp ho).1, hoid⟩
  · intro hiff hid o ho hne horder
    have haccept : L.Accepts accountIds (.insertFill row) := by
      refine ⟨hid, fun i hi => ⟨o, ho, ?_⟩⟩
      exact Option.some.inj (horder.symm.trans hi)
    obtain ⟨k, hk, hkid⟩ := (hiff.mp haccept).2 o.id horder
    obtain ⟨hkmem, hkaccount⟩ := mem_orders_restrict.mp hk
    obtain rfl := h.eq_of_id hkmem ho hkid
    exact hne hkaccount

/-- **The keys of an operation decide alike** with the rows of the account alone exactly
if it is undisturbed. -/
theorem undisturbed_iff (h : L.Keyed) {op : LedgerOp} (hop : op.accountId = A) :
    L.Undisturbed accountIds A op ↔
      (L.Accepts accountIds op ↔ (L.restrict A).Accepts accountIds op) := by
  cases op with
  | insertOrder row => exact undisturbed_insertOrder_iff
  | updateOrderStatus accountId id status brokerOrderId tsClose =>
      obtain rfl : accountId = A := hop
      exact undisturbed_updateOrderStatus_iff h
  | insertFill row => exact undisturbed_insertFill_iff h

/-! ## Reads -/

/-- The fills of the account belong to its own orders. The side of a fill is that of its order, so
this is what makes positions a matter of the rows of the account. -/
def OwnParents (A : Text) (L : Ledger) : Prop :=
  ∀ f ∈ L.fills, f.accountId = A → ∀ id ∈ f.orderId, ∃ o ∈ L.orders, o.accountId = A ∧ o.id = id

theorem getOrder_restrict (L : Ledger) (A id : Text) :
    (L.restrict A).getOrder A id = L.getOrder A id := by
  rw [getOrder, getOrder, restrict, List.find?_filter]
  congr 1
  funext o
  cases decide (o.accountId = A) <;> simp

theorem getOrderByBrokerId_restrict (L : Ledger) (A b : Text) :
    (L.restrict A).getOrderByBrokerId A b = L.getOrderByBrokerId A b := by
  rw [getOrderByBrokerId, getOrderByBrokerId, restrict, List.find?_filter]
  congr 1
  funext o
  cases decide (o.accountId = A) <;> simp

theorem listOrders_restrict (L : Ledger) (A : Text) (limit : ℤ) :
    (L.restrict A).listOrders A limit = L.listOrders A limit := by
  simp [listOrders, restrict]

theorem listFills_restrict (L : Ledger) (A : Text) (limit : ℤ) :
    (L.restrict A).listFills A limit = L.listFills A limit := by
  simp [listFills, restrict]

/-- The side of a fill of the account. -/
theorem fillSide_restrict (h : L.Keyed) (hown : L.OwnParents A) {f : FillRow} (hf : f ∈ L.fills)
    (haccount : f.accountId = A) : (L.restrict A).fillSide f = L.fillSide f := by
  rw [fillSide, fillSide]
  cases hid : f.orderId with
  | none => rfl
  | some id =>
      obtain ⟨o, ho, hoaccount, rfl⟩ := hown f hf haccount id hid
      have hids : ((L.restrict A).orders.map (·.id)).Nodup :=
        h.ids.sublist (List.filter_sublist.map _)
      rw [Option.bind_some, Option.bind_some, find?_key h.ids ho,
        find?_key hids (mem_orders_restrict.mpr ⟨ho, hoaccount⟩)]

theorem fillsByTime_restrict (L : Ledger) (A : Text) :
    (L.restrict A).fillsByTime A = L.fillsByTime A := by
  simp [fillsByTime, restrict]

theorem positionsFor_restrict (h : L.Keyed) (hown : L.OwnParents A) :
    (L.restrict A).positionsFor A = L.positionsFor A := by
  have hside : ∀ f ∈ L.fillsByTime A, (L.restrict A).fillSide f = L.fillSide f := by
    intro f hf
    have hmem := List.mem_filter.mp ((List.mergeSort_perm _ _).mem_iff.mp hf)
    exact fillSide_restrict h hown hmem.1 (of_decide_eq_true hmem.2)
  have hlots : (L.restrict A).lots A = L.lots A := by
    rw [lots, lots, fillsByTime_restrict]
    refine congrArg tally (List.map_congr_left fun f hf => ?_)
    rw [hside f hf]
  have hsumPx : (L.restrict A).sumPx A = L.sumPx A := by
    rw [sumPx, sumPx, fillsByTime_restrict]
    refine congrArg tally (List.map_congr_left fun f hf => ?_)
    rw [hside f hf]
  rw [positionsFor, positionsFor, hlots, hsumPx]

/-! ## Sequences -/

/-- The ledger after a sequence of operations. -/
def performAll (accountIds : List Text) (L : Ledger) (ops : List LedgerOp) : Ledger :=
  ops.foldl (perform accountIds) L

/-- Which operations of an account succeed. -/
def outcomes (accountIds : List Text) (A : Text) : Ledger → List LedgerOp → List Bool
  | _, [] => []
  | L, op :: ops =>
      if op.accountId = A then
        decide (L.Accepts accountIds op) :: outcomes accountIds A (L.perform accountIds op) ops
      else outcomes accountIds A (L.perform accountIds op) ops

/-- The operations of an account. -/
def opsOf (A : Text) (ops : List LedgerOp) : List LedgerOp := ops.filter (·.accountId = A)

/-- No operation of the account is disturbed when its turn comes. Operations of others are not
asked about: they can disturb, but not be disturbed by this account. -/
def UndisturbedAlong (accountIds : List Text) (A : Text) (L : Ledger) (ops : List LedgerOp) :
    Prop :=
  Along (fun L op => some (perform accountIds L op))
    (fun L op => op.accountId = A → L.Undisturbed accountIds A op) L ops

/-- Two ledgers look the same to an account: each of the reads that the ledger has returns the
same for it. -/
structure SameTo (A : Text) (L K : Ledger) : Prop where
  getOrder : ∀ id, L.getOrder A id = K.getOrder A id
  getOrderByBrokerId : ∀ b, L.getOrderByBrokerId A b = K.getOrderByBrokerId A b
  listOrders : ∀ limit, L.listOrders A limit = K.listOrders A limit
  listFills : ∀ limit, L.listFills A limit = K.listFills A limit
  positionsFor : L.positionsFor A = K.positionsFor A

/-- Two sequences are alike for an account: its operations succeed or fail alike, and what
it reads afterwards is the same. -/
structure Alike (accountIds : List Text) (A : Text) (ops ops' : List LedgerOp) : Prop where
  outcomes : outcomes accountIds A {} ops = outcomes accountIds A {} ops'
  reads : SameTo A (performAll accountIds {} ops) (performAll accountIds {} ops')

theorem undisturbedAlong_cons {op : LedgerOp} {ops : List LedgerOp} :
    UndisturbedAlong accountIds A L (op :: ops) ↔
      (op.accountId = A → L.Undisturbed accountIds A op) ∧
        UndisturbedAlong accountIds A (L.perform accountIds op) ops :=
  along_cons _ rfl ops

theorem opsOf_cons_of_eq {op : LedgerOp} (hop : op.accountId = A) (ops : List LedgerOp) :
    opsOf A (op :: ops) = op :: opsOf A ops :=
  List.filter_cons_of_pos (by simpa using hop)

theorem opsOf_cons_of_ne {op : LedgerOp} (hop : op.accountId ≠ A) (ops : List LedgerOp) :
    opsOf A (op :: ops) = opsOf A ops :=
  List.filter_cons_of_neg (by simpa using hop)

/-- **The rows of the account after a sequence** are those after its own operations. -/
theorem restrict_performAll (h : L.Keyed) {ops : List LedgerOp}
    (halong : UndisturbedAlong accountIds A L ops) :
    (performAll accountIds L ops).restrict A =
      performAll accountIds (L.restrict A) (opsOf A ops) := by
  induction ops generalizing L with
  | nil => rfl
  | cons op ops ih =>
      obtain ⟨hund, hrest⟩ := undisturbedAlong_cons.mp halong
      have htail := ih (h.perform op) hrest
      by_cases hop : op.accountId = A
      · rw [restrict_perform hop ((undisturbed_iff h hop).mp (hund hop))] at htail
        rw [opsOf_cons_of_eq hop]
        exact htail
      · rw [restrict_perform_of_ne hop] at htail
        rw [opsOf_cons_of_ne hop]
        exact htail

/-- **The operations of the account succeed as they would alone** exactly if none of them
is disturbed. -/
theorem outcomes_eq_iff (h : L.Keyed) (ops : List LedgerOp) :
    outcomes accountIds A L ops = outcomes accountIds A (L.restrict A) (opsOf A ops) ↔
      UndisturbedAlong accountIds A L ops := by
  induction ops generalizing L with
  | nil => exact iff_of_true rfl trivial
  | cons op ops ih =>
      rw [undisturbedAlong_cons]
      have hnext : (L.perform accountIds op).Keyed := h.perform op
      have htail := ih hnext
      by_cases hop : op.accountId = A
      · rw [opsOf_cons_of_eq hop, outcomes, outcomes, if_pos hop, if_pos hop, List.cons.injEq,
          decide_eq_decide, ← undisturbed_iff h hop, forall_prop_of_true hop]
        refine and_congr_right fun hund => ?_
        rw [← restrict_perform hop ((undisturbed_iff h hop).mp hund)]
        exact htail
      · rw [opsOf_cons_of_ne hop, outcomes, if_neg hop, forall_prop_of_false hop, true_and,
          ← restrict_perform_of_ne hop]
        exact htail

/-- A sequence without other accounts is undisturbed. -/
theorem undisturbedAlong_of_own (h : L.Keyed) (hown : L.restrict A = L) {ops : List LedgerOp}
    (hops : ∀ op ∈ ops, op.accountId = A) : UndisturbedAlong accountIds A L ops := by
  induction ops generalizing L with
  | nil => trivial
  | cons op ops ih =>
      obtain ⟨hop, hops⟩ := List.forall_mem_cons.mp hops
      have hiff : L.Accepts accountIds op ↔ (L.restrict A).Accepts accountIds op := by rw [hown]
      refine undisturbedAlong_cons.mpr ⟨fun _ => (undisturbed_iff h hop).mpr hiff, ?_⟩
      refine ih (h.perform op) ?_ hops
      rw [restrict_perform hop hiff, hown]

/-- An undisturbed operation keeps the parents of the account's fills its own. -/
theorem OwnParents.perform (hown : L.OwnParents A) {op : LedgerOp}
    (hund : op.accountId = A → L.Undisturbed accountIds A op) :
    (L.perform accountIds op).OwnParents A := by
  rw [Ledger.perform]
  split
  swap
  · exact hown
  · next haccept =>
      cases op with
      | insertOrder row =>
          intro f hf haccount id hid
          obtain ⟨o, ho, ho'⟩ := hown f hf haccount id hid
          exact ⟨o, List.mem_append_left _ ho, ho'⟩
      | updateOrderStatus accountId orderId status brokerOrderId tsClose =>
          intro f hf haccount id hid
          obtain ⟨o, ho, hoaccount, hoid⟩ := hown f hf haccount id hid
          refine ⟨_, List.mem_map_of_mem ho, ?_⟩
          split
          · exact ⟨hoaccount, hoid⟩
          · exact ⟨hoaccount, hoid⟩
      | insertFill row =>
          intro f hf haccount id hid
          rcases List.mem_append.mp hf with hf | hf
          · exact hown f hf haccount id hid
          · obtain rfl := List.mem_singleton.mp hf
            obtain ⟨o, ho, rfl⟩ := haccept.2 id hid
            refine ⟨o, ho, ?_, rfl⟩
            by_contra hne
            exact hund haccount haccept.1 o ho hne hid

/-- What holds after an undisturbed sequence. -/
theorem ownParents_performAll (hown : L.OwnParents A) {ops : List LedgerOp}
    (halong : UndisturbedAlong accountIds A L ops) :
    (performAll accountIds L ops).OwnParents A := by
  induction ops generalizing L with
  | nil => exact hown
  | cons op ops ih =>
      obtain ⟨hund, hrest⟩ := undisturbedAlong_cons.mp halong
      exact ih (hown.perform hund) hrest

theorem Keyed.performAll (h : L.Keyed) (ops : List LedgerOp) :
    (performAll accountIds L ops).Keyed := by
  induction ops generalizing L with
  | nil => exact h
  | cons op ops ih => exact ih (h.perform op)

/-- The account reads its own rows. -/
theorem sameTo_restrict (h : L.Keyed) (hown : L.OwnParents A) : SameTo A L (L.restrict A) where
  getOrder id := (getOrder_restrict L A id).symm
  getOrderByBrokerId b := (getOrderByBrokerId_restrict L A b).symm
  listOrders limit := (listOrders_restrict L A limit).symm
  listFills limit := (listFills_restrict L A limit).symm
  positionsFor := (positionsFor_restrict h hown).symm

theorem SameTo.trans_symm {K M : Ledger} (hLM : SameTo A L M) (hKM : SameTo A K M) :
    SameTo A L K where
  getOrder id := (hLM.getOrder id).trans (hKM.getOrder id).symm
  getOrderByBrokerId b := (hLM.getOrderByBrokerId b).trans (hKM.getOrderByBrokerId b).symm
  listOrders limit := (hLM.listOrders limit).trans (hKM.listOrders limit).symm
  listFills limit := (hLM.listFills limit).trans (hKM.listFills limit).symm
  positionsFor := hLM.positionsFor.trans hKM.positionsFor.symm

/-- Two undisturbed sequences with the same operations of the account are alike. -/
theorem alike_of_undisturbed {ops ops' : List LedgerOp} (hops : opsOf A ops' = opsOf A ops)
    (h : UndisturbedAlong accountIds A {} ops) (h' : UndisturbedAlong accountIds A {} ops') :
    Alike accountIds A ops ops' := by
  have hparents : OwnParents A {} := by simp [OwnParents]
  have hrows := restrict_performAll keyed_empty h
  have hrows' := restrict_performAll keyed_empty h'
  have hkeyed : (performAll accountIds {} ops).Keyed := keyed_empty.performAll ops
  have hkeyed' : (performAll accountIds {} ops').Keyed := keyed_empty.performAll ops'
  refine ⟨?_, ?_⟩
  · rw [(outcomes_eq_iff keyed_empty ops).mpr h, (outcomes_eq_iff keyed_empty ops').mpr h', hops]
  · have hreads := sameTo_restrict hkeyed (ownParents_performAll hparents h)
    have hreads' := sameTo_restrict hkeyed' (ownParents_performAll hparents h')
    rw [hrows'] at hreads'
    rw [hrows, ← hops] at hreads
    exact hreads.trans_symm hreads'

/-- **Isolation**: a sequence of operations is alike for an account to every undisturbed
sequence with the same operations of the account exactly if it is undisturbed itself. -/
theorem alike_iff_undisturbed (accountIds : List Text) (A : Text) (ops : List LedgerOp) :
    (∀ ops', opsOf A ops' = opsOf A ops → UndisturbedAlong accountIds A {} ops' →
      Alike accountIds A ops ops') ↔ UndisturbedAlong accountIds A {} ops := by
  constructor
  · intro h
    have hown : ∀ op ∈ opsOf A ops, op.accountId = A := fun op hop =>
      of_decide_eq_true (List.mem_filter.mp hop).2
    have halone : UndisturbedAlong accountIds A {} (opsOf A ops) :=
      undisturbedAlong_of_own keyed_empty rfl hown
    have hidem : opsOf A (opsOf A ops) = opsOf A ops := by simp [opsOf]
    exact (outcomes_eq_iff keyed_empty ops).mp (h _ hidem halone).outcomes
  · exact fun h ops' hops h' => alike_of_undisturbed hops h h'

/-- Account `a` inserts an order alone, and after account `b` with the same ticket. -/
theorem ticket_of_other_account_refused :
    opsOf "a" [.insertOrder (ticketOrder "2" "b" "42"), .insertOrder (ticketOrder "1" "a" "42")] =
      opsOf "a" [.insertOrder (ticketOrder "1" "a" "42")] ∧
    outcomes ["a", "b"] "a" {} [.insertOrder (ticketOrder "1" "a" "42")] = [true] ∧
    outcomes ["a", "b"] "a" {} [.insertOrder (ticketOrder "2" "b" "42"),
      .insertOrder (ticketOrder "1" "a" "42")] = [false] ∧
    ¬ Alike ["a", "b"] "a"
      [.insertOrder (ticketOrder "2" "b" "42"), .insertOrder (ticketOrder "1" "a" "42")]
      [.insertOrder (ticketOrder "1" "a" "42")] := by
  have halone : outcomes ["a", "b"] "a" {} [.insertOrder (ticketOrder "1" "a" "42")] = [true] := by
    decide
  have hafter : outcomes ["a", "b"] "a" {} [.insertOrder (ticketOrder "2" "b" "42"),
      .insertOrder (ticketOrder "1" "a" "42")] = [false] := by
    decide
  refine ⟨?_, halone, hafter, ?_⟩
  · rw [opsOf_cons_of_ne (by decide)]
  · intro halike
    have houtcomes := halike.outcomes
    rw [halone, hafter] at houtcomes
    cases houtcomes

end Ledger

end AkronSlot.Slot
