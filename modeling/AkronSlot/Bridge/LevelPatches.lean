import AkronSlot.Bridge.TradeRequests

/-!
# What a PATCH does to the levels

A body names some of the two levels.  The routes turn a level that is not named
into `null`, SlotService reads `null` as zero, and the trade request overwrites
both levels, so the other level is cleared.  So is a level given as `1e400`: it
is a number for the schema and `null` in the command.

`PATCH /v1/positions/:id` takes the symbol of its request from the position at
the index that equals the ticket, as a close does.  `PATCH /v1/orders/:id` sends
its id as `order_id`, which the handler never reads, and submits nothing.

## The law

A patch is lawful when it reports failure or when the request it submits sets
what the body says and nothing else (`Patch.Sets`).  The routes, the connector
and the handler are composed for it; `Patch.Keeps` is what is left as a condition
on the body and on the positions that are open.

## Main Definitions

* `Patch`, `Patch.ReportsOk`, `Patch.Sets`, `Patch.Keeps`

## Main Results

* `sets_iff`
* `patch_iff`
-/

namespace AkronSlot.Bridge

open Wire Mql5 Slot

/-- The two routes that modify levels. -/
inductive Patch where
  | position
  | order
  deriving DecidableEq, Repr

/-- A pending order of the terminal, with its levels. No handler reads one; it stands here for
what a patch of an order should do. -/
structure PendingOrder where
  ticket : ℕ
  sl : ℚ
  tp : ℚ

/-- The level after a modification: what was given, `null` being none, and
otherwise what it was before.  No request can set an infinite level. -/
def levelAfter (given : Option (Option JsNumber)) (before : ℚ) : Option ℚ :=
  match given with
  | none => some before
  | some none => some 0
  | some (some x) => x.value?

/-- A level that ends up as it should: it was zero if the body leaves it out, and
is finite if the body gives it. -/
def KeepsLevel (given : Option (Option JsNumber)) (before : ℚ) : Prop :=
  match given with
  | none => before = 0
  | some level => ∀ x ∈ level, x.isFinite

/-- The symbol that `PositionGetSymbol(ticket)` finds. The function takes an index, so that this
is the symbol of another position, or of none. -/
def symbolAtTicket (t : Terminal) (ticket : ℕ) : Text :=
  ((t.positionGetSymbol (asInt ticket)).map (·.symbol)).getD []

/-- The dependencies of a slot whose commands reach the handlers of a terminal,
with the payload delivered. -/
def bridgedDeps (deps : Deps) (t : Terminal) (queries : QueryHandlers) (cid : Uuid) : Deps :=
  { deps with dispatchCommand := fun a p => answer t queries cid (deliveredReader cid a p) }

namespace Patch

/-- The route of a patch. -/
def route (deps : Deps) (id : Text) (body : Option Json) : Patch → Except Problem ManageResult
  | position => patchPosition deps id body
  | order => patchOrder deps id body

/-- The trade call of a patch. -/
def call (id : Text) (levels : ModifyLevels) : Patch → TradeCall
  | position => .modifyPosition id levels.sl.join levels.tp.join
  | order => .modifyOrder id levels.sl.join levels.tp.join

/-- The route answers `ok: true`. -/
def ReportsOk (deps : Deps) (id : Text) (body : Option Json) (patch : Patch) : Prop :=
  ∃ r, patch.route deps id body = .ok r ∧ r.ok = true

/-- The trade request that a patch submits for an account. -/
def submitted (t : Terminal) (queries : QueryHandlers) (cid : Uuid) (rec : AccountRecord)
    (id : Text) (levels : ModifyLevels) (patch : Patch) : Option MqlTradeRequest :=
  submittedBy t queries
    (deliveredReader cid (patch.call id levels).action ((patch.call id levels).payload rec))

/-- The trade request sets the given levels of the position or pending order with
that id and keeps the other ones. -/
def Sets (t : Terminal) (orders : List PendingOrder) (id : Text) (levels : ModifyLevels)
    (req : MqlTradeRequest) : Patch → Prop
  | position => ∃ p ∈ t.positions, natText p.ticket = id ∧ req.action = .sltp ∧
      req.position = p.ticket ∧ req.symbol = p.symbol ∧
      levelAfter levels.sl p.sl = some req.sl ∧ levelAfter levels.tp p.tp = some req.tp
  | order => ∃ o ∈ orders, natText o.ticket = id ∧ req.action = .modify ∧
      req.order = o.ticket ∧ levelAfter levels.sl o.sl = some req.sl ∧
      levelAfter levels.tp o.tp = some req.tp

/-- The patches that set what they name and keep the rest: those of an open
position whose symbol stands at the index that equals its ticket, and whose
levels end up as they should. -/
def Keeps (t : Terminal) (id : Text) (levels : ModifyLevels) : Patch → Prop
  | position => ∃ p ∈ t.positions, natText p.ticket = id ∧ p.ticket < 2 ^ 63 ∧
      symbolAtTicket t p.ticket = p.symbol ∧ KeepsLevel levels.sl p.sl ∧
      KeepsLevel levels.tp p.tp
  | order => False

end Patch

/-! ## Reports -/

theorem reportsOk_unregistered (d : DispatchCommand) (cid : Uuid) (call : TradeCall) :
    call.reportsOk d none cid = false := by
  cases call <;> rfl

/-- A route reports what the connector reports for the addressed account. -/
theorem Patch.reportsOk_iff (patch : Patch) (deps : Deps) (cid : Uuid) (id : Text)
    {body : Option Json} {levels : ModifyLevels} (hbody : ModifyLevels.parse body = some levels) :
    patch.ReportsOk deps id body ↔
      (patch.call id levels).reportsOk deps.dispatchCommand (addressedAccount deps) cid = true := by
  unfold Patch.ReportsOk addressedAccount
  cases href : resolveAccountRef deps with
  | error problem =>
      rw [reportsOk_unregistered]
      cases patch <;>
      · simp only [Patch.route, patchPosition, patchOrder, hbody, orInvalid, href]
        simp [bind, Except.bind]
  | ok ref =>
      cases patch <;>
      · simp only [Patch.route, patchPosition, patchOrder, hbody, orInvalid, href]
        simp [bind, Except.bind, pure, Except.pure, Patch.call, TradeCall.reportsOk]

/-- A route of a bridged slot reports what the handlers of the terminal report. -/
theorem Patch.reportsOk_bridged_iff (patch : Patch) (deps : Deps) (t : Terminal)
    (queries : QueryHandlers) (cid : Uuid) (id : Text) {body : Option Json}
    {levels : ModifyLevels} (hbody : ModifyLevels.parse body = some levels) :
    patch.ReportsOk (bridgedDeps deps t queries cid) id body ↔
      (patch.call id levels).reportsOk
        (fun a p => answer t queries cid (deliveredReader cid a p)) (addressedAccount deps) cid =
          true :=
  patch.reportsOk_iff (bridgedDeps deps t queries cid) cid id hbody

/-! ## Requests -/

/-- A level that is not given ends up zero, and so does an infinite one. -/
theorem delivered_level_iff (given : Option (Option JsNumber)) (before : ℚ) :
    levelAfter given before = some (numberRead given.join) ↔ KeepsLevel given before := by
  match given with
  | none => simp [levelAfter, KeepsLevel, numberRead]
  | some none => simp [levelAfter, KeepsLevel, numberRead]
  | some (some x) =>
      have hread : numberRead (some (some x)).join = x.value?.getD 0 := rfl
      rw [hread]
      simpa [levelAfter, KeepsLevel] using volume_read_iff x

section Submitted

variable (t : Terminal) (queries : QueryHandlers) (cid : Uuid) (rec : AccountRecord) (id : Text)
variable (levels : ModifyLevels)

/-- An order patch submits nothing: its id is not read. -/
theorem order_submitted : Patch.order.submitted t queries cid rec id levels = none := by
  have hid : deliveredReader cid .sltp (modifyOrderPayload rec id levels.sl.join levels.tp.join)
      "payload.position_id" = [] := deliveredReader_payload cid .sltp _ "position_id"
  have hsubmitted : Patch.order.submitted t queries cid rec id levels = (handleSltp t
      (deliveredReader cid .sltp
        (modifyOrderPayload rec id levels.sl.join levels.tp.join))).submitted := rfl
  rw [hsubmitted, handleSltp, ticketField, hid]
  rfl

/-- A position patch submits a request for the ticket its id starts with, with
both levels. -/
theorem position_submitted (req : MqlTradeRequest) :
    Patch.position.submitted t queries cid rec id levels = some req ↔
      asUlong (stringToInteger id) ≠ 0 ∧
        ∃ p, t.positionSelectByTicket (asUlong (stringToInteger id)) = some p ∧
          { action := .sltp
            position := asUlong (stringToInteger id)
            symbol := symbolAtTicket t (asUlong (stringToInteger id))
            sl := numberRead levels.sl.join
            tp := numberRead levels.tp.join } = req := by
  set field := deliveredReader cid .modifyPosition
    (modifyPositionPayload rec id levels.sl.join levels.tp.join) with hfield
  have hsubmitted : Patch.position.submitted t queries cid rec id levels =
      (handleModifyPosition t field).submitted := rfl
  have hticket : field "payload.ticket" = [] :=
    deliveredReader_payload cid .modifyPosition _ "ticket"
  have hid : field "payload.position_id" = id :=
    deliveredReader_ofProperties cid .modifyPosition _ (k := "position_id")
      (v := some (.str id)) (by simp)
  have hsl : field "payload.sl" = (levelScalar levels.sl.join).text :=
    deliveredReader_ofProperties cid .modifyPosition _ (k := "sl")
      (v := some (levelScalar levels.sl.join)) (by simp)
  have htp : field "payload.tp" = (levelScalar levels.tp.join).text :=
    deliveredReader_ofProperties cid .modifyPosition _ (k := "tp")
      (v := some (levelScalar levels.tp.join)) (by simp)
  simp only [hsubmitted, handleModifyPosition, withPosition_submitted, positionTicket_eq hticket,
    hid, hsl, htp, stringToDouble_level, Terminal.submit, Option.some.injEq, symbolAtTicket]

/-- **The submitted request sets what the body says, and keeps the rest, exactly
when** the position's symbol stands at the index that equals its ticket, a level
that is not named is zero anyway, and one that is named is finite. -/
theorem sets_iff (orders : List PendingOrder) (patch : Patch) :
    (∃ req, patch.submitted t queries cid rec id levels = some req ∧
        patch.Sets t orders id levels req) ↔ patch.Keeps t id levels := by
  cases patch with
  | order => simp [order_submitted, Patch.Keeps]
  | position =>
      simp only [position_submitted, Patch.Sets, Patch.Keeps]
      constructor
      · rintro ⟨_, ⟨-, -, -, rfl⟩, p, hp, rfl, -, hposition, hsymbol, hsl, htp⟩
        rw [asUlong_natText] at hposition hsymbol
        have hmin : min p.ticket (2 ^ 63 - 1) = p.ticket := hposition
        rw [hmin] at hsymbol
        exact ⟨p, hp, rfl, by omega, hsymbol, (delivered_level_iff _ _).mp hsl,
          (delivered_level_iff _ _).mp htp⟩
      · rintro ⟨p, hp, rfl, hlt, hsymbol, hsl, htp⟩
        have hpos := t.ticket_pos p hp
        have hticket : asUlong (stringToInteger (natText p.ticket)) = p.ticket := by
          rw [asUlong_natText]
          omega
        rw [hticket]
        exact ⟨_, ⟨by omega, p, t.positionSelectByTicket_mem hp, rfl⟩, p, hp, rfl, rfl, rfl,
          hsymbol, (delivered_level_iff _ _).mpr hsl, (delivered_level_iff _ _).mpr htp⟩

end Submitted

/-! ## The law of a patch -/

/-- The call reports failure, or the request submitted for the addressed account
sets what the body says. -/
def Patch.Lawful (t : Terminal) (queries : QueryHandlers) (cid : Uuid) (deps : Deps)
    (orders : List PendingOrder) (id : Text) (body : Option Json) (levels : ModifyLevels)
    (patch : Patch) : Prop :=
  ¬ patch.ReportsOk (bridgedDeps deps t queries cid) id body ∨
    ∃ rec req, addressedAccount deps = some rec ∧
      patch.submitted t queries cid rec id levels = some req ∧ patch.Sets t orders id levels req

section Law

variable (t : Terminal) (queries : QueryHandlers) (cid : Uuid) (deps : Deps)
variable (orders : List PendingOrder) (id : Text) (patch : Patch) {body : Option Json}
variable {levels : ModifyLevels}

/-- The law of a patch for the account it addresses. -/
theorem lawful_addressed_iff (hbody : ModifyLevels.parse body = some levels) {rec : AccountRecord}
    (haccount : addressedAccount deps = some rec) :
    patch.Lawful t queries cid deps orders id body levels ↔
      GarbledRefusal t (patch.submitted t queries cid rec id levels) ∨
        patch.Keeps t id levels := by
  have hreports := patch.reportsOk_bridged_iff deps t queries cid id hbody
  have hok := reportsOk_iff t queries (deliveredReader cid) cid cid rec (patch.call id levels)
    (deliveredReader_id _ _ _) (.inl (deliveredReader_action _ _ _))
  have hknown : deliveredReader cid (patch.call id levels).action
      ((patch.call id levels).payload rec) "action" ∈ knownActions := TradeCall.action_known _
  rw [haccount] at hreports
  have hfailed : ¬ patch.ReportsOk (bridgedDeps deps t queries cid) id body ↔
      GarbledRefusal t (patch.submitted t queries cid rec id levels) :=
    (not_congr (hreports.trans (hok.trans (and_iff_right hknown)))).trans not_not
  rw [Patch.Lawful, hfailed, haccount, ← sets_iff t queries cid rec id levels orders patch]
  simp

/-- **A patch is lawful exactly when** no account is addressed, the broker's
refusal is garbled on the way back, or the patch keeps what it does not name. -/
theorem patch_iff (hbody : ModifyLevels.parse body = some levels) :
    patch.Lawful t queries cid deps orders id body levels ↔
      addressedAccount deps = none ∨
        ∃ rec, addressedAccount deps = some rec ∧
          (GarbledRefusal t (patch.submitted t queries cid rec id levels) ∨
            patch.Keeps t id levels) := by
  cases haccount : addressedAccount deps with
  | none =>
      have hreports := patch.reportsOk_bridged_iff deps t queries cid id hbody
      rw [haccount, reportsOk_unregistered] at hreports
      simp [Patch.Lawful, hreports]
  | some rec =>
      rw [lawful_addressed_iff t queries cid deps orders id patch hbody haccount]
      simp

end Law

/-- The stop of a position moved to 1. -/
def stopOnly : ModifyLevels := ⟨some (some (JsNumber.ofNat 1 JsNumber.one_short)), none, .inl rfl⟩

def stopOnlyBody : Option Json := some (.obj [("sl", .num (Numeral.ofNat 1))])

theorem parse_stopOnlyBody : ModifyLevels.parse stopOnlyBody = some stopOnly := by
  have hnumber :
      numberValue (.num (Numeral.ofNat 1)) = some (JsNumber.ofNat 1 JsNumber.one_short) := by
    rw [numberValue, asNumber, Option.map_some, Numeral.value_ofNat,
      JsNumber.ofRat_natCast JsNumber.one_short]
  have hlevel : nullableNumber (.num (Numeral.ofNat 1)) =
      some (some (JsNumber.ofNat 1 JsNumber.one_short)) := by
    rw [nullableNumber, hnumber, Option.map_some]
    rintro ⟨⟩
  have hsl : optional nullableNumber (.obj [("sl", .num (Numeral.ofNat 1))]) "sl" =
      some (some (some (JsNumber.ofNat 1 JsNumber.one_short))) :=
    congrArg (Option.map some) hlevel
  have htp : optional nullableNumber (.obj [("sl", .num (Numeral.ofNat 1))]) "tp" = some none := rfl
  have hbody : bodyObject stopOnlyBody = some (.obj [("sl", .num (Numeral.ofNat 1))]) := rfl
  simp only [ModifyLevels.parse, hbody, Option.bind_eq_bind, Option.bind_some, hsl, htp]
  rfl

/-- A position without a target keeps that. -/
theorem patch_without_target_lawful :
    Patch.position.Lawful hedgedTerminal noQueries sampleId sampleDeps [] "1" stopOnlyBody
      stopOnly := by
  have hkeeps : Patch.position.Keeps hedgedTerminal "1" stopOnly :=
    ⟨samplePosition 1 .buy, by simp [hedgedTerminal], by decide, by decide, rfl,
      fun _ hx => Option.some.inj hx ▸ rfl, rfl⟩
  exact (patch_iff hedgedTerminal noQueries sampleId sampleDeps [] "1" .position
    parse_stopOnlyBody).mpr (.inr ⟨sampleRecord, sampleDeps_account, .inr hkeeps⟩)

/-- Two opposite positions in one symbol, the first with a profit target of 3. -/
def targetTerminal : Terminal where
  positions := [{ samplePosition 1 .buy with tp := 3 }, samplePosition 2 .sell]
  nodup_tickets := by simp [samplePosition]
  ticket_pos := by simp [samplePosition]
  ticket_lt := by simp [samplePosition]
  orderSend _ := (true, ⟨10009, 7, []⟩)

/-- Moving the stop clears the target, and the call reports success. -/
theorem patch_clears_target :
    ModifyLevels.parse stopOnlyBody = some stopOnly ∧
      ¬ Patch.position.Lawful targetTerminal noQueries sampleId sampleDeps [] "1" stopOnlyBody
        stopOnly := by
  refine ⟨parse_stopOnlyBody, fun h => ?_⟩
  rcases (lawful_addressed_iff targetTerminal noQueries sampleId sampleDeps [] "1" .position
    parse_stopOnlyBody sampleDeps_account).mp h with hgarbled | hkeeps
  · obtain ⟨req, -, -, hrefused, -⟩ := hgarbled
    exact hrefused rfl
  · obtain ⟨p, hp, hid, -, -, -, htp⟩ := hkeeps
    simp only [targetTerminal, List.mem_cons, List.not_mem_nil, or_false] at hp
    rcases hp with rfl | rfl
    · have hzero : (3 : ℚ) = 0 := htp
      norm_num at hzero
    · exact absurd hid (by decide)

end AkronSlot.Bridge
