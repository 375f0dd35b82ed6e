import AkronSlot.Mql5.Events
import AkronSlot.Slot.Frames
import AkronSlot.Wire.JsonRoundTrip

/-!
# No trade event reaches the slot

`OnTradeTransaction` formats the data of an event with its braces and then puts
braces around it again.  The line has `{{` behind `"data":`, which is no JSON,
so the TCP server drops it as a bad frame: `onTradeTransaction_rejected`.

## Never

The format of the data already has its braces, and the frame puts them around it again. So the
defect is in every line, whatever the transaction is, and no condition on terminals or texts
could save one: a value that begins with two braces is rejected before any of its members is
read. `RejectsValue` carries that from the inner value to the whole line.
-/

namespace AkronSlot.Bridge

open Wire Mql5 Slot

/-- The number that is left of a quantity when it is printed with 8 decimals. -/
def printedValue (x : ℚ) : ℚ := (Numeral.fixed 8 x).value

/-- The decoded frame says what the transaction says: the kind, the order and the deal, the
symbol, and the numbers as they are printed. -/
def Carries (trans : MqlTradeTransaction) : Frame → Prop
  | .fill data _ =>
      data.brokerOrderId = some (ticketText trans.order) ∧
        data.deal = some (ticketText trans.deal) ∧ data.symbol = trans.symbol ∧
        data.qty.map Numeral.value = some (printedValue trans.volume) ∧
        data.price.map Numeral.value = some (printedValue trans.price)
  | .orderState data _ => data.orderId = some (ticketText trans.order)
  | .position data _ =>
      data.orderId = some (ticketText trans.position) ∧ data.symbol = some trans.symbol
  | _ => False

/-- The slot accepts the line as an event of the transaction's kind with the
transaction's content. -/
def Delivers (trans : MqlTradeTransaction) (line : Text) : Prop :=
  ∃ v frame, Json.parse line = some v ∧ anyFrame v = some frame ∧
    frame.kind = trans.event.map (·.1) ∧ Carries trans frame

/-- The data of an event starts with its own brace, and its kind needs no
escapes. -/
theorem event_data_brace (trans : MqlTradeTransaction) {kind data : Text}
    (h : trans.event = some (kind, data)) :
    (∃ rest, data = '{' :: rest) ∧ escapeText kind = kind := by
  unfold MqlTradeTransaction.event at h
  cases htype : trans.type <;> rw [htype] at h <;> cases h
  · exact ⟨⟨_, rfl⟩, by decide⟩
  · exact ⟨⟨_, rfl⟩, by decide⟩
  · exact ⟨⟨_, rfl⟩, by decide⟩
  · exact ⟨⟨_, rfl⟩, by decide⟩

/-- A second brace behind `"data":{` makes the line malformed. -/
theorem eventLine_rejected {kind : Text} (hkind : escapeText kind = kind) (rest : Text) (now : ℤ) :
    Json.parse (eventLine kind ('{' :: rest) now) = none := by
  have hline : eventLine kind ('{' :: rest) now =
      '{' :: (quote "type" ++ ':' :: (quote "event" ++ ',' :: (quote "kind" ++ ':' ::
        (quote kind ++ ',' :: (quote "data" ++ ':' :: '{' :: '{' ::
          (rest ++ ("\x7d,\"ts\":".toList ++ (timeToMs now ++ "\x7d".toList)))))))) := by
    delta eventLine
    simp only [quote_append, hkind, List.append_assoc]
    rfl
  rw [hline]
  have hdata := (Json.rejectsValue_brace_brace
    (rest ++ ("\x7d,\"ts\":".toList ++ (timeToMs now ++ "\x7d".toList)))).member "data"
  exact ((hdata.str_member "kind" kind).str_member "type" "event").object.parse_eq_none

/-- **No forwarded transaction is valid JSON.** -/
theorem onTradeTransaction_rejected {now : ℤ} {trans : MqlTradeTransaction} {line : Text}
    (h : onTradeTransaction now trans = some line) : Json.parse line = none := by
  obtain ⟨⟨kind, data⟩, hevent, rfl⟩ := Option.map_eq_some_iff.mp h
  obtain ⟨⟨rest, rfl⟩, hkind⟩ := event_data_brace trans hevent
  exact eventLine_rejected hkind rest now

/-- **No forwarded transaction is delivered.** The braces of the envelope stand around an object
that has its own, so the line is no JSON, and `handleBuffer` drops a line that it cannot parse. -/
theorem onTradeTransaction_undelivered {now : ℤ} {trans : MqlTradeTransaction} {line : Text}
    (h : onTradeTransaction now trans = some line) : ¬ Delivers trans line := by
  rintro ⟨v, frame, hparse, -⟩
  rw [onTradeTransaction_rejected h] at hparse
  cases hparse

/-- A deal of one lot. -/
def sampleDeal : MqlTradeTransaction where
  type := .dealAdd
  order := 42
  deal := 7
  position := 42
  symbol := "EURUSD"
  dealType := 0
  orderState := 0
  volume := 1
  price := 1

theorem sampleDeal_undelivered :
    ¬ Delivers sampleDeal (eventLine "fill" sampleDeal.dealAddData 0) :=
  onTradeTransaction_undelivered (show onTradeTransaction 0 sampleDeal = _ from rfl)

/-- The frame of a deal is forwarded and dropped. -/
theorem sampleDeal_dropped :
    onTradeTransaction 0 sampleDeal = some (eventLine "fill" sampleDeal.dealAddData 0) ∧
      ¬ Delivers sampleDeal (eventLine "fill" sampleDeal.dealAddData 0) := by
  refine ⟨rfl, ?_⟩
  rintro ⟨v, frame, hparse, -⟩
  have hevent : sampleDeal.event = some ("fill".toList, sampleDeal.dealAddData) := rfl
  obtain ⟨⟨rest, hrest⟩, -⟩ := event_data_brace sampleDeal hevent
  rw [hrest, eventLine_rejected (by decide)] at hparse
  cases hparse

end AkronSlot.Bridge
