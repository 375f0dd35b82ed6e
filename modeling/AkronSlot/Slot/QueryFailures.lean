import AkronSlot.Slot.Mt5Queries

/-!
# Queries that fail

What the getters make of an answer that does not carry what they ask for.  A frame with
`ok: true` says only that the action is known: the broker's failures come in the result, as
an object with `error`.  `parseResultJson` reads a text that is no JSON as the empty object,
and every getter has a default for a member that is missing, so that a failure looks like
a broker without positions, or like a price of zero.

## Honesty

An answer is dishonest in one of two ways: what is malformed is returned as if it were a result,
or something empty is returned that nobody has reported as empty. `Honest` excludes both, and it
looks at the frame and at what the call returns, not at how the getter works. The six getters
have one shape (an action, a payload, the members they read), so `QueryCall` is a parameter of
one argument, and the differences are in `expected`, `EmptyMember` and `Stuck`.

## Main Definitions

* `QueryCall`, `throws`, `answersEmpty`
* `sent`, `Malformed`, `Reported`
* `Honest` — what is promised of an answer
* `Sound`, `Stuck`, `Untyped`

## Main Results

* `honest_iff`
-/

namespace AkronSlot.Slot

open Wire Mt5Connector

/-! ## The calls -/

/-- A call that dispatches a query, with the account record it has found. The six of them share
`mt5Query` and differ in what they read of the value. -/
inductive QueryCall where
  | getPositions (rec : Option AccountRecord)
  | getOrders (rec : Option AccountRecord)
  | getHistory (rec : Option AccountRecord) (opts : HistoryQueryOpts)
  | symbols (opts : SymbolsQueryOpts)
  | quote (symbol : Text)
  | getAccount (accountRef : Text) (rec : AccountRecord)

namespace QueryCall

/-- The action a call dispatches. -/
def action : QueryCall → Action
  | getPositions _ => .positions
  | getOrders _ => .orders
  | getHistory _ _ => .history
  | symbols _ => .symbols
  | quote _ => .quote
  | getAccount _ _ => .account

/-- The payload a call dispatches. -/
def payload : QueryCall → Payload
  | getPositions rec => ordersPayload rec
  | getOrders rec => ordersPayload rec
  | getHistory rec opts => historyPayload rec opts
  | symbols opts => symbolsPayload opts
  | quote symbol => quotePayload symbol
  | getAccount _ rec => ordersPayload (some rec)

/-- The members that the result of a call is read for. -/
def expected : QueryCall → List Text
  | getPositions _ => ["positions"]
  | getOrders _ => ["orders"]
  | getHistory _ _ => ["history"]
  | symbols _ => ["symbols"]
  | quote _ => ["bid", "ask"]
  | getAccount _ _ => ["login"]

/-- A number that is zero. -/
def IsZero (v : Json) : Prop := ∃ n : Numeral, v = .num n ∧ n.value = 0

/-- A member that is empty: a list without elements, or a price of zero. -/
def EmptyMember : QueryCall → Json → Prop
  | quote _, v => IsZero v
  | _, v => v = .arr []

section Answers

variable (dispatchCommand : DispatchCommand) (now : Numeral)

/-- The response to the command of a call. -/
def response (call : QueryCall) : CommandResult := dispatchCommand call.action call.payload

/-- The call throws. -/
def throws : QueryCall → Prop
  | getPositions rec => (Mt5Connector.getPositions dispatchCommand rec).isOk = false
  | getOrders rec => (Mt5Connector.getOrders dispatchCommand rec).isOk = false
  | getHistory rec opts => (Mt5Connector.getHistory dispatchCommand rec opts).isOk = false
  | symbols opts => (Mt5Connector.symbols dispatchCommand opts).isOk = false
  | quote symbol => (Mt5Connector.quote dispatchCommand now symbol).isOk = false
  | getAccount accountRef rec =>
      (Mt5Connector.getAccount dispatchCommand (some rec) accountRef).isOk = false

/-- The call returns an empty list, a quote of zero or an empty account object. -/
def answersEmpty : QueryCall → Prop
  | getPositions rec => Mt5Connector.getPositions dispatchCommand rec = .ok (.arr [])
  | getOrders rec => Mt5Connector.getOrders dispatchCommand rec = .ok (.arr [])
  | getHistory rec opts => Mt5Connector.getHistory dispatchCommand rec opts = .ok (.arr [])
  | symbols opts => Mt5Connector.symbols dispatchCommand opts = .ok []
  | quote symbol => ∃ q, Mt5Connector.quote dispatchCommand now symbol = .ok q ∧
      IsZero q.bid ∧ IsZero q.ask
  | getAccount accountRef rec =>
      Mt5Connector.getAccount dispatchCommand (some rec) accountRef = .ok (.obj [])

end Answers

/-! ## What the broker has sent -/

/-- The value of a result: an object, or what a text parses to. It is `none` for a text that is no
JSON, where `parseResultJson` has the empty object. -/
def sent : Option Json → Option Json
  | some (.str s) => Json.parse s
  | some (.obj ms) => some (.obj ms)
  | _ => none

/-- A result that is a text that is no JSON, an object with `error`, or an object without a
member it is read for; `null` is no member. -/
inductive Malformed (call : QueryCall) (result : Option Json) : Prop where
  | text (s : Text) (hresult : result = some (.str s)) (hparse : Json.parse s = none)
  | error (ms : List (Text × Json)) (hsent : sent result = some (.obj ms))
      (herror : (Json.get (.obj ms) "error").isSome)
  | missing (ms : List (Text × Json)) (hsent : sent result = some (.obj ms)) (key : Text)
      (hkey : key ∈ call.expected) (hmember : member (.obj ms) key = none)

/-- The broker has sent what is empty: an empty list, prices of zero or an empty object. -/
def Reported (call : QueryCall) (result : Option Json) : Prop :=
  ∃ v, sent result = some v ∧
    match call with
    | getAccount _ _ => v = .obj []
    | call => ∀ key ∈ call.expected, ∃ w, v.get key = some w ∧ call.EmptyMember w

/-- A malformed result makes the call throw, and what is empty has been reported so. Throwing is
always honest: the route answers with 502. -/
structure Honest (dispatchCommand : DispatchCommand) (now : Numeral) (call : QueryCall) :
    Prop where
  malformed : Malformed call (call.response dispatchCommand).result →
    call.throws dispatchCommand now
  empty : call.answersEmpty dispatchCommand now →
    Reported call (call.response dispatchCommand).result

/-! ## When a call is honest -/

/-- A value without `error` that has the members it is read for. Of any other value the defaults
of the call stand in for what is missing. -/
structure Sound (call : QueryCall) (v : Json) : Prop where
  no_error : v.get "error" = none
  members : ∀ key ∈ call.expected, (member v key).isSome

/-- A list of values that have properties. -/
def Specs (v : Json) : Prop := ∃ vs, v = .arr vs ∧ .null ∉ vs

/-- The call throws on a value: it has no properties, or it is not a list of specs. It is the only
way in which a result can make a getter fail. -/
def Stuck : QueryCall → Json → Prop
  | symbols _, v => v = .null ∨ ∃ w, member v "symbols" = some w ∧ ¬ Specs w
  | getAccount _ _, _ => False
  | _, v => v = .null

/-- The account object is no object. -/
def Untyped : QueryCall → Json → Prop
  | getAccount _ _, v => ∀ ms, v ≠ .obj ms
  | _, _ => False

/-! ## What a result is read as -/

theorem parseResultJson_of_sent {result : Option Json} {v : Json} (h : sent result = some v) :
    parseResultJson result = v := by
  cases result with
  | none => cases h
  | some w =>
      cases w with
      | str s =>
          have hparse : Json.parse s = some v := h
          rw [parseResultJson, hparse, Option.getD_some]
      | obj ms => exact Option.some.inj h
      | _ => cases h

theorem member_eq_some_iff {v w : Json} {key : Text} :
    member v key = some w ↔ v.get key = some w ∧ w ≠ .null := by
  rw [member]
  split
  · next h => simp [h]
  · next h =>
      rw [h]
      constructor
      · intro hw
        cases hw
      · rintro ⟨hw, hne⟩
        exact absurd (Option.some.inj hw).symm hne
  · next u hne h =>
      rw [h]
      constructor
      · rintro hw
        obtain rfl := Option.some.inj hw
        exact ⟨rfl, hne⟩
      · exact fun hw => hw.1

/-- What has a member was sent. -/
theorem sent_of_get {result : Option Json} {key : Text} {w : Json}
    (h : (parseResultJson result).get key = some w) :
    sent result = some (parseResultJson result) := by
  cases result with
  | none => cases h
  | some v =>
      cases v with
      | str s =>
          cases hparse : Json.parse s with
          | none =>
              rw [parseResultJson, hparse] at h
              cases h
          | some u => rw [parseResultJson, sent, hparse, Option.getD_some]
      | obj ms => rfl
      | _ => cases h

/-- Every call reads a member of its result. -/
theorem exists_expected (call : QueryCall) : ∃ key, key ∈ call.expected := by
  cases call <;> exact ⟨_, List.mem_cons_self⟩

theorem exists_obj_of_get {v w : Json} {key : Text} (h : v.get key = some w) :
    ∃ ms, v = .obj ms := by
  cases v with
  | obj ms => exact ⟨ms, rfl⟩
  | _ => cases h

/-- What is sound is not malformed. -/
theorem Sound.not_malformed {call : QueryCall} {result : Option Json}
    (h : Sound call (parseResultJson result)) : ¬ Malformed call result := by
  intro hmalformed
  cases hmalformed with
  | text s hresult hparse =>
      obtain ⟨key, hkey⟩ := call.exists_expected
      have hmember := h.members key hkey
      rw [hresult, parseResultJson, hparse] at hmember
      cases hmember
  | error ms hsent herror =>
      rw [← parseResultJson_of_sent hsent, h.no_error] at herror
      cases herror
  | missing ms hsent key hkey hmember =>
      have hsome := h.members key hkey
      rw [parseResultJson_of_sent hsent, hmember] at hsome
      cases hsome

/-- What is malformed is read as an object. -/
theorem Malformed.exists_obj {call : QueryCall} {result : Option Json}
    (h : Malformed call result) : ∃ ms, parseResultJson result = .obj ms := by
  cases h with
  | text s hresult hparse => exact ⟨[], by rw [hresult, parseResultJson, hparse]; rfl⟩
  | error ms hsent herror => exact ⟨ms, parseResultJson_of_sent hsent⟩
  | missing ms hsent key hkey hmember => exact ⟨ms, parseResultJson_of_sent hsent⟩

/-- An object that was sent and is not sound is malformed. -/
theorem malformed_of_not_sound {call : QueryCall} {result : Option Json}
    {ms : List (Text × Json)} (hsent : sent result = some (.obj ms)) (h : ¬ Sound call (.obj ms)) :
    Malformed call result := by
  by_contra hwell
  apply h
  constructor
  · by_contra herror
    exact hwell (.error ms hsent (Option.isSome_iff_ne_none.mpr herror))
  · intro key hkey
    by_contra hmember
    exact hwell (.missing ms hsent key hkey (Option.not_isSome_iff_eq_none.mp hmember))

/-- An object that was not sent is the one that stands for nothing. -/
theorem eq_empty_of_not_sent {result : Option Json} {ms : List (Text × Json)}
    (hsent : sent result = none) (hread : parseResultJson result = .obj ms) : ms = [] := by
  cases result with
  | none => exact (Json.obj.inj hread).symm
  | some v =>
      cases v with
      | str s =>
          have hparse : Json.parse s = none := hsent
          rw [parseResultJson, hparse] at hread
          exact (Json.obj.inj hread).symm
      | obj ms => cases hsent
      | arr vs => cases hread
      | _ => exact (Json.obj.inj hread).symm

/-! ## What a call answers -/

section Answers

variable {dispatchCommand : DispatchCommand} {now : Numeral}

/-- What the getters read of a frame that is `ok`. -/
theorem mt5Query_of_ok {call : QueryCall} (h : (call.response dispatchCommand).ok) {v : Json}
    (hv : parseResultJson (call.response dispatchCommand).result = v) :
    mt5Query dispatchCommand call.action call.payload = .ok v := by
  rw [← hv]
  exact if_pos h

theorem propertyOr_of_ne_null {v : Json} (h : v ≠ .null) (key : Text) (default : Json) :
    propertyOr v key default = .ok ((member v key).getD default) := by
  have hproperty : property v key = .ok (v.get key) := by
    rw [property]
    exact fun hnull => absurd hnull h
  rw [propertyOr, hproperty, member]
  cases v.get key with
  | none => rfl
  | some w => cases w <;> rfl

/-- An element of the answer to `symbols` is read unless it is `null`. -/
theorem symbolSpec_isOk_iff (v : Json) : (symbolSpec v).isOk ↔ v ≠ .null := by
  cases v with
  | null => exact iff_of_false (by decide) fun h => h rfl
  | obj ms =>
      refine iff_of_true ?_ (by simp)
      have hne : Json.obj ms ≠ .null := by simp
      rw [symbolSpec]
      simp only [propertyOr_of_ne_null hne]
      rfl
  | _ => exact iff_of_true rfl (by simp)

theorem mapM_symbolSpec_isOk_iff (vs : List Json) :
    (vs.mapM symbolSpec).isOk ↔ .null ∉ vs := by
  induction vs with
  | nil => exact iff_of_true rfl (by simp)
  | cons v vs ih =>
      rw [List.mapM_cons, List.mem_cons, not_or, ← ih, ← Ne.eq_def, ne_comm, ← symbolSpec_isOk_iff]
      cases symbolSpec v with
      | error e => exact iff_of_false Bool.false_ne_true fun h => Bool.false_ne_true h.1
      | ok spec =>
          cases vs.mapM symbolSpec with
          | error e => exact iff_of_false Bool.false_ne_true fun h => Bool.false_ne_true h.2
          | ok specs => exact iff_of_true rfl ⟨rfl, rfl⟩

theorem mapM_symbolSpec_eq_nil_iff (vs : List Json) : vs.mapM symbolSpec = .ok [] ↔ vs = [] := by
  cases vs with
  | nil => exact iff_of_true rfl rfl
  | cons v vs =>
      refine iff_of_false ?_ (List.cons_ne_nil v vs)
      rw [List.mapM_cons]
      intro h
      cases hv : symbolSpec v with
      | error e =>
          rw [hv] at h
          cases h
      | ok spec =>
          rw [hv] at h
          cases hvs : vs.mapM symbolSpec with
          | error e =>
              rw [hvs] at h
              cases h
          | ok specs =>
              rw [hvs] at h
              cases h

/-- What `symbols` makes of the list it has found. -/
def specsOf (w : Json) : Except Text (List SymbolSpec) :=
  match w with
  | .arr vs => vs.mapM symbolSpec
  | _ => .error "syms.map is not a function"

theorem specsOf_isOk_iff (w : Json) : (specsOf w).isOk ↔ Specs w := by
  cases w with
  | arr vs =>
      rw [specsOf, mapM_symbolSpec_isOk_iff]
      constructor
      · exact fun h => ⟨vs, rfl, h⟩
      · rintro ⟨us, hus, hnull⟩
        rwa [Json.arr.inj hus]
  | _ => exact iff_of_false Bool.false_ne_true fun ⟨_, h, _⟩ => by cases h

theorem specsOf_eq_nil_iff (w : Json) : specsOf w = .ok [] ↔ w = .arr [] := by
  cases w with
  | arr vs => rw [specsOf, mapM_symbolSpec_eq_nil_iff, Json.arr.injEq]
  | _ => exact iff_of_false (by simp [specsOf]) (by simp)

/-! ### The answers to a frame that is `ok` -/

theorem getPositions_of_ok {rec : Option AccountRecord} {v : Json}
    (h : ((getPositions rec).response dispatchCommand).ok)
    (hv : parseResultJson ((getPositions rec).response dispatchCommand).result = v) :
    Mt5Connector.getPositions dispatchCommand rec = propertyOr v "positions" (.arr []) := by
  have hquery : mt5Query dispatchCommand .positions (ordersPayload rec) = .ok v :=
    mt5Query_of_ok h hv
  rw [Mt5Connector.getPositions, hquery]
  rfl

theorem getOrders_of_ok {rec : Option AccountRecord} {v : Json}
    (h : ((getOrders rec).response dispatchCommand).ok)
    (hv : parseResultJson ((getOrders rec).response dispatchCommand).result = v) :
    Mt5Connector.getOrders dispatchCommand rec = propertyOr v "orders" (.arr []) := by
  have hquery : mt5Query dispatchCommand .orders (ordersPayload rec) = .ok v :=
    mt5Query_of_ok h hv
  rw [Mt5Connector.getOrders, hquery]
  rfl

theorem getHistory_of_ok {rec : Option AccountRecord} {opts : HistoryQueryOpts} {v : Json}
    (h : ((getHistory rec opts).response dispatchCommand).ok)
    (hv : parseResultJson ((getHistory rec opts).response dispatchCommand).result = v) :
    Mt5Connector.getHistory dispatchCommand rec opts = propertyOr v "history" (.arr []) := by
  have hquery : mt5Query dispatchCommand .history (historyPayload rec opts) = .ok v :=
    mt5Query_of_ok h hv
  rw [Mt5Connector.getHistory, hquery]
  rfl

theorem symbols_of_ok {opts : SymbolsQueryOpts} {v : Json}
    (h : ((symbols opts).response dispatchCommand).ok)
    (hv : parseResultJson ((symbols opts).response dispatchCommand).result = v) :
    Mt5Connector.symbols dispatchCommand opts =
      (propertyOr v "symbols" (.arr [])).bind specsOf := by
  have hquery : mt5Query dispatchCommand .symbols (symbolsPayload opts) = .ok v :=
    mt5Query_of_ok h hv
  rw [Mt5Connector.symbols, hquery]
  rfl

theorem getAccount_of_ok {accountRef : Text} {rec : AccountRecord} {v : Json}
    (h : ((getAccount accountRef rec).response dispatchCommand).ok)
    (hv : parseResultJson ((getAccount accountRef rec).response dispatchCommand).result = v) :
    Mt5Connector.getAccount dispatchCommand (some rec) accountRef = .ok v :=
  mt5Query_of_ok h hv

/-- The quote that is made of a value. -/
def quoteOf (now : Numeral) (symbol : Text) (v : Json) : Quote where
  symbol := (member v "symbol").getD (.str symbol)
  bid := (member v "bid").getD (.num (Numeral.ofNat 0))
  ask := (member v "ask").getD (.num (Numeral.ofNat 0))
  ts := (member v "ts").getD (.num now)

theorem quote_of_ok {symbol : Text} {v : Json}
    (h : ((quote symbol).response dispatchCommand).ok)
    (hv : parseResultJson ((quote symbol).response dispatchCommand).result = v) (hne : v ≠ .null) :
    Mt5Connector.quote dispatchCommand now symbol = .ok (quoteOf now symbol v) := by
  have hquery : mt5Query dispatchCommand .quote (quotePayload symbol) = .ok v :=
    mt5Query_of_ok h hv
  rw [Mt5Connector.quote, hquery]
  have hread : ∀ key default, propertyOr v key default = .ok ((member v key).getD default) :=
    propertyOr_of_ne_null hne
  simp only [bind, Except.bind, hread]
  rfl

theorem quote_of_null {symbol : Text} (h : ((quote symbol).response dispatchCommand).ok)
    (hv : parseResultJson ((quote symbol).response dispatchCommand).result = .null) :
    (Mt5Connector.quote dispatchCommand now symbol).isOk = false := by
  have hquery : mt5Query dispatchCommand .quote (quotePayload symbol) = .ok .null :=
    mt5Query_of_ok h hv
  rw [Mt5Connector.quote, hquery]
  rfl

/-- **Which values a call throws on**, when its frame is `ok`. -/
theorem throws_iff {call : QueryCall} (h : (call.response dispatchCommand).ok) {v : Json}
    (hv : parseResultJson (call.response dispatchCommand).result = v) :
    call.throws dispatchCommand now ↔ Stuck call v := by
  have hread : ∀ key, (propertyOr v key (.arr [])).isOk = false ↔ v = .null := by
    intro key
    by_cases hnull : v = .null
    · exact iff_of_true (by rw [hnull]; rfl) hnull
    · rw [propertyOr_of_ne_null hnull]
      exact iff_of_false Bool.noConfusion hnull
  cases call with
  | getPositions rec =>
      show (Mt5Connector.getPositions dispatchCommand rec).isOk = false ↔ v = .null
      rw [getPositions_of_ok h hv, hread]
  | getOrders rec =>
      show (Mt5Connector.getOrders dispatchCommand rec).isOk = false ↔ v = .null
      rw [getOrders_of_ok h hv, hread]
  | getHistory rec opts =>
      show (Mt5Connector.getHistory dispatchCommand rec opts).isOk = false ↔ v = .null
      rw [getHistory_of_ok h hv, hread]
  | symbols opts =>
      rw [throws, symbols_of_ok h hv, Stuck]
      by_cases hnull : v = .null
      · exact iff_of_true (by rw [hnull]; rfl) (.inl hnull)
      · have hspecs : ∀ w, (specsOf w).isOk = false ↔ ¬ Specs w := fun w => by
          rw [← specsOf_isOk_iff, Bool.not_eq_true]
        rw [propertyOr_of_ne_null hnull]
        show (specsOf ((member v "symbols").getD (.arr []))).isOk = false ↔ _
        rw [hspecs]
        cases hmember : member v "symbols" with
        | none => simpa [hnull] using ⟨[], rfl, List.not_mem_nil⟩
        | some w => simp [hnull]
  | quote symbol =>
      show (Mt5Connector.quote dispatchCommand now symbol).isOk = false ↔ v = .null
      by_cases hnull : v = .null
      · exact iff_of_true (quote_of_null h (hv.trans hnull)) hnull
      · rw [quote_of_ok h hv hnull]
        exact iff_of_false Bool.noConfusion hnull
  | getAccount accountRef rec =>
      rw [throws, getAccount_of_ok h hv, Stuck]
      exact iff_of_false Bool.noConfusion id

/-- A call that reads members answers emptily if the members that are there are empty. -/
theorem answersEmpty_iff {call : QueryCall} (hcall : ∀ ref rec, call ≠ getAccount ref rec)
    (h : (call.response dispatchCommand).ok) {v : Json}
    (hv : parseResultJson (call.response dispatchCommand).result = v) (hne : v ≠ .null) :
    call.answersEmpty dispatchCommand now ↔
      ∀ key ∈ call.expected, ∀ w, member v key = some w → call.EmptyMember w := by
  have hread : ∀ key, propertyOr v key (.arr []) = .ok (.arr []) ↔
      ∀ w, member v key = some w → w = .arr [] := by
    intro key
    rw [propertyOr_of_ne_null hne]
    cases member v key <;> simp
  cases call with
  | getPositions rec =>
      rw [answersEmpty, getPositions_of_ok h hv, hread, expected, List.forall_mem_singleton]
      exact Iff.rfl
  | getOrders rec =>
      rw [answersEmpty, getOrders_of_ok h hv, hread, expected, List.forall_mem_singleton]
      exact Iff.rfl
  | getHistory rec opts =>
      rw [answersEmpty, getHistory_of_ok h hv, hread, expected, List.forall_mem_singleton]
      exact Iff.rfl
  | symbols opts =>
      rw [answersEmpty, symbols_of_ok h hv, propertyOr_of_ne_null hne, expected,
        List.forall_mem_singleton]
      show specsOf ((member v "symbols").getD (.arr [])) = .ok [] ↔ _
      rw [specsOf_eq_nil_iff]
      cases member v "symbols" with
      | none => simp
      | some w => simp [EmptyMember]
  | quote symbol =>
      have hzero : ∀ key, IsZero ((member v key).getD (.num (Numeral.ofNat 0))) ↔
          ∀ w, member v key = some w → IsZero w := by
        intro key
        cases member v key with
        | none => simpa using ⟨Numeral.ofNat 0, rfl, by simp⟩
        | some w => simp
      rw [answersEmpty, quote_of_ok h hv hne, expected, List.forall_mem_cons,
        List.forall_mem_singleton]
      show _ ↔ (∀ w, member v "bid" = some w → IsZero w) ∧ ∀ w, member v "ask" = some w → IsZero w
      rw [← hzero, ← hzero]
      constructor
      · rintro ⟨q, hq, hbid, hask⟩
        obtain rfl := Except.ok.inj hq
        exact ⟨hbid, hask⟩
      · exact fun hprices => ⟨_, rfl, hprices⟩
  | getAccount ref rec => exact absurd rfl (hcall ref rec)

/-- A call that answers does not throw. -/
theorem not_throws_of_answersEmpty {call : QueryCall}
    (h : call.answersEmpty dispatchCommand now) : ¬ call.throws dispatchCommand now := by
  cases call with
  | quote symbol =>
      obtain ⟨q, hq, -⟩ := h
      rw [throws, hq]
      exact Bool.noConfusion
  | _ =>
      rw [answersEmpty] at h
      rw [throws, h]
      exact Bool.noConfusion

theorem throws_of_not_ok {call : QueryCall} (h : (call.response dispatchCommand).ok = false) :
    call.throws dispatchCommand now := by
  have hquery : ∃ e, mt5Query dispatchCommand call.action call.payload = .error e :=
    ⟨_, if_neg (Bool.eq_false_iff.mp h)⟩
  obtain ⟨e, he⟩ := hquery
  cases call with
  | getPositions rec =>
      dsimp only [action, payload] at he
      rw [throws, Mt5Connector.getPositions, he]
      rfl
  | getOrders rec =>
      dsimp only [action, payload] at he
      rw [throws, Mt5Connector.getOrders, he]
      rfl
  | getHistory rec opts =>
      dsimp only [action, payload] at he
      rw [throws, Mt5Connector.getHistory, he]
      rfl
  | symbols opts =>
      dsimp only [action, payload] at he
      rw [throws, Mt5Connector.symbols, he]
      rfl
  | quote symbol =>
      dsimp only [action, payload] at he
      rw [throws, Mt5Connector.quote, he]
      rfl
  | getAccount accountRef rec =>
      dsimp only [action, payload] at he
      rw [throws, Mt5Connector.getAccount, he]
      rfl

/-! ## When a call is honest -/

theorem honest_of_throws {call : QueryCall} (h : call.throws dispatchCommand now) :
    Honest dispatchCommand now call :=
  ⟨fun _ => h, fun hempty => absurd h (not_throws_of_answersEmpty hempty)⟩

/-- What has been reported of the members of a call was sent. -/
theorem reported_iff {call : QueryCall} (hcall : ∀ ref rec, call ≠ getAccount ref rec)
    {result : Option Json} :
    Reported call result ↔ ∃ v, sent result = some v ∧
      ∀ key ∈ call.expected, ∃ w, v.get key = some w ∧ call.EmptyMember w := by
  cases call with
  | getAccount ref rec => exact absurd rfl (hcall ref rec)
  | _ => exact Iff.rfl

theorem stuck_null {call : QueryCall} (hcall : ∀ ref rec, call ≠ getAccount ref rec) {v : Json}
    (h : v = .null) : Stuck call v := by
  cases call with
  | symbols opts => exact .inl h
  | getAccount ref rec => exact absurd rfl (hcall ref rec)
  | _ => exact h

/-- A call that reads members is honest if it throws or its value is sound. -/
theorem honest_iff_of_members {call : QueryCall} (hcall : ∀ ref rec, call ≠ getAccount ref rec)
    (h : (call.response dispatchCommand).ok) {v : Json}
    (hv : parseResultJson (call.response dispatchCommand).result = v) :
    Honest dispatchCommand now call ↔ Stuck call v ∨ Sound call v := by
  constructor
  · intro hhonest
    by_contra hbad
    obtain ⟨hstuck, hsound⟩ := not_or.mp hbad
    have hthrows : ¬ call.throws dispatchCommand now := fun hthrows =>
      hstuck ((throws_iff h hv).mp hthrows)
    have hne : v ≠ .null := fun hnull => hstuck (stuck_null hcall hnull)
    by_cases hobj : ∃ ms, sent (call.response dispatchCommand).result = some (.obj ms)
    · obtain ⟨ms, hms⟩ := hobj
      rw [← hv, parseResultJson_of_sent hms] at hsound
      exact hthrows (hhonest.malformed (malformed_of_not_sound hms hsound))
    · -- no member was sent, so that the call answers emptily
      have hnone : ∀ u key w, sent (call.response dispatchCommand).result = some u →
          u.get key ≠ some w := by
        intro u key w hsent hget
        obtain ⟨ms, rfl⟩ := exists_obj_of_get hget
        exact hobj ⟨ms, hsent⟩
      have hempty : call.answersEmpty dispatchCommand now := by
        refine (answersEmpty_iff hcall h hv hne).mpr fun key hkey w hw => ?_
        have hget := (member_eq_some_iff.mp hw).1
        rw [← hv] at hget
        exact absurd hget (hnone _ _ _ (sent_of_get hget))
      obtain ⟨u, hsent, hmembers⟩ := (reported_iff hcall).mp (hhonest.empty hempty)
      obtain ⟨key, hkey⟩ := call.exists_expected
      obtain ⟨w, hw, -⟩ := hmembers key hkey
      exact hnone u key w hsent hw
  · rintro (hstuck | hsound)
    · exact honest_of_throws ((throws_iff h hv).mpr hstuck)
    · obtain ⟨key, hkey⟩ := call.exists_expected
      have hget : ∀ key ∈ call.expected, ∃ w, member v key = some w ∧ v.get key = some w :=
        fun key hkey => (Option.isSome_iff_exists.mp (hsound.members key hkey)).imp
          fun w hw => ⟨hw, (member_eq_some_iff.mp hw).1⟩
      obtain ⟨w, -, hw⟩ := hget key hkey
      have hne : v ≠ .null := by
        rintro rfl
        cases hw
      rw [← hv] at hw
      have hsent := sent_of_get hw
      rw [hv] at hsent
      refine ⟨fun hmalformed => absurd hmalformed (Sound.not_malformed (hv.symm ▸ hsound)),
        fun hempty => (reported_iff hcall).mpr ⟨v, hsent, fun key hkey => ?_⟩⟩
      obtain ⟨w, hmember, hw⟩ := hget key hkey
      exact ⟨w, hw, (answersEmpty_iff hcall h hv hne).mp hempty key hkey w hmember⟩

/-- `getAccount` is honest if its value is sound or no object. -/
theorem honest_iff_of_account {accountRef : Text} {rec : AccountRecord} {v : Json}
    (h : ((getAccount accountRef rec).response dispatchCommand).ok)
    (hv : parseResultJson ((getAccount accountRef rec).response dispatchCommand).result = v) :
    Honest dispatchCommand now (getAccount accountRef rec) ↔
      (∀ ms, v ≠ .obj ms) ∨ Sound (getAccount accountRef rec) v := by
  have hthrows : ¬ (getAccount accountRef rec).throws dispatchCommand now := fun hthrows =>
    (throws_iff h hv).mp hthrows
  have hempty : (getAccount accountRef rec).answersEmpty dispatchCommand now ↔ v = .obj [] := by
    rw [answersEmpty, getAccount_of_ok h hv, Except.ok.injEq]
  constructor
  · intro hhonest
    by_contra hbad
    obtain ⟨hobj, hsound⟩ := not_or.mp hbad
    obtain ⟨ms, rfl⟩ := not_forall_not.mp hobj
    cases hsent : sent ((getAccount accountRef rec).response dispatchCommand).result with
    | some u =>
        obtain rfl := (parseResultJson_of_sent hsent).symm.trans hv
        exact hthrows (hhonest.malformed (malformed_of_not_sound hsent hsound))
    | none =>
        rw [eq_empty_of_not_sent hsent hv] at hempty
        obtain ⟨u, hu, -⟩ := hhonest.empty (hempty.mpr rfl)
        rw [hsent] at hu
        cases hu
  · rintro (hobj | hsound)
    · constructor
      · intro hmalformed
        obtain ⟨ms, hms⟩ := hmalformed.exists_obj
        exact absurd (hv.symm.trans hms) (hobj ms)
      · exact fun hanswer => absurd (hempty.mp hanswer) (hobj [])
    · refine ⟨fun hmalformed => absurd hmalformed (Sound.not_malformed (hv.symm ▸ hsound)),
        fun hanswer => ?_⟩
      obtain rfl := hempty.mp hanswer
      have hlogin := hsound.members "login" List.mem_cons_self
      cases hlogin

/-- The value that the result of a call is read as. -/
def valueOf (call : QueryCall) (dispatchCommand : DispatchCommand) : Json :=
  parseResultJson (call.response dispatchCommand).result

/-- **Which answers are honest**: those to a frame that is not `ok`, those to a value that
the call throws on, and those to a value without `error` that has the members it is read
for. -/
theorem honest_iff (dispatchCommand : DispatchCommand) (now : Numeral) (call : QueryCall) :
    Honest dispatchCommand now call ↔
      (call.response dispatchCommand).ok = false ∨ Stuck call (call.valueOf dispatchCommand) ∨
        Untyped call (call.valueOf dispatchCommand) ∨
          Sound call (call.valueOf dispatchCommand) := by
  cases hok : (call.response dispatchCommand).ok with
  | false => exact iff_of_true (honest_of_throws (throws_of_not_ok hok)) (.inl rfl)
  | true =>
      simp only [Bool.true_eq_false, false_or]
      cases call with
      | getAccount ref rec =>
          rw [honest_iff_of_account hok rfl]
          exact (Iff.of_eq (false_or _)).symm
      | _ =>
          rw [honest_iff_of_members (by simp) hok rfl]
          exact or_congr_right (Iff.of_eq (false_or _)).symm

/-- What `HandleQuote` answers without a symbol. -/
def missingSymbol : CommandResult :=
  ⟨true, some (.obj [("error", .str "missing_symbol")]), none⟩

/-- **A price of zero that nobody has reported**: the terminal answers with an error, and
the quote has prices of zero. -/
theorem missingSymbol_quoted :
    (quote []).answersEmpty (fun _ _ => missingSymbol) (Numeral.ofNat 1) ∧
      ¬ Honest (fun _ _ => missingSymbol) (Numeral.ofNat 1) (quote []) := by
  have hempty : (quote []).answersEmpty (fun _ _ => missingSymbol) (Numeral.ofNat 1) :=
    ⟨_, rfl, ⟨Numeral.ofNat 0, rfl, by simp⟩, Numeral.ofNat 0, rfl, by simp⟩
  refine ⟨hempty, fun h => ?_⟩
  exact not_throws_of_answersEmpty hempty (h.malformed (.error _ rfl rfl))

end Answers

end QueryCall

end AkronSlot.Slot
