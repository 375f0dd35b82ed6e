import AkronSlot.Bridge.ReplyPieces
import AkronSlot.Slot.AccountPublisher
import AkronSlot.Slot.AccountRecords
import AkronSlot.Slot.StateBridge

/-!
# The path of the account state

`AccountReporter.mq5` writes what it reads of the account to `slot-state.json`, the state
bridge polls the file and sends it, and the slot writes it into the record of the account.

The three run side by side: the file is written and read at any time, sends fail, frames wait
in the connection and can be lost with it.

## What a report has to be like

A report is read as it was meant if its server name is ASCII without control characters
(`Legible`): the file is written in a code page and read as UTF-8.  An amount is printed with
two decimals, read as the double nearest to them, printed again by `json.dumps` and parsed by
the slot.  `RoundTrips` is all that is asked of that third step, so the amounts are compared
as doubles.

## What may happen meanwhile

The bridge publishes a state once, and the slot keeps of it what it can resolve at that
moment.  So a report is lost for good when the connection takes it along, when there is no
record to write it to, or when another publisher writes over it.  `Calm` excludes these, and
nothing else.

## Main Definitions

* `Report`, `stateText` — what the indicator writes
* `ReadsObjects`, `KeepsAscii`, `RoundTrips` — what is relied on of `json` and the code page
* `AccountPath`, `Event`, `step`

## Main Results

* `reads_stateText` — the bridge reads what the indicator has written
* `report_arrives`
-/

namespace AkronSlot.Bridge

open Wire Wire.Utf8 Wire.Python Systems Mql5 Slot
open Slot.AccountPublisher (PyValue)
open Slot.StateBridge (Bridge Dict Loaded Turn newSends sortKeys dataOf)

/-- The file, the bridge, the frames that are in its connection, and the connector. Nothing else
is shared between the three processes. -/
structure AccountPath where
  file : Option Bytes
  bridge : Bridge PyValue
  wire : List (StateBridge.Frame PyValue)
  slot : Mt5Connector

namespace AccountPath

/-! ## The indicator -/

/-- What `WriteAccountState` reads. -/
structure Report where
  login : ℤ
  server : Text
  balance : ℚ
  equity : ℚ
  timeLocal : ℤ

/-- What `EscapeJson` adds for a character. -/
def escapeJsonChar (c : Char) : Text :=
  if c = '"' ∨ c = '\\' then ['\\', c]
  else if c = '\n' then ['\\', 'n']
  else if c = '\r' then ['\\', 'r']
  else if c = '\t' then ['\\', 't']
  else [c]

/-- `EscapeJson`. -/
def escapeJson (s : Text) : Text := s.foldl (fun out c => out ++ escapeJsonChar c) []

/-- The text that `WriteAccountState` writes. -/
def stateText (r : Report) : Text :=
  "\x7b\"logged_in\":".toList ++ (if r.login ≠ 0 then "true".toList else "false".toList) ++
    ",\"login\":".toList ++ integerToString r.login ++ ",\"server\":\"".toList ++
    escapeJson r.server ++ "\",\"balance\":".toList ++ doubleToString r.balance 2 ++
    ",\"equity\":".toList ++ doubleToString r.equity 2 ++ ",\"ts\":".toList ++
    integerToString r.timeLocal ++ "\x7d".toList

/-- What the text says. -/
def stateMembers (r : Report) : List (Text × Json) :=
  [("logged_in", .bool (decide (r.login ≠ 0))), ("login", .num (integerNumeral r.login)),
    ("server", .str r.server), ("balance", .num (Numeral.fixed 2 r.balance)),
    ("equity", .num (Numeral.fixed 2 r.equity)), ("ts", .num (integerNumeral r.timeLocal))]

theorem escapeJsonChar_eq (c : Char) : escapeJsonChar c = jsonEscape [c] := by
  by_cases hc : RawControl c
  · obtain ⟨hlow, hn, hr, ht⟩ := id hc
    have hquote : c ≠ '"' := by rintro rfl; revert hlow; decide
    have hslash : c ≠ '\\' := by rintro rfl; revert hlow; decide
    rw [jsonEscape_rawControl hc, escapeJsonChar]
    simp [hquote, hslash, hn, hr, ht]
  · rw [jsonEscape_singleton hc]
    unfold escapeJsonChar escapeChar
    by_cases hquote : c = '"'
    · simp [hquote]
    by_cases hslash : c = '\\'
    · simp [hslash]
    by_cases hn : c = '\n'
    · simp [hn]
    by_cases hr : c = '\r'
    · simp [hr]
    by_cases ht : c = '\t'
    · simp [ht]
    -- every other control character is a raw one
    have hhigh : ¬ c.toNat < 0x20 := fun hlow => hc ⟨hlow, hn, hr, ht⟩
    have hb : c ≠ '\x08' := by rintro rfl; exact hhigh (by decide)
    have hf : c ≠ '\x0c' := by rintro rfl; exact hhigh (by decide)
    simp [hquote, hslash, hn, hr, ht, hb, hf, hhigh]

/-- The single pass writes what five replacements write. -/
theorem escapeJson_eq (s : Text) : escapeJson s = jsonEscape s := by
  have hpass : ∀ (s out : Text),
      s.foldl (fun out c => out ++ escapeJsonChar c) out = out ++ jsonEscape s := by
    intro s
    induction s with
    | nil => simp
    | cons c s ih =>
        intro out
        have happ : jsonEscape (c :: s) = jsonEscape [c] ++ jsonEscape s := jsonEscape_append [c] s
        rw [List.foldl_cons, ih, escapeJsonChar_eq, happ, List.append_assoc]
  exact hpass s []

/-- An amount as it is printed: the double nearest to its two decimals. -/
def printedAmount (x : ℚ) : ℚ := nearest (Numeral.fixed 2 x).value

/-- A report that everyone can read.  The server name is ASCII and has no control character
that the escape leaves as it is, and the amounts are within the range of doubles. -/
structure Legible (r : Report) : Prop where
  server : ∀ c ∈ r.server, c.toNat < 0x80 ∧ ¬ RawControl c
  balance : |printedAmount r.balance| < 2 ^ 1024
  equity : |printedAmount r.equity| < 2 ^ 1024

/-- The text of a legible report is the print of what it says. -/
theorem stateText_eq_print {r : Report} (h : Legible r) :
    stateText r = Json.print (.obj (stateMembers r)) := by
  have hescape : escapeJson r.server = escapeText r.server := by
    rw [escapeJson_eq, jsonEscape_eq_escapeText fun c hc => (h.server c hc).2]
  unfold stateText stateMembers
  simp only [hescape, integerToString_eq, doubleToString, Json.print, Json.printMembers, quote,
    List.append_assoc]
  by_cases hlogin : r.login = 0
  · simp [hlogin, Json.print, escapeText, escapeChar]
  · simp [hlogin, Json.print, escapeText, escapeChar]

/-! ## Printable texts -/

/-- A printable ASCII character. -/
def Printable (c : Char) : Prop := 0x20 ≤ c.toNat ∧ c.toNat < 0x80

instance (c : Char) : Decidable (Printable c) :=
  inferInstanceAs (Decidable (0x20 ≤ c.toNat ∧ c.toNat < 0x80))

/-- The characters that numerals and escapes are written with. -/
theorem printable_marks :
    ∀ c ∈ ['"', '\\', 'n', 'r', 't', 'b', 'f', 'u', '0', '-', '+', '.', 'e', 'E'],
      Printable c := by
  simp [Printable]

theorem printable_hexChar {n : ℕ} (h : n < 16) : Printable (hexChar n) := by
  have hall : ∀ d : Fin 16, Printable (hexChar d) := by decide
  exact hall ⟨n, h⟩

theorem printable_text (n : Numeral) : ∀ c ∈ n.text, Printable c := by
  intro c hc
  by_contra hnot
  have hdigit : digitOf? c = none := by
    unfold digitOf?
    rw [dif_neg]
    rintro ⟨hlow, hhigh⟩
    have hzero : 0x20 ≤ '0'.toNat := by simp
    have hnine : '9'.toNat < 0x80 := by simp
    exact hnot ⟨hzero.trans hlow, lt_of_le_of_lt hhigh hnine⟩
  have hmark : c ∉ numeralMarks := by
    intro hmem
    refine hnot (printable_marks c ?_)
    exact List.mem_append_right ['"', '\\', 'n', 'r', 't', 'b', 'f', 'u', '0'] hmem
  exact Numeral.text_notMem hdigit hmark n hc

theorem printable_escapeChar {c : Char} (h : c.toNat < 0x80) : ∀ x ∈ escapeChar c, Printable x := by
  intro x hx
  unfold escapeChar at hx
  split_ifs at hx with hquote hslash hn hr ht hb hf hlow
  iterate 7 exact printable_marks x (by simp only [List.mem_cons] at hx ⊢; tauto)
  case pos =>
    simp only [List.mem_cons, List.not_mem_nil, or_false] at hx
    rcases hx with rfl | rfl | rfl | rfl | rfl | rfl
    all_goals first
      | exact printable_marks _ (by decide)
      | exact printable_hexChar (by omega)
  case neg =>
    rw [List.mem_singleton.mp hx]
    exact ⟨not_lt.mp hlow, h⟩

theorem printable_quote {s : Text} (h : ∀ c ∈ s, c.toNat < 0x80) : ∀ x ∈ quote s, Printable x := by
  intro x hx
  have hquote : Printable '"' := printable_marks _ (List.mem_cons_self)
  rcases List.mem_cons.mp hx with rfl | hx
  · exact hquote
  · rcases List.mem_append.mp hx with hx | hx
    · obtain ⟨c, hc, hxc⟩ := List.mem_flatMap.mp hx
      exact printable_escapeChar (h c hc) x hxc
    · rw [List.mem_singleton.mp hx]
      exact hquote

/-- A printed member has its quotes, its colon and a printable value. -/
theorem printable_printMembers {ms : List (Text × Json)}
    (hkeys : ∀ m ∈ ms, ∀ c ∈ m.1, c.toNat < 0x80)
    (hvalues : ∀ m ∈ ms, ∀ x ∈ m.2.print, Printable x) :
    ∀ x ∈ Json.printMembers ms, Printable x := by
  induction ms with
  | nil => simp [Json.printMembers, Printable]
  | cons m ms ih =>
      obtain ⟨k, v⟩ := m
      rw [List.forall_mem_cons] at hkeys hvalues
      have hmarks : ∀ x ∈ [',', ':'], Printable x := by simp [Printable]
      intro x hx
      simp only [Json.printMembers, List.mem_cons, List.mem_append] at hx
      rcases hx with rfl | hx | rfl | hx | hx
      · exact hmarks _ (by simp)
      · exact printable_quote hkeys.1 x hx
      · exact hmarks _ (by simp)
      · exact hvalues.1 x hx
      · exact ih hkeys.2 hvalues.2 x hx

theorem printable_bool (b : Bool) : ∀ x ∈ (Json.bool b).print, Printable x := by
  cases b <;> simp [Json.print, Printable]

/-- What a legible report writes is printable. -/
theorem printable_stateText {r : Report} (h : Legible r) :
    ∀ x ∈ stateText r, Printable x := by
  have hprint : Json.print (.obj (stateMembers r)) =
      '{' :: (Json.printMembers (stateMembers r)).tail := by
    simp [stateMembers, Json.print, Json.printMembers]
  have hmembers : ∀ x ∈ Json.printMembers (stateMembers r), Printable x := by
    refine printable_printMembers ?_ ?_
    · simp [stateMembers]
    · have hserver : ∀ x ∈ (Json.str r.server).print, Printable x :=
        printable_quote fun c hc => (h.server c hc).1
      simp only [stateMembers, List.forall_mem_cons]
      exact ⟨printable_bool _, printable_text _, hserver, printable_text _, printable_text _,
        printable_text _, by simp⟩
  rw [stateText_eq_print h, hprint]
  intro x hx
  rcases List.mem_cons.mp hx with rfl | hx
  · simp [Printable]
  · exact hmembers x (List.mem_of_mem_tail hx)

/-! ## Reading the file -/

/-- A value of a dictionary, as `json.loads` makes it: an integer is exact, every other
number becomes a float.  Of what is too large for one nothing is said. -/
def pyValue : Json → Option PyValue
  | .bool b => some (.bool b)
  | .str s => some (.str s)
  | .num n =>
      if n.frac = [] ∧ n.exp = none then some (.int ⌊n.value⌋)
      else (JsNumber.ofRat n.value).value?.map .float
  | _ => none

/-- `json.loads` reads an object of simple values as the dictionary of its members. Numbers with a
fraction become floats, which is what `pyValue` says. -/
def ReadsObjects (loads : Text → Loaded PyValue) : Prop :=
  ∀ (ms : List (Text × Json)) (d : Dict PyValue), (ms.map Prod.fst).Nodup →
    List.Forall₂ (fun m e => m.1 = e.1 ∧ pyValue m.2 = some e.2) ms d →
    loads (Json.print (.obj ms)) = .dict d

/-- The code page of `FILE_ANSI` writes ASCII as it is. -/
def KeepsAscii (ansi : Text → Bytes) : Prop :=
  ∀ t : Text, (∀ c ∈ t, c.toNat < 0x80) → ansi t = encode t

/-- `json.dumps` prints a float so that it is read back as the same one, as `repr` of Python does.
It is asked of doubles only. -/
def RoundTrips (repr : ℚ → Numeral) : Prop := ∀ x, nearest x = x → nearest (repr x).value = x

/-- The dictionary of a report: what `read_state_file` returns for the file. -/
def stateDict (r : Report) : Dict PyValue :=
  [("logged_in", .bool (decide (r.login ≠ 0))), ("login", .int r.login), ("server", .str r.server),
    ("balance", .float (printedAmount r.balance)), ("equity", .float (printedAmount r.equity)),
    ("ts", .int r.timeLocal)]

theorem value_integerNumeral (i : ℤ) : (integerNumeral i).value = i := by
  simp only [Numeral.value, integerNumeral, List.append_nil, Whole.value_ofNat, Option.elim_none,
    List.length_nil, Nat.cast_zero, sub_zero, zpow_zero, mul_one, decide_eq_true_eq]
  have hcast : ((i.natAbs : ℕ) : ℚ) = |(i : ℚ)| := by simp
  rw [hcast]
  split
  · next hneg => rw [abs_of_neg (Int.cast_lt_zero.mpr hneg)]; ring
  · next hpos => rw [abs_of_nonneg (Int.cast_nonneg (not_lt.mp hpos))]; ring

theorem pyValue_integer (i : ℤ) : pyValue (.num (integerNumeral i)) = some (.int i) := by
  rw [pyValue, if_pos ⟨rfl, rfl⟩, value_integerNumeral, Int.floor_intCast]

theorem pyValue_double {x : ℚ} (h : |printedAmount x| < 2 ^ 1024) :
    pyValue (.num (Numeral.fixed 2 x)) = some (.float (printedAmount x)) := by
  have hfrac : (Numeral.fixed 2 x).frac ≠ [] := by
    rw [Numeral.fixed, ← List.length_pos_iff, length_lastDigits]
    exact Nat.two_pos
  have hfinite : (JsNumber.ofRat (Numeral.fixed 2 x).value).value? = some (printedAmount x) :=
    JsNumber.value?_ofRat h
  rw [pyValue, if_neg fun hint => hfrac hint.1, hfinite, Option.map_some]

theorem loads_stateText {loads : Text → Loaded PyValue} (hloads : ReadsObjects loads) {r : Report}
    (h : Legible r) : loads (stateText r) = .dict (stateDict r) := by
  rw [stateText_eq_print h]
  refine hloads _ _ ?_ ?_
  · simp only [stateMembers, List.map_cons, List.map_nil]
    decide
  · unfold stateMembers stateDict
    refine .cons ⟨rfl, rfl⟩ (.cons ⟨rfl, pyValue_integer _⟩ (.cons ⟨rfl, rfl⟩ ?_))
    exact .cons ⟨rfl, pyValue_double h.balance⟩ (.cons ⟨rfl, pyValue_double h.equity⟩
      (.cons ⟨rfl, pyValue_integer _⟩ .nil))

theorem universalNewlines_of_notMem {t : Text} (h : '\r' ∉ t) :
    StateBridge.universalNewlines t = t := by
  induction t with
  | nil => rfl
  | cons c t ih =>
      obtain ⟨hc, ht⟩ := not_or.mp (mt List.mem_cons.mpr h)
      rw [StateBridge.universalNewlines, ih ht]
      · rintro t rfl
        exact absurd rfl hc
      · rintro rfl
        exact absurd rfl hc

/-- The text starts with a brace and ends with one. -/
theorem strip_stateText (r : Report) : strip (stateText r) = stateText r := by
  refine stripBy_of_ends ?_ ?_
  · intro c hc
    have hhead : (stateText r).head? = some '{' := rfl
    obtain rfl := Option.some.inj (hhead.symm.trans hc)
    decide
  · intro c hc
    have hlast : (stateText r).getLast? = some '}' := by
      unfold stateText
      exact List.getLast?_append_of_ne_nil _ (by simp)
    obtain rfl := Option.some.inj (hlast.symm.trans hc)
    decide

/-- **The bridge reads what the indicator has written.** -/
theorem reads_stateText {loads : Text → Loaded PyValue} {ansi : Text → Bytes}
    (hloads : ReadsObjects loads) (hansi : KeepsAscii ansi) {r : Report} (h : Legible r) :
    StateBridge.readStateFile loads (some (ansi (stateText r))) = some (.dict (stateDict r)) := by
  have hprintable := printable_stateText h
  have hbytes : ansi (stateText r) = encode (stateText r) :=
    hansi _ fun c hc => (hprintable c hc).2
  have hreturn : '\r' ∉ stateText r := fun hmem => by
    have hlow := (hprintable _ hmem).1
    simp at hlow
  have hne : stateText r ≠ [] := List.cons_ne_nil _ _
  rw [hbytes, StateBridge.readStateFile, decode_encode, universalNewlines_of_notMem hreturn,
    strip_stateText]
  simp [hne, loads_stateText hloads h]

/-! ## The frames -/

/-- A value, as `json.dumps` writes it; `repr` is what it makes of a float. -/
def jsonValue (repr : ℚ → Numeral) : PyValue → Json
  | .bool b => .bool b
  | .int n => .num (integerNumeral n)
  | .str t => .str t
  | .float x => .num (repr x)

/-- The members of a dictionary. -/
def jsonMembers (repr : ℚ → Numeral) (d : Dict PyValue) : List (Text × Json) :=
  d.map fun m => (m.1, jsonValue repr m.2)

/-- The word for the kind of a frame. -/
def kindText : StateBridge.Kind → Text
  | .account => "account"
  | .startup => "startup"

/-- `frame`. -/
def frameJson (repr : ℚ → Numeral) (f : StateBridge.Frame PyValue) : Json :=
  .obj [("type", .str "event"), ("kind", .str (kindText f.kind)),
    ("data", .obj (jsonMembers repr f.data)), ("ts", .num (integerNumeral f.ts))]

/-! ## The system -/

/-- What can happen. The indicator, the bridge and the slot are separate processes, so their steps
come in any order; what the bridge has sent is taken out of the connection in the order in which
it was put in. -/
inductive Event where
  /-- `WriteAccountState`; the file can be opened and renamed, or not. -/
  | report (r : Report) (written : Bool)
  /-- The file is gone. -/
  | removed
  /-- An iteration of the bridge, or its end. -/
  | bridge (e : StateBridge.Event)
  /-- The slot takes the next frame out of the connection. -/
  | receive (now : ℚ)
  /-- The connection ends, with what is in it. -/
  | lose
  /-- Something else happens to the connector: a request, a timer, a frame of another
  publisher. -/
  | slot (e : Mt5Connector.Event)

/-- What the slot does with a frame. -/
def handle (numberText : Numeral → Text) (rows : List AccountRow) (repr : ℚ → Numeral)
    (s : Mt5Connector) (f : StateBridge.Frame PyValue) (now : ℚ) : Mt5Connector :=
  match anyFrame (frameJson repr f) with
  | none => s
  | some frame => s.tcpEvent numberText rows frame now

/-- A turn of the bridge reads the file that is there. -/
def reads (s : AccountPath) : StateBridge.Event → Bool
  | .turn t => t.file = s.file
  | .restart => true

section Step

variable (ansi : Text → Bytes) (loads : Text → Loaded PyValue) (repr : ℚ → Numeral)
  (heartbeatS : ℚ) (numberText : Numeral → Text) (rows : List AccountRow)

/-- What each party does. -/
def step (s : AccountPath) : Event → Option AccountPath
  | .report r written =>
      some (if written then { s with file := some (ansi (stateText r)) } else s)
  | .removed => some { s with file := none }
  | .bridge e =>
      if s.reads e then
        (StateBridge.step loads heartbeatS s.bridge e).map fun b =>
          { s with
            bridge := b
            wire := s.wire ++ ((newSends loads heartbeatS s.bridge e).filter (·.2)).map Prod.fst }
      else none
  | .receive now =>
      match s.wire with
      | [] => none
      | f :: rest =>
          some { s with wire := rest, slot := handle numberText rows repr s.slot f now }
  | .lose => some { s with wire := [] }
  | .slot e => (s.slot.step numberText rows e).map fun slot => { s with slot }

end Step

/-- What `state` answers for `ref` shows what was reported.  The amounts are compared as
doubles: they come as numerals, whose exact values the record has here. -/
structure Shows (s : Mt5Connector) (ref : Text) (r : Report) : Prop where
  loggedIn : (s.state ref).loggedIn = decide (r.login ≠ 0)
  balance : (s.state ref).balance.map nearest = some (printedAmount r.balance)
  equity : (s.state ref).equity.map nearest = some (printedAmount r.equity)

/-- An event that neither writes or loses something, nor takes the record of `ref` away. A write
that fails is calm, since the file stays as it is. -/
def Calm (ref : Text) : Event → Prop
  | .report _ written => written = false
  | .removed => False
  | .bridge _ => True
  | .receive _ => True
  | .lose => False
  | .slot (.disconnect ref') => ref' ≠ ref
  | .slot (.frame _ _) => False
  | .slot _ => True

/-- The frame carries the report. -/
def Carries (r : Report) (f : StateBridge.Frame PyValue) : Prop :=
  f.kind = .account ∧ f.data = dataOf (stateDict r)

/-- An account frame that does not carry something else. -/
def Agrees (r : Report) (f : StateBridge.Frame PyValue) : Prop :=
  f.kind = .account → f.data = dataOf (stateDict r)

/-- The report is on its way, or has arrived, and nothing comes after it. -/
def Settling (ref : Text) (r : Report) (s : AccountPath) : Prop :=
  (∃ old new, s.wire = old ++ new ∧ (∃ f ∈ new, Carries r f) ∧ ∀ f ∈ new, Agrees r f) ∨
    (Shows s.slot ref r ∧ ∀ f ∈ s.wire, Agrees r f)

/-- The file says the report, and there is a record for it. This is where a report starts on its
way; the record is made by `connect` and not by the report. -/
structure Ready (ansi : Text → Bytes) (ref : Text) (r : Report) (s : AccountPath) : Prop where
  file : s.file = some (ansi (stateText r))
  record : (s.slot.accounts.get ref).isSome = true

section Proofs

variable {ansi : Text → Bytes} {loads : Text → Loaded PyValue} {repr : ℚ → Numeral}
  {heartbeatS : ℚ} {numberText : Numeral → Text} {rows : List AccountRow} {ref : Text}
  {r : Report}

/-! ## One frame -/

/-- The time is the last member. -/
theorem dataOf_stateDict (r : Report) : dataOf (stateDict r) = (stateDict r).take 5 := rfl

/-- What a frame does to the records. -/
theorem accounts_handle_startup {f : StateBridge.Frame PyValue} (h : f.kind = .startup)
    (s : Mt5Connector) (now : ℚ) :
    (handle numberText rows repr s f now).accounts = s.accounts := by
  obtain ⟨kind, data, ts⟩ := f
  obtain rfl : kind = .startup := h
  rfl

theorem accounts_handle_account {f : StateBridge.Frame PyValue} (h : f.kind = .account)
    (s : Mt5Connector) (now : ℚ) :
    (handle numberText rows repr s f now).accounts =
      match Mt5Connector.frameWrites numberText rows
        (.account (some (jsonMembers repr f.data)) (some (integerNumeral f.ts))) with
      | none => s.accounts
      | some (ref, data) => s.accounts.modify ref (Mt5Connector.writeAccount data) := by
  obtain ⟨kind, data, ts⟩ := f
  obtain rfl : kind = .account := h
  exact Mt5Connector.accounts_tcpEvent numberText rows s _ now

/-- What is shown depends on the record alone. -/
theorem Shows.of_get {s s' : Mt5Connector} (h : Shows s ref r)
    (hsame : s'.accounts.get ref = s.accounts.get ref) : Shows s' ref r := by
  have hstate : s'.state ref = s.state ref := by simp only [Mt5Connector.state, hsame]
  exact ⟨hstate ▸ h.loggedIn, hstate ▸ h.balance, hstate ▸ h.equity⟩

/-- A frame takes no record away. -/
theorem record_handle {s : Mt5Connector} (h : (s.accounts.get ref).isSome = true)
    (f : StateBridge.Frame PyValue) (now : ℚ) :
    ((handle numberText rows repr s f now).accounts.get ref).isSome = true := by
  cases hkind : f.kind with
  | startup => rwa [accounts_handle_startup hkind]
  | account =>
      rw [accounts_handle_account hkind]
      split
      · exact h
      · rw [Registry.get_modify]
        split
        · next heq => simpa [← heq] using h
        · exact h

/-- **A frame that carries the report writes it into the record.** -/
theorem shows_handle (hrepr : RoundTrips repr)
    (hresolve : (resolveAccount rows (numberText (integerNumeral r.login))).map
      (accountRef "mt5") = some ref)
    {s : Mt5Connector} (hrec : (s.accounts.get ref).isSome = true)
    {f : StateBridge.Frame PyValue} (hf : Carries r f) (now : ℚ) :
    Shows (handle numberText rows repr s f now) ref r := by
  obtain ⟨rec, hrec⟩ := Option.isSome_iff_exists.mp hrec
  have hwrites : Mt5Connector.frameWrites numberText rows
      (.account (some (jsonMembers repr f.data)) (some (integerNumeral f.ts))) =
        some (ref, jsonMembers repr f.data) := by
    have hlogin : Frame.loginText numberText
        (.account (some (jsonMembers repr f.data)) (some (integerNumeral f.ts))) =
          numberText (integerNumeral r.login) := by
      rw [hf.2, dataOf_stateDict]
      rfl
    obtain ⟨account, haccount, href⟩ := Option.map_eq_some_iff.mp hresolve
    rw [Mt5Connector.frameWrites, hlogin, haccount, Option.map_some, href]
  have hnow : (handle numberText rows repr s f now).accounts.get ref =
      some (Mt5Connector.writeAccount (jsonMembers repr f.data) rec) := by
    rw [accounts_handle_account hf.1, hwrites]
    dsimp only
    rw [Registry.get_modify, if_pos rfl, hrec]
    rfl
  have hamount : ∀ x, nearest (repr (printedAmount x)).value = printedAmount x :=
    fun x => hrepr _ (nearest_nearest _)
  rw [hf.2, dataOf_stateDict] at hnow
  constructor
  · simp only [Mt5Connector.state, hnow]
    rfl
  · simp only [Mt5Connector.state, hnow]
    exact congrArg some (hamount _)
  · simp only [Mt5Connector.state, hnow]
    exact congrArg some (hamount _)

/-! ## The bridge -/

/-- A turn that finds the report reads its dictionary. -/
theorem turn_reads (hloads : ReadsObjects loads) (hansi : KeepsAscii ansi)
    (hlegible : Legible r) {s : AccountPath} (hready : Ready ansi ref r s) {t : Turn}
    (hfile : s.reads (.turn t) = true) : t.reads loads = some (stateDict r) := by
  have hsame : t.file = some (ansi (stateText r)) := (of_decide_eq_true hfile).trans hready.file
  rw [StateBridge.Turn.reads, hsame, reads_stateText hloads hansi hlegible]

/-- What the bridge sends does not say something else than the report. -/
theorem agrees_newSends (hloads : ReadsObjects loads) (hansi : KeepsAscii ansi)
    (hlegible : Legible r) {s : AccountPath} (hready : Ready ansi ref r s)
    {e : StateBridge.Event} (he : s.reads e = true) :
    ∀ f ∈ newSends loads heartbeatS s.bridge e, Agrees r f.1 := by
  intro f hf hkind
  cases e with
  | restart =>
      rw [StateBridge.newSends_restart] at hf
      cases hf
  | turn t =>
      rw [StateBridge.newSends_reads _ (turn_reads hloads hansi hlegible hready he)] at hf
      rcases List.mem_append.mp hf with hf | hf
      · unfold StateBridge.Bridge.accountSends at hf
        split at hf
        · cases hf
        · rw [List.mem_singleton.mp hf]
      · rw [StateBridge.mem_heartbeatSends hf] at hkind
        cases hkind

/-- What is added to the wire. -/
theorem mem_wire_bridge {b : Bridge PyValue} {e : StateBridge.Event}
    {f : StateBridge.Frame PyValue}
    (h : f ∈ ((newSends loads heartbeatS b e).filter (·.2)).map Prod.fst) :
    ∃ f' ∈ newSends loads heartbeatS b e, f'.1 = f := by
  obtain ⟨f', hf', rfl⟩ := List.mem_map.mp h
  exact ⟨f', List.mem_of_mem_filter hf', rfl⟩

/-- What was settling is settling when more of the report is sent. -/
theorem Settling.send {s : AccountPath} (h : Settling ref r s) (b : Bridge PyValue)
    {added : List (StateBridge.Frame PyValue)} (hadded : ∀ f ∈ added, Agrees r f) :
    Settling ref r { s with bridge := b, wire := s.wire ++ added } := by
  rcases h with ⟨old, new, hwire, hcarries, hagrees⟩ | ⟨hshows, hagrees⟩
  · obtain ⟨f, hf, hcarries⟩ := hcarries
    refine .inl ⟨old, new ++ added, ?_, ⟨f, List.mem_append_left _ hf, hcarries⟩, ?_⟩
    · rw [hwire, List.append_assoc]
    · exact fun f hf => (List.mem_append.mp hf).elim (hagrees f) (hadded f)
  · exact .inr ⟨hshows, fun f hf => (List.mem_append.mp hf).elim (hagrees f) (hadded f)⟩

/-! ## Steps -/

/-- The record of an account that is not disconnected stays, with what it shows. -/
theorem record_slot {s s' : Mt5Connector} {e : Mt5Connector.Event} (hcalm : Calm ref (.slot e))
    (h : s.step numberText rows e = some s') {rec : SessionRecord}
    (hrec : s.accounts.get ref = some rec) : s'.accounts.get ref = some rec := by
  rw [Mt5Connector.get_step numberText rows h ref, hrec]
  cases e with
  | connect creds =>
      simp only [Mt5Connector.recordAfter]
      split <;> rfl
  | slept j => rfl
  | timedOut j => rfl
  | disconnect ref' => exact if_neg fun heq => hcalm heq.symm
  | loggedOut j => rfl
  | frame f now => exact hcalm.elim

theorem ready_step {s s' : AccountPath} {e : Event} (hcalm : Calm ref e)
    (hready : Ready ansi ref r s)
    (h : s.step ansi loads repr heartbeatS numberText rows e = some s') :
    Ready ansi ref r s' := by
  cases e with
  | report r' written =>
      obtain rfl : written = false := hcalm
      obtain rfl := Option.some.inj h
      exact hready
  | removed => exact hcalm.elim
  | bridge e =>
      obtain ⟨-, h⟩ := Option.ite_none_right_eq_some.mp h
      obtain ⟨b, -, rfl⟩ := Option.map_eq_some_iff.mp h
      exact ⟨hready.file, hready.record⟩
  | receive now =>
      cases hwire : s.wire with
      | nil => simp [step, hwire] at h
      | cons f rest =>
          simp only [step, hwire, Option.some.injEq] at h
          subst h
          exact ⟨hready.file, record_handle hready.record f now⟩
  | lose => exact hcalm.elim
  | slot e =>
      obtain ⟨slot, hslot, rfl⟩ := Option.map_eq_some_iff.mp h
      obtain ⟨rec, hrec⟩ := Option.isSome_iff_exists.mp hready.record
      refine ⟨hready.file, ?_⟩
      rw [record_slot hcalm hslot hrec]
      rfl

/-- **The step lemma**: what is settling goes on to settle. -/
theorem settling_step (hloads : ReadsObjects loads) (hansi : KeepsAscii ansi)
    (hrepr : RoundTrips repr) (hlegible : Legible r)
    (hresolve : (resolveAccount rows (numberText (integerNumeral r.login))).map
      (accountRef "mt5") = some ref)
    {s s' : AccountPath} {e : Event} (hcalm : Calm ref e) (hready : Ready ansi ref r s)
    (hsettling : Settling ref r s)
    (h : s.step ansi loads repr heartbeatS numberText rows e = some s') :
    Settling ref r s' := by
  cases e with
  | report r' written =>
      obtain rfl : written = false := hcalm
      obtain rfl := Option.some.inj h
      exact hsettling
  | removed => exact hcalm.elim
  | bridge e =>
      obtain ⟨he, h⟩ := Option.ite_none_right_eq_some.mp h
      obtain ⟨b, -, rfl⟩ := Option.map_eq_some_iff.mp h
      refine hsettling.send b fun f hf => ?_
      obtain ⟨f', hf', rfl⟩ := mem_wire_bridge hf
      exact agrees_newSends hloads hansi hlegible hready he f' hf'
  | receive now =>
      cases hwire : s.wire with
      | nil => simp [step, hwire] at h
      | cons f rest =>
          simp only [step, hwire, Option.some.injEq] at h
          subst h
          rcases hsettling with ⟨old, new, hsplit, hcarries, hagrees⟩ | ⟨hshows, hagrees⟩
          · rw [hwire] at hsplit
            cases old with
            | cons g old =>
                -- an older frame comes first
                obtain ⟨-, rfl⟩ := List.cons.inj hsplit
                exact .inl ⟨old, new, rfl, hcarries, hagrees⟩
            | nil =>
                obtain rfl : f :: rest = new := hsplit
                rw [List.forall_mem_cons] at hagrees
                cases hkind : f.kind with
                | account =>
                    have hf : Carries r f := ⟨hkind, hagrees.1 hkind⟩
                    exact .inr ⟨shows_handle hrepr hresolve hready.record hf now, hagrees.2⟩
                | startup =>
                    obtain ⟨g, hg, hcarry⟩ := hcarries
                    rcases List.mem_cons.mp hg with rfl | hg
                    · exact absurd (hcarry.1.symm.trans hkind) (by decide)
                    · exact .inl ⟨[], rest, rfl, ⟨g, hg, hcarry⟩, hagrees.2⟩
          · rw [hwire, List.forall_mem_cons] at hagrees
            refine .inr ⟨?_, hagrees.2⟩
            cases hkind : f.kind with
            | account =>
                have hf : Carries r f := ⟨hkind, hagrees.1 hkind⟩
                exact shows_handle hrepr hresolve hready.record hf now
            | startup =>
                exact hshows.of_get (by rw [accounts_handle_startup hkind])
  | lose => exact hcalm.elim
  | slot e =>
      obtain ⟨slot, hslot, rfl⟩ := Option.map_eq_some_iff.mp h
      obtain ⟨rec, hrec⟩ := Option.isSome_iff_exists.mp hready.record
      rcases hsettling with hway | ⟨hshows, hagrees⟩
      · exact .inl hway
      · exact .inr ⟨hshows.of_get ((record_slot hcalm hslot hrec).trans hrec.symm), hagrees⟩

/-! ## The report on its way -/

/-- What the bridge has published last is settling. -/
def Pending (ref : Text) (r : Report) (s : AccountPath) : Prop :=
  s.bridge.lastRaw = some (sortKeys (stateDict r)) → Settling ref r s

/-- A report that is delivered to the connection is on its way. -/
theorem settling_of_delivers {s : AccountPath} {b : Bridge PyValue} {e : StateBridge.Event}
    (hagrees : ∀ f ∈ newSends loads heartbeatS s.bridge e, Agrees r f.1)
    (h : StateBridge.Delivers loads heartbeatS .account s.bridge e) :
    Settling ref r { s with
      bridge := b
      wire := s.wire ++ ((newSends loads heartbeatS s.bridge e).filter (·.2)).map Prod.fst } := by
  obtain ⟨f, hf, hkind, hok⟩ := h
  refine .inl ⟨s.wire, _, rfl, ⟨f.1, ?_, hkind, hagrees f hf hkind⟩, fun g hg => ?_⟩
  · exact List.mem_map_of_mem (List.mem_filter.mpr ⟨hf, hok⟩)
  · obtain ⟨f', hf', rfl⟩ := mem_wire_bridge hg
    exact hagrees f' hf'

theorem pending_step (hloads : ReadsObjects loads) (hansi : KeepsAscii ansi)
    (hrepr : RoundTrips repr) (hlegible : Legible r)
    (hresolve : (resolveAccount rows (numberText (integerNumeral r.login))).map
      (accountRef "mt5") = some ref)
    {s s' : AccountPath} {e : Event} (hcalm : Calm ref e) (hready : Ready ansi ref r s)
    (hpending : Pending ref r s)
    (h : s.step ansi loads repr heartbeatS numberText rows e = some s') : Pending ref r s' := by
  intro hraw
  have hsettle : s.bridge.lastRaw = some (sortKeys (stateDict r)) → Settling ref r s' :=
    fun hlast => settling_step hloads hansi hrepr hlegible hresolve hcalm hready (hpending hlast) h
  cases e with
  | report r' written =>
      obtain rfl : written = false := hcalm
      obtain rfl := Option.some.inj h
      exact hsettle hraw
  | removed => exact hcalm.elim
  | bridge e =>
      obtain ⟨he, hbridge⟩ := Option.ite_none_right_eq_some.mp h
      obtain ⟨b, hb, rfl⟩ := Option.map_eq_some_iff.mp hbridge
      have hlast : b.lastRaw = _ := StateBridge.lastRaw_step hb
      rw [show b.lastRaw = some (sortKeys (stateDict r)) from hraw] at hlast
      cases e with
      | restart => cases hlast
      | turn t =>
          by_cases hsent : StateBridge.Delivers loads heartbeatS .account s.bridge (.turn t)
          · exact settling_of_delivers (agrees_newSends hloads hansi hlegible hready he) hsent
          · rw [StateBridge.tells, turn_reads hloads hansi hlegible hready he] at hlast
            simp only [if_neg hsent, Option.getD_none] at hlast
            exact hsettle hlast.symm
  | receive now =>
      cases hwire : s.wire with
      | nil => simp [step, hwire] at h
      | cons f rest =>
          have hbridge : s'.bridge = s.bridge := by
            simp only [step, hwire, Option.some.injEq] at h
            rw [← h]
          exact hsettle (hbridge ▸ hraw)
  | lose => exact hcalm.elim
  | slot e =>
      obtain ⟨slot, -, rfl⟩ := Option.map_eq_some_iff.mp h
      exact hsettle hraw

/-- After a turn whose send succeeds the report is the one that was published last. -/
theorem lastRaw_turn (hloads : ReadsObjects loads) (hansi : KeepsAscii ansi)
    (hlegible : Legible r) {s s' : AccountPath} {t : Turn} (hready : Ready ansi ref r s)
    (hsend : t.accountSend = ⟨true, true⟩)
    (h : s.step ansi loads repr heartbeatS numberText rows (.bridge (.turn t)) = some s') :
    s'.bridge.lastRaw = some (sortKeys (stateDict r)) := by
  obtain ⟨he, hbridge⟩ := Option.ite_none_right_eq_some.mp h
  rw [StateBridge.step_reads _ (turn_reads hloads hansi hlegible hready he), Option.map_some]
    at hbridge
  obtain rfl := Option.some.inj hbridge
  have haccepts : s.bridge.accepts t.accountSend = true := by
    simp [Bridge.accepts, hsend]
  rw [Bridge.lastRaw_heartbeat, Bridge.lastRaw_publish]
  by_cases hlast : s.bridge.lastRaw = some (sortKeys (stateDict r))
  · simp [hlast]
  · simp [hlast, haccepts]

/-- **A report arrives**: from every state with a record of the account, once the indicator
has written a legible report that the bridge has not published last, any order of turns,
restarts and failed sends of the bridge, of requests to the slot and of deliveries, with a
turn among them whose send succeeds, ends, when the connection is empty, with the state of
the account showing the report.  `hcalm`: meanwhile the file is left as it is, nothing is
lost with the connection, there is no other publisher, and the account is not disconnected. -/
theorem report_arrives (hloads : ReadsObjects loads) (hansi : KeepsAscii ansi)
    (hrepr : RoundTrips repr) (hlegible : Legible r)
    (hresolve : (resolveAccount rows (numberText (integerNumeral r.login))).map
      (accountRef "mt5") = some ref)
    {s s' : AccountPath} {es : List Event} (hrecord : (s.slot.accounts.get ref).isSome = true)
    (hnew : s.bridge.lastRaw ≠ some (sortKeys (stateDict r)))
    (hcalm : ∀ e ∈ es, Calm ref e)
    (hsent : ∃ t, .bridge (.turn t) ∈ es ∧ t.accountSend = ⟨true, true⟩)
    (hrun : run (step ansi loads repr heartbeatS numberText rows) s (.report r true :: es) =
      some s')
    (hempty : s'.wire = []) :
    Shows s'.slot ref r := by
  obtain ⟨t, ht, hsend⟩ := hsent
  obtain ⟨before, after, rfl⟩ := List.append_of_mem ht
  obtain ⟨s₀, hs₀, hrun⟩ := (run_cons _).mp hrun
  obtain rfl := Option.some.inj hs₀
  obtain ⟨s₁, hbefore, hrest⟩ := (run_append _).mp hrun
  obtain ⟨s₂, hturn, hafter⟩ := (run_cons _).mp hrest
  rw [List.forall_mem_append, List.forall_mem_cons] at hcalm
  -- until the turn, what has been published last is settling
  have hstart : Ready ansi ref r { s with file := some (ansi (stateText r)) } := ⟨rfl, hrecord⟩
  obtain ⟨hready₁, hpending₁⟩ : Ready ansi ref r s₁ ∧ Pending ref r s₁ :=
    @run_along_invariant _ _ _ (fun _ e => Calm ref e)
      (fun s => Ready ansi ref r s ∧ Pending ref r s)
      (fun _ _ _ hinv hcalm hstep => ⟨ready_step hcalm hinv.1 hstep,
        pending_step hloads hansi hrepr hlegible hresolve hcalm hinv.1 hinv.2 hstep⟩)
      _ _ _ ⟨hstart, fun hraw => absurd hraw hnew⟩ (along_of_forall hcalm.1 _) hbefore
  have hready₂ := ready_step hcalm.2.1 hready₁ hturn
  have hsettling₂ : Settling ref r s₂ :=
    pending_step hloads hansi hrepr hlegible hresolve hcalm.2.1 hready₁ hpending₁ hturn
      (lastRaw_turn hloads hansi hlegible hready₁ hsend hturn)
  -- from then on it is
  obtain ⟨-, hsettling⟩ : Ready ansi ref r s' ∧ Settling ref r s' :=
    @run_along_invariant _ _ _ (fun _ e => Calm ref e)
      (fun s => Ready ansi ref r s ∧ Settling ref r s)
      (fun _ _ _ hinv hcalm hstep => ⟨ready_step hcalm hinv.1 hstep,
        settling_step hloads hansi hrepr hlegible hresolve hcalm hinv.1 hinv.2 hstep⟩)
      _ _ _ ⟨hready₂, hsettling₂⟩ (along_of_forall hcalm.2.2 _) hafter
  rcases hsettling with ⟨old, new, hwire, ⟨f, hf, -⟩, -⟩ | ⟨hshows, -⟩
  · rw [hempty] at hwire
    obtain ⟨-, rfl⟩ := List.append_eq_nil_iff.mp hwire.symm
    cases hf
  · exact hshows

end Proofs

/-! ## A report that arrives -/

/-- `json.loads`, for objects of simple values. -/
def sampleLoads (text : Text) : Loaded PyValue :=
  match Json.parse text with
  | none => .malformed
  | some .null => .null
  | some (.obj ms) =>
      match ms.mapM fun m => (pyValue m.2).map (Prod.mk m.1) with
      | some d => .dict d
      | none => .value
  | some _ => .value

theorem readsObjects_sampleLoads : ReadsObjects sampleLoads := by
  intro ms d hkeys h
  clear hkeys
  have hall : (ms.mapM fun m => (pyValue m.2).map (Prod.mk m.1)) = some d := by
    induction h with
    | nil => rfl
    | cons hm _ ih =>
        rw [List.mapM_cons, ih, hm.2, hm.1]
        rfl
  rw [sampleLoads, Json.parse_print]
  simp only [hall]

def sampleReport : Report := ⟨1001, "Demo \"A\"", 2001 / 2, 4001 / 4, 7⟩

def sampleRows : List AccountRow := [⟨"a", "t", "Demo", "1001", .active, 0⟩]

/-- A connector with a record for the account. -/
def sampleStart : AccountPath :=
  ⟨none, {}, [], Mt5Connector.initial.connect ⟨"Demo", "1001"⟩⟩

/-- A send that fails, one that succeeds, and the delivery. -/
def sampleEvents : List Event :=
  [.bridge (.turn ⟨1, some (encode (stateText sampleReport)), ⟨true, false⟩, 0, ⟨true, true⟩, 0⟩),
    .bridge (.turn ⟨2, some (encode (stateText sampleReport)), ⟨true, true⟩, 0, ⟨true, true⟩, 0⟩),
    .receive 0]

theorem sampleReport_legible : Legible sampleReport where
  server := by simp [sampleReport, RawControl]
  balance := by decide +kernel
  equity := by decide +kernel

/-- For these amounts the shortest decimal that is read back is what Python prints too. -/
theorem sampleReport_arrives : ∃ s' : AccountPath,
    run (step encode sampleLoads decimal 30 Numeral.text sampleRows) sampleStart
      (.report sampleReport true :: sampleEvents) = some s' ∧
    Shows s'.slot "mt5-Demo-1001" sampleReport := by
  have hdone : (run (step encode sampleLoads decimal 30 Numeral.text sampleRows)
      sampleStart (.report sampleReport true :: sampleEvents)).map AccountPath.wire = some [] := by
    decide +kernel
  obtain ⟨s', hrun, hempty⟩ := Option.map_eq_some_iff.mp hdone
  refine ⟨s', hrun, report_arrives readsObjects_sampleLoads (fun _ _ => rfl)
    (fun _ h => nearest_decimal h) sampleReport_legible ?_ ?_ ?_ ?_ ?_ hrun hempty⟩
  · decide +kernel
  · decide +kernel
  · exact nofun
  · simp [sampleEvents, Calm]
  · exact ⟨_, List.mem_cons_of_mem _ List.mem_cons_self, rfl⟩

end AccountPath

end AkronSlot.Bridge
