import AkronSlot.Wire.JsonRoundTrip
import AkronSlot.Wire.Lines

/-!
# The command client (`mt5-command-client.ts`)

What the slot puts on the command socket and what it makes of the lines that
come back.  `commandFrame` is the frame `dispatch` writes; `readResponse` is
`dispatchFrame` up to the pending map; `settle` is the pair of closures stored
there; `dispatchCommand` is `Mt5TcpServer.dispatchCommand`, which turns the
promise of the client into a value.

A payload value is a scalar: the connector sends no nested values.  JavaScript
numbers are their numerals; `Numeral.value` is the number.

## One call and its lines

Here a command is written once and lines come back until one of them settles it; sockets, timers
and other commands are left to `CommandSocket`. What a claim says about the answer to one
command can be settled at this level, and the object over time refers to the same `commandFrame`
and `readResponse`, so that the two cannot disagree about a frame.
-/

namespace AkronSlot.Slot

open Wire

/-! ## Commands -/

/-- An id made by `randomUUID`. What the rest relies on is in its fields: the length and the
characters, none of which JSON escapes or `JsonField` stops at. -/
structure Uuid where
  text : Text
  length_text : text.length = 36
  hex_text : ∀ c ∈ text, c = '-' ∨ (hexValue? c).isSome

/-- An id to run examples with. -/
def sampleId : Uuid where
  text := "123e4567-e89b-42d3-a456-426614174000"
  length_text := by decide
  hex_text := by simp; decide

/-- The commands the slot sends. -/
inductive Action where
  | open_ | close | cancel | sltp | modifyPosition
  | symbols | symbol | positions | orders | history | quote | account
  | login | logout
  deriving DecidableEq, Repr

/-- The name of an action on the wire. -/
def Action.name : Action → Text
  | .open_ => "open"
  | .close => "close"
  | .cancel => "cancel"
  | .sltp => "sltp"
  | .modifyPosition => "modify_position"
  | .symbols => "symbols"
  | .symbol => "symbol"
  | .positions => "positions"
  | .orders => "orders"
  | .history => "history"
  | .quote => "quote"
  | .account => "account"
  | .login => "login"
  | .logout => "logout"

/-- A payload value. -/
inductive Scalar where
  | null
  | bool (b : Bool)
  | num (n : Numeral)
  | str (s : Text)
  deriving DecidableEq

/-- The JSON value of a scalar. -/
def Scalar.toJson : Scalar → Json
  | .null => .null
  | .bool b => .bool b
  | .num n => .num n
  | .str s => .str s

/-- The text of a scalar: a string itself, and the JSON text of anything else. -/
def Scalar.text : Scalar → Text
  | .str s => s
  | v => Json.print v.toJson

/-- A payload object: its members in insertion order, no key twice. The order matters, since
`JsonField` takes the first occurrence of a key in the frame. -/
structure Payload where
  entries : List (Text × Scalar)
  nodup_keys : (entries.map Prod.fst).Nodup

namespace Payload

/-- No keys are distinct keys. -/
theorem nodup_nil : (([] : List (Text × Scalar)).map Prod.fst).Nodup := List.nodup_nil

/-- The JSON object of a payload. -/
def toJson (p : Payload) : Json := .obj (p.entries.map fun e => (e.1, e.2.toJson))

/-- The properties that `JSON.stringify` keeps: those that are not `undefined`. An optional field
of the connector that is not given is such a property. -/
def present : List (Text × Option Scalar) → List (Text × Scalar)
  | [] => []
  | (_, none) :: l => present l
  | (k, some v) :: l => (k, v) :: present l

theorem present_keys_sublist (l : List (Text × Option Scalar)) :
    ((present l).map Prod.fst).Sublist (l.map Prod.fst) := by
  induction l with
  | nil => simp [present]
  | cons e l ih =>
      obtain ⟨k, v⟩ := e
      cases v with
      | none => exact ih.cons k
      | some v => exact ih.cons_cons k

/-- The object literal with these properties. -/
def ofProperties (l : List (Text × Option Scalar)) (h : (l.map Prod.fst).Nodup) : Payload where
  entries := present l
  nodup_keys := (present_keys_sublist l).nodup h

/-- The value of a key. -/
def get (p : Payload) (k : Text) : Option Scalar := (p.entries.find? (·.1 = k)).map Prod.snd

/-- Looking up a property of an object literal. -/
theorem get_ofProperties {l : List (Text × Option Scalar)} (h : (l.map Prod.fst).Nodup)
    {k : Text} {v : Option Scalar} (hkv : (k, v) ∈ l) : (ofProperties l h).get k = v := by
  simp only [get, ofProperties]
  induction l with
  | nil => simp at hkv
  | cons e l ih =>
      obtain ⟨k₁, w⟩ := e
      simp only [List.map_cons, List.nodup_cons] at h
      rcases List.mem_cons.mp hkv with heq | hmem
      · obtain ⟨rfl, rfl⟩ := Prod.mk.inj heq
        cases v with
        | some v => simp [present]
        | none =>
            have hnone : (present l).find? (·.1 = k) = none := by
              rw [List.find?_eq_none]
              intro e he hk
              have hkey := (present_keys_sublist l).subset (List.mem_map_of_mem he)
              exact h.1 (by rwa [of_decide_eq_true hk] at hkey)
            simp [present, hnone]
      · have hne : k₁ ≠ k := by
          rintro rfl
          exact h.1 (List.mem_map_of_mem hmem)
        cases w with
        | none => exact ih h.2 hmem
        | some w => simpa [present, hne] using ih h.2 hmem

end Payload

/-- The frame of a command, without its newline. -/
def commandFrame (id : Uuid) (action : Text) (payload : Json) : Text :=
  Json.print (.obj [("type", .str "command"), ("id", .str id.text), ("action", .str action),
    ("payload", payload)])

/-! ## Responses -/

/-- `{ ok, result, error }` as a response frame carries it. -/
structure ResponseFrame where
  ok : Bool
  result : Option Json
  error : Option Json

/-- `dispatchFrame` up to the lookup in `pending`: the id of a response frame
and its content.  Anything else is dropped. -/
def readResponse (frame : Text) : Option (Text × ResponseFrame) :=
  match Json.parse frame with
  | none => none
  | some parsed =>
      match parsed.get "type", parsed.get "id" with
      | some (.str kind), some (.str id) =>
          if kind = "response".toList then
            some (id, ⟨Json.truthy (parsed.get "ok"), parsed.get "result", parsed.get "error"⟩)
          else none
      | _, _ => none

/-- `String(v)` of an error value.  SlotService sends no `error` member in a
response, so the texts of arrays, which JavaScript joins without brackets, do
not occur. -/
def errorText : Json → Text
  | .str s => s
  | .obj _ => "[object Object]"
  | v => v.print

/-- The message of `new Error(r.error ?? 'mt5_cmd_failed')`. -/
def errorMessage : Option Json → Text
  | none | some .null => "mt5_cmd_failed"
  | some v => errorText v

/-- What the pending command is settled with: the result, or a message. A refusal of MQL5 becomes
a rejected promise, so that the callers see one kind of failure. -/
def settle (r : ResponseFrame) : Except Text (Option Json) :=
  if r.ok then .ok r.result else .error (errorMessage r.error)

/-- What `dispatch` settles with when these lines arrive before its timeout. -/
def dispatch (id : Uuid) (frames : List Text) : Except Text (Option Json) :=
  match (frames.filterMap readResponse).find? (fun r => r.1 = id.text) with
  | some (_, r) => settle r
  | none => .error "mt5_cmd_timeout"

/-- `CommandResult` of the TCP server. -/
structure CommandResult where
  ok : Bool
  result : Option Json
  error : Option Text

/-- `Mt5TcpServer.dispatchCommand` over the settled promise of the client. -/
def dispatchCommand (settled : Except Text (Option Json)) : CommandResult :=
  match settled with
  | .ok result => ⟨true, result, none⟩
  | .error message => ⟨false, none, some message⟩

end AkronSlot.Slot
