import AkronSlot.Slot.Frames
import AkronSlot.Wire.Utf8

/-!
# Verifying tokens (`auth.ts`)

`verifyToken` hands the token to `jwtVerify` of the library jose, takes the claims out
of the payload and compares them with what the caller expects.  jose is not part of
the repository: it is a parameter, and what it accepts is the hypothesis
`AcceptsExactly`.

## What is asked of the library

jose checks the signature and, with the tolerance it is given, `exp` and `nbf`; it is asked for
nothing else, and above all not for `maxTokenAge`. `AcceptsExactly` says that much and no more.
Everything after it is code of the repository: the types of the claims, the scopes, the tenant
and the slot.

## Where the code and its contract part

The specification caps the lifetime of a token at an hour, and `VerifyOpts` promises that an
expectation that is given is enforced. Neither holds: no line compares `exp` with an hour, and
an expectation is skipped when it is falsy, so that an empty tenant admits every tenant.
`Overlooked` has these tokens and no others.

## Main Definitions

* `parseClaims`, `verifyToken`
* `AcceptsExactly` — what `jwtVerify` accepts
* `Acceptable` — what should be accepted
* `Overlooked`

## Main Results

* `parseClaims_eq_ok_iff`, `verifyToken_eq_ok_iff`
* `verifyToken_accepts_iff`
-/

namespace AkronSlot.Slot

open Wire

/-! ## Claims -/

inductive Scope where
  | read | write | stream
  deriving DecidableEq

def Scope.text : Scope → Text
  | .read => "slot:read"
  | .write => "slot:write"
  | .stream => "slot:stream"

/-- A value of `ALL_SCOPES`. -/
def Scope.parse (v : Json) : Option Scope :=
  (asString v).bind fun s =>
    if s = "slot:read" then some .read
    else if s = "slot:write" then some .write
    else if s = "slot:stream" then some .stream
    else none

/-- `Claims`. -/
structure Claims where
  sub : Text
  tenantId : Text
  slotId : Text
  exp : Numeral
  scope : List Scope

/-- The problem of a `ProblemError`. -/
structure AuthProblem where
  status : ℕ
  code : Text
  title : Text
  detail : Option Text := none

def asArray : Json → Option (List Json)
  | .arr vs => some vs
  | _ => none

def missingClaims : AuthProblem where
  status := 401
  code := "UNAUTHENTICATED"
  title := "Token missing required claims"
  detail := some "expected \x7b sub, tenant_id, slot_id, exp, scope \x7d".toList

def unknownScope : AuthProblem where
  status := 401
  code := "UNAUTHENTICATED"
  title := "Token has unknown scope values"

/-- `parseClaims`. -/
def parseClaims (payload : List (Text × Json)) : Except AuthProblem Claims :=
  let v := Json.obj payload
  match required asString v "sub", required asString v "tenant_id",
      required asString v "slot_id", required asNumber v "exp", required asArray v "scope" with
  | some sub, some tenantId, some slotId, some exp, some scope =>
      match scope.mapM Scope.parse with
      | none => .error unknownScope
      | some scope => .ok { sub, tenantId, slotId, exp, scope }
  | _, _, _, _, _ => .error missingClaims

/-! ## Verification -/

/-- `string | Uint8Array`. -/
inductive Secret where
  | text (s : Text)
  | bytes (bs : Bytes)

/-- `encodeSecret`. -/
def encodeSecret : Secret → Bytes
  | .text s => Utf8.encode s
  | .bytes bs => bs

/-- `VerifyOpts`. -/
structure VerifyOpts where
  secret : Secret
  expectedTenantId : Option Text := none
  expectedSlotId : Option Text := none
  requiredScopes : Option (List Scope) := none
  clockToleranceSeconds : Option ℚ := none

/-- The tolerance, by default five seconds. -/
def VerifyOpts.tolerance (opts : VerifyOpts) : ℚ := opts.clockToleranceSeconds.getD 5

/-- `jwtVerify` with the algorithm HS256: the token, the key, the tolerance and the time in
seconds, and the payload or the message of an error. -/
abbrev JwtVerify := Text → Bytes → ℚ → ℤ → Except Text (List (Text × Json))

/-- A value that is expected and truthy, and another one. The empty text is falsy in JavaScript,
so that it is never a mismatch. -/
def mismatch (expected : Option Text) (actual : Text) : Bool :=
  expected.any fun e => !e.isEmpty && e ≠ actual

def tenantMismatch (actual expected : Text) : AuthProblem where
  status := 403
  code := "FORBIDDEN"
  title := "Tenant mismatch"
  detail := some ("token tenant_id=".toList ++ (actual ++ (", expected ".toList ++ expected)))

def slotMismatch (actual expected : Text) : AuthProblem where
  status := 403
  code := "FORBIDDEN"
  title := "Slot mismatch"
  detail := some ("token slot_id=".toList ++ (actual ++ (", expected ".toList ++ expected)))

def insufficientScope (missing : List Scope) : AuthProblem where
  status := 403
  code := "FORBIDDEN"
  title := "Insufficient scope"
  detail := some ("missing scopes: ".toList ++
    (", ".toList).intercalate (missing.map Scope.text))

/-- The comparisons with what the caller expects. -/
def checkExpected (opts : VerifyOpts) (claims : Claims) : Except AuthProblem Claims :=
  if mismatch opts.expectedTenantId claims.tenantId then
    .error (tenantMismatch claims.tenantId (opts.expectedTenantId.getD []))
  else if mismatch opts.expectedSlotId claims.slotId then
    .error (slotMismatch claims.slotId (opts.expectedSlotId.getD []))
  else
    let missing := (opts.requiredScopes.getD []).filter (· ∉ claims.scope)
    if missing.isEmpty then .ok claims else .error (insufficientScope missing)

/-- `verifyToken`. -/
def verifyToken (jwtVerify : JwtVerify) (now : ℤ) (token : Text) (opts : VerifyOpts) :
    Except AuthProblem Claims :=
  match jwtVerify token (encodeSecret opts.secret) opts.tolerance now with
  | .error message =>
      .error
        { status := 401
          code := "UNAUTHENTICATED"
          title := "Invalid or expired token"
          detail := some message }
  | .ok payload => (parseClaims payload).bind (checkExpected opts)

/-! ## What is accepted -/

/-- A payload with all claims, of the right types, and scopes that are known. It determines the
claims, so a token stands for one set of them. -/
structure HasClaims (payload : List (Text × Json)) (c : Claims) : Prop where
  sub : (Json.obj payload).get "sub" = some (.str c.sub)
  tenantId : (Json.obj payload).get "tenant_id" = some (.str c.tenantId)
  slotId : (Json.obj payload).get "slot_id" = some (.str c.slotId)
  exp : (Json.obj payload).get "exp" = some (.num c.exp)
  scope : (Json.obj payload).get "scope" = some (.arr (c.scope.map fun s => .str s.text))

theorem asString_eq_some_iff {v : Json} {s : Text} : asString v = some s ↔ v = .str s := by
  cases v <;> simp [asString]

theorem asNumber_eq_some_iff {v : Json} {n : Numeral} : asNumber v = some n ↔ v = .num n := by
  cases v <;> simp [asNumber]

theorem asArray_eq_some_iff {v : Json} {vs : List Json} : asArray v = some vs ↔ v = .arr vs := by
  cases v <;> simp [asArray]

/-- A member that must be there, when its schema asks for one form of values. -/
theorem required_eq_some_iff {α : Type} {schema : Json → Option α} {form : α → Json}
    (hschema : ∀ v a, schema v = some a ↔ v = form a) {v : Json} {key : Text} {a : α} :
    required schema v key = some a ↔ v.get key = some (form a) := by
  rw [required, Option.bind_eq_some_iff]
  constructor
  · rintro ⟨w, hw, ha⟩
    rw [hw, (hschema w a).mp ha]
  · intro h
    exact ⟨form a, h, (hschema _ a).mpr rfl⟩

theorem Scope.parse_eq_some_iff {v : Json} {s : Scope} :
    Scope.parse v = some s ↔ v = .str s.text := by
  rw [Scope.parse, Option.bind_eq_some_iff]
  constructor
  · rintro ⟨t, ht, hs⟩
    rw [asString_eq_some_iff.mp ht]
    split at hs
    · next h => rw [← Option.some.inj hs, h]; rfl
    · split at hs
      · next h => rw [← Option.some.inj hs, h]; rfl
      · split at hs
        · next h => rw [← Option.some.inj hs, h]; rfl
        · cases hs
  · rintro rfl
    exact ⟨s.text, rfl, by cases s <;> decide⟩

theorem mapM_scope_eq_some_iff {vs : List Json} {scope : List Scope} :
    vs.mapM Scope.parse = some scope ↔ vs = scope.map fun s => .str s.text := by
  induction vs generalizing scope with
  | nil =>
      rw [List.mapM_nil]
      constructor
      · intro h
        rw [← Option.some.inj h]
        rfl
      · intro h
        rw [List.map_eq_nil_iff.mp h.symm]
        rfl
  | cons v vs ih =>
      rw [List.mapM_cons]
      constructor
      · intro h
        obtain ⟨s, hs, hrest⟩ := Option.bind_eq_some_iff.mp h
        obtain ⟨ss, hss, hcons⟩ := Option.bind_eq_some_iff.mp hrest
        rw [← Option.some.inj hcons, Scope.parse_eq_some_iff.mp hs, ih.mp hss]
        rfl
      · intro h
        cases scope with
        | nil => cases h
        | cons s ss =>
            obtain ⟨hv, hvs⟩ := List.cons.inj h
            have hs : Scope.parse v = some s := Scope.parse_eq_some_iff.mpr hv
            rw [hs, ih.mpr hvs]
            rfl

/-- `parseClaims` takes the claims out of a payload that has them. -/
theorem parseClaims_eq_ok_iff {payload : List (Text × Json)} {c : Claims} :
    parseClaims payload = .ok c ↔ HasClaims payload c := by
  have hsub := @required_eq_some_iff _ _ _ (fun v s => @asString_eq_some_iff v s)
    (.obj payload) "sub"
  have htenant := @required_eq_some_iff _ _ _ (fun v s => @asString_eq_some_iff v s)
    (.obj payload) "tenant_id"
  have hslot := @required_eq_some_iff _ _ _ (fun v s => @asString_eq_some_iff v s)
    (.obj payload) "slot_id"
  have hexp := @required_eq_some_iff _ _ _ (fun v s => @asNumber_eq_some_iff v s)
    (.obj payload) "exp"
  have hscope := @required_eq_some_iff _ _ _ (fun v s => @asArray_eq_some_iff v s)
    (.obj payload) "scope"
  rw [parseClaims]
  constructor
  · intro h
    split at h
    · next sub tenantId slotId exp vs h1 h2 h3 h4 h5 =>
        split at h
        · cases h
        · next scope hss =>
            obtain rfl := Except.ok.inj h
            rw [mapM_scope_eq_some_iff] at hss
            exact ⟨hsub.mp h1, htenant.mp h2, hslot.mp h3, hexp.mp h4, hss ▸ hscope.mp h5⟩
    · cases h
  · intro h
    rw [hsub.mpr h.sub, htenant.mpr h.tenantId, hslot.mpr h.slotId, hexp.mpr h.exp,
      hscope.mpr h.scope]
    dsimp only
    rw [mapM_scope_eq_some_iff.mpr rfl]

theorem mismatch_iff {expected : Option Text} {actual : Text} :
    mismatch expected actual ↔ ∃ e, expected = some e ∧ e ≠ [] ∧ e ≠ actual := by
  cases expected with
  | none => simp [mismatch]
  | some e => simp [mismatch]

theorem checkExpected_eq_ok_iff {opts : VerifyOpts} {c c' : Claims} :
    checkExpected opts c = .ok c' ↔ c = c' ∧ ¬ mismatch opts.expectedTenantId c.tenantId ∧
      ¬ mismatch opts.expectedSlotId c.slotId ∧
      ∀ s ∈ opts.requiredScopes.getD [], s ∈ c.scope := by
  rw [checkExpected]
  split
  · next h => simp [h]
  · next htenant =>
      split
      · next h => simp [h]
      · next hslot =>
          have hmissing : ((opts.requiredScopes.getD []).filter (· ∉ c.scope)).isEmpty ↔
              ∀ s ∈ opts.requiredScopes.getD [], s ∈ c.scope := by
            rw [List.isEmpty_iff, List.filter_eq_nil_iff]
            simp
          dsimp only
          split
          · next h =>
              rw [Except.ok.injEq]
              exact ⟨fun heq => ⟨heq, htenant, hslot, hmissing.mp h⟩, fun hall => hall.1⟩
          · next h =>
              have hnot := mt hmissing.mpr h
              constructor
              · intro heq
                cases heq
              · rintro ⟨-, -, -, hall⟩
                exact absurd hall hnot

/-! ## Acceptance -/

section Accepts

variable {jwtVerify : JwtVerify} {payloadOf : Text → Bytes → Option (List (Text × Json))}

/-- An expiry that is not past by more than the tolerance, if there is one. -/
def NotPast (payload : List (Text × Json)) (tolerance : ℚ) (now : ℤ) : Prop :=
  ∀ n, (Json.obj payload).get "exp" = some (.num n) → now - tolerance < n.value

/-- `jwtVerify` accepts exactly the tokens with a valid HS256 signature under the secret
(`payloadOf` is their payload) that are not past. It is the documented behaviour of the library
with the options that `verifyToken` passes. -/
def AcceptsExactly (jwtVerify : JwtVerify)
    (payloadOf : Text → Bytes → Option (List (Text × Json))) : Prop :=
  ∀ token key tolerance now payload, jwtVerify token key tolerance now = .ok payload ↔
    payloadOf token key = some payload ∧ NotPast payload tolerance now

/-- A signed token that is not past, with well-formed claims and the required scopes. What the
source checks beyond that are the two expectations, the tenant and the slot. -/
structure Signed (payloadOf : Text → Bytes → Option (List (Text × Json))) (now : ℤ)
    (token : Text) (opts : VerifyOpts) (c : Claims) : Prop where
  signed : ∃ payload, payloadOf token (encodeSecret opts.secret) = some payload ∧
    NotPast payload opts.tolerance now ∧ HasClaims payload c
  scopes : ∀ s ∈ opts.requiredScopes.getD [], s ∈ c.scope

/-- What `verifyToken` should accept: a signed token with at most an hour to live, within the
tolerance, that meets every expectation it is given. -/
structure Acceptable (payloadOf : Text → Bytes → Option (List (Text × Json))) (now : ℤ)
    (token : Text) (opts : VerifyOpts) (c : Claims) : Prop
    extends Signed payloadOf now token opts c where
  tenant : ∀ e, opts.expectedTenantId = some e → c.tenantId = e
  slot : ∀ e, opts.expectedSlotId = some e → c.slotId = e
  lifetime : c.exp.value ≤ now + 3600 + opts.tolerance

/-- A signed token that meets every expectation but an empty one, and either lives for more
than an hour and the tolerance or does not meet an expectation that is empty. -/
structure Overlooked (payloadOf : Text → Bytes → Option (List (Text × Json))) (now : ℤ)
    (token : Text) (opts : VerifyOpts) (c : Claims) : Prop
    extends Signed payloadOf now token opts c where
  tenant : ∀ e, opts.expectedTenantId = some e → e ≠ [] → c.tenantId = e
  slot : ∀ e, opts.expectedSlotId = some e → e ≠ [] → c.slotId = e
  unchecked : now + 3600 + opts.tolerance < c.exp.value ∨
    (opts.expectedTenantId = some [] ∧ c.tenantId ≠ []) ∨
    (opts.expectedSlotId = some [] ∧ c.slotId ≠ [])

theorem not_mismatch_iff {expected : Option Text} {actual : Text} :
    ¬ mismatch expected actual ↔ ∀ e, expected = some e → e ≠ [] → actual = e := by
  rw [mismatch_iff]
  constructor
  · intro h e he hne
    by_contra hactual
    exact h ⟨e, he, hne, Ne.symm hactual⟩
  · rintro h ⟨e, he, hne, hactual⟩
    exact hactual (h e he hne).symm

/-- What `verifyToken` accepts. -/
theorem verifyToken_eq_ok_iff (haccepts : AcceptsExactly jwtVerify payloadOf) {now : ℤ}
    {token : Text} {opts : VerifyOpts} {c : Claims} :
    verifyToken jwtVerify now token opts = .ok c ↔ Signed payloadOf now token opts c ∧
      (∀ e, opts.expectedTenantId = some e → e ≠ [] → c.tenantId = e) ∧
      ∀ e, opts.expectedSlotId = some e → e ≠ [] → c.slotId = e := by
  rw [← not_mismatch_iff, ← not_mismatch_iff, verifyToken]
  constructor
  · intro h
    split at h
    · cases h
    · next payload hpayload =>
        obtain ⟨hsigned, hpast⟩ := (haccepts _ _ _ _ _).mp hpayload
        cases hclaims : parseClaims payload with
        | error p =>
            rw [hclaims] at h
            cases h
        | ok d =>
            rw [hclaims] at h
            obtain ⟨rfl, htenant, hslot, hscopes⟩ := checkExpected_eq_ok_iff.mp h
            exact ⟨⟨⟨payload, hsigned, hpast, parseClaims_eq_ok_iff.mp hclaims⟩, hscopes⟩,
              htenant, hslot⟩
  · rintro ⟨⟨⟨payload, hsigned, hpast, hclaims⟩, hscopes⟩, htenant, hslot⟩
    rw [(haccepts _ _ _ _ _).mpr ⟨hsigned, hpast⟩]
    dsimp only
    rw [parseClaims_eq_ok_iff.mpr hclaims]
    exact checkExpected_eq_ok_iff.mpr ⟨rfl, htenant, hslot, hscopes⟩

theorem status_of_parseClaims {payload : List (Text × Json)} {p : AuthProblem}
    (h : parseClaims payload = .error p) : p.status = 401 := by
  rw [parseClaims] at h
  split at h
  · split at h
    · rw [← Except.error.inj h]
      rfl
    · cases h
  · rw [← Except.error.inj h]
    rfl

theorem status_of_checkExpected {opts : VerifyOpts} {c : Claims} {p : AuthProblem}
    (h : checkExpected opts c = .error p) : p.status = 403 := by
  rw [checkExpected] at h
  split at h
  · rw [← Except.error.inj h]
    rfl
  · split at h
    · rw [← Except.error.inj h]
      rfl
    · dsimp only at h
      split at h
      · cases h
      · rw [← Except.error.inj h]
        rfl

/-- Every other token is answered with a 401 or a 403. -/
theorem status_of_verifyToken {now : ℤ} {token : Text} {opts : VerifyOpts} {p : AuthProblem}
    (h : verifyToken jwtVerify now token opts = .error p) : p.status = 401 ∨ p.status = 403 := by
  rw [verifyToken] at h
  split at h
  · rw [← Except.error.inj h]
    exact Or.inl rfl
  · next payload hpayload =>
      cases hclaims : parseClaims payload with
      | error q =>
          rw [hclaims] at h
          rw [← Except.error.inj h]
          exact Or.inl (status_of_parseClaims hclaims)
      | ok c =>
          rw [hclaims] at h
          exact Or.inr (status_of_checkExpected h)

/-- An expectation is met as it should be, or it is empty and not looked at. -/
theorem expected_iff {expected : Option Text} {actual : Text} :
    (∀ e, expected = some e → actual = e) ↔
      (∀ e, expected = some e → e ≠ [] → actual = e) ∧ ¬ (expected = some [] ∧ actual ≠ []) := by
  constructor
  · intro h
    refine ⟨fun e he _ => h e he, ?_⟩
    rintro ⟨hempty, hactual⟩
    exact hactual (h [] hempty)
  · rintro ⟨hmet, hempty⟩ e he
    by_cases hnil : e = []
    · subst hnil
      by_contra hactual
      exact hempty ⟨he, hactual⟩
    · exact hmet e he hnil

/-- What is accepted is acceptable, or was overlooked. -/
theorem overlooked_iff (haccepts : AcceptsExactly jwtVerify payloadOf) {now : ℤ}
    {token : Text} {opts : VerifyOpts} {c : Claims} :
    Overlooked payloadOf now token opts c ↔
      verifyToken jwtVerify now token opts = .ok c ∧ ¬ Acceptable payloadOf now token opts c := by
  rw [verifyToken_eq_ok_iff haccepts]
  constructor
  · intro h
    refine ⟨⟨h.toSigned, h.tenant, h.slot⟩, ?_⟩
    intro hacceptable
    rcases h.unchecked with hlong | htenant | hslot
    · exact absurd hacceptable.lifetime (not_le.mpr hlong)
    · exact (expected_iff.mp hacceptable.tenant).2 htenant
    · exact (expected_iff.mp hacceptable.slot).2 hslot
  · rintro ⟨⟨hsigned, htenant, hslot⟩, hnot⟩
    refine ⟨hsigned, htenant, hslot, ?_⟩
    by_contra hchecked
    rw [not_or, not_or, not_lt] at hchecked
    obtain ⟨hlifetime, hnotenant, hnoslot⟩ := hchecked
    exact hnot ⟨hsigned, expected_iff.mpr ⟨htenant, hnotenant⟩, expected_iff.mpr ⟨hslot, hnoslot⟩,
      hlifetime⟩

/-- **Acceptance**: a token is accepted exactly when it is acceptable, and answered with
a 401 or a 403 otherwise, if and only if no expiry is too far away and no
expectation is empty and not met, where everything else is in order. -/
theorem verifyToken_accepts_iff (haccepts : AcceptsExactly jwtVerify payloadOf) (now : ℤ)
    (token : Text) (opts : VerifyOpts) :
    ((∀ c, verifyToken jwtVerify now token opts = .ok c ↔
        Acceptable payloadOf now token opts c) ∧
      ∀ p, verifyToken jwtVerify now token opts = .error p → p.status = 401 ∨ p.status = 403) ↔
    ∀ c, ¬ Overlooked payloadOf now token opts c := by
  constructor
  · rintro ⟨hexact, -⟩ c hoverlooked
    obtain ⟨hok, hnot⟩ := (overlooked_iff haccepts).mp hoverlooked
    exact hnot ((hexact c).mp hok)
  · intro hnone
    refine ⟨?_, fun p hp => status_of_verifyToken hp⟩
    intro c
    constructor
    · intro hok
      by_contra hnot
      exact hnone c ((overlooked_iff haccepts).mpr ⟨hok, hnot⟩)
    · intro hacceptable
      exact (verifyToken_eq_ok_iff haccepts).mpr ⟨hacceptable.toSigned,
        (expected_iff.mp hacceptable.tenant).1, (expected_iff.mp hacceptable.slot).1⟩

end Accepts

/-! ## A token -/

/-- A secret. -/
def sampleSecret : Text := "unit-test-secret-with-enough-bytes-to-be-hs256-safe"

/-- A token for the payload below with the expiry 100000, signed under the secret. -/
def longToken : Text :=
  ("eyJhbGciOiJIUzI1NiIsInR5cCI6IkpXVCJ9." ++
    "eyJzdWIiOiJjZXJlYnJvIiwidGVuYW50X2lkIjoidCIsInNsb3RfaWQiOi" ++
    "JzIiwic2NvcGUiOlsic2xvdDpyZWFkIl0sImV4cCI6MTAwMDAwfQ." ++
    "QcB0eTo_mboSupRzjXFei6CHYonGpMhYgPOhSilz6Y8").toList

/-- Its claims. -/
def longClaims : Claims where
  sub := "cerebro"
  tenantId := "t"
  slotId := "s"
  exp := Numeral.ofNat 100000
  scope := [.read]

/-- Its payload. -/
def longPayload : List (Text × Json) :=
  [("sub", .str "cerebro"), ("tenant_id", .str "t"), ("slot_id", .str "s"),
    ("scope", .arr [.str "slot:read"]), ("exp", .num (Numeral.ofNat 100000))]

/-- The payload of the token under the secret. -/
def samplePayloadOf (token : Text) (key : Bytes) : Option (List (Text × Json)) :=
  if token = longToken ∧ key = encodeSecret (.text sampleSecret) then some longPayload else none

/-- `jwtVerify`, on that token. -/
def sampleVerify : JwtVerify := fun token key tolerance now =>
  match samplePayloadOf token key with
  | none => .error "signature verification failed"
  | some payload =>
      if now - tolerance < 100000 then .ok payload
      else .error "\"exp\" claim timestamp check failed"

theorem exp_longPayload :
    (Json.obj longPayload).get "exp" = some (.num (Numeral.ofNat 100000)) := rfl

theorem notPast_longPayload {tolerance : ℚ} {now : ℤ} :
    NotPast longPayload tolerance now ↔ now - tolerance < 100000 := by
  have hvalue : (Numeral.ofNat 100000).value = 100000 := Numeral.value_ofNat 100000
  constructor
  · intro h
    rw [← hvalue]
    exact h _ exp_longPayload
  · intro h n hn
    rw [exp_longPayload, Option.some.injEq, Json.num.injEq] at hn
    rw [← hn, hvalue]
    exact h

theorem sampleVerify_acceptsExactly : AcceptsExactly sampleVerify samplePayloadOf := by
  intro token key tolerance now payload
  rw [sampleVerify]
  cases hpayload : samplePayloadOf token key with
  | none => simp
  | some payload' =>
      have hlong : payload' = longPayload := by
        rw [samplePayloadOf] at hpayload
        split at hpayload
        · exact (Option.some.inj hpayload).symm
        · cases hpayload
      dsimp only
      constructor
      · intro h
        split at h
        · next hpast =>
            obtain rfl := Except.ok.inj h
            exact ⟨rfl, hlong ▸ notPast_longPayload.mpr hpast⟩
        · cases h
      · rintro ⟨hsame, hpast⟩
        rw [← Option.some.inj hsame, hlong] at hpast
        rw [if_pos (notPast_longPayload.mp hpast), Option.some.inj hsame]

/-- The token is accepted too long before it expires, so that acceptance is not exact. -/
theorem longToken_acceptance :
    ((∀ c, verifyToken sampleVerify 0 longToken { secret := .text sampleSecret } = .ok c ↔
        Acceptable samplePayloadOf 0 longToken { secret := .text sampleSecret } c) ∧
      ∀ p, verifyToken sampleVerify 0 longToken { secret := .text sampleSecret } = .error p →
        p.status = 401 ∨ p.status = 403) ↔
    ∀ c, ¬ Overlooked samplePayloadOf 0 longToken { secret := .text sampleSecret } c :=
  verifyToken_accepts_iff sampleVerify_acceptsExactly 0 longToken { secret := .text sampleSecret }

/-- At time 0 it is accepted, although it expires more than a day later. -/
theorem longToken_accepted :
    verifyToken sampleVerify 0 longToken { secret := .text sampleSecret } = .ok longClaims ∧
      ¬ Acceptable samplePayloadOf 0 longToken { secret := .text sampleSecret } longClaims := by
  rw [← overlooked_iff sampleVerify_acceptsExactly]
  have hpayload : samplePayloadOf longToken (encodeSecret (.text sampleSecret)) =
      some longPayload := if_pos ⟨rfl, rfl⟩
  have hclaims : HasClaims longPayload longClaims := ⟨rfl, rfl, rfl, rfl, rfl⟩
  refine ⟨⟨⟨longPayload, hpayload, notPast_longPayload.mpr ?_, hclaims⟩, ?_⟩, ?_, ?_, Or.inl ?_⟩
  · norm_num [VerifyOpts.tolerance]
  · intro s hs
    cases hs
  · intro e he
    cases he
  · intro e he
    cases he
  · rw [show longClaims.exp.value = 100000 from Numeral.value_ofNat 100000]
    norm_num [VerifyOpts.tolerance]

end AkronSlot.Slot
