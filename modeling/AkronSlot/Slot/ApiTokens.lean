import AkronSlot.Slot.StreamSessions
import AkronSlot.Wire.Framing
import AkronSlot.Wire.Python

/-!
# Bearer tokens (`auth.ts`, `requireScope` of `api/trading.ts`)

A token that `signToken` makes goes through an `Authorization` header to `requireScope`.  The
JWT library is a parameter: `sign` puts a token together and `jwtVerify` takes it apart.

## From the mint to the doors

A token is made in one place and checked in two, and its way there leads through texts: a header
that is trimmed and matched, or a URL that is cut and decoded. The characters of a compact JWT
pass all of that unchanged, which is the content of `extractBearer_of_carried` and
`tokenOf_query`. What is behind the doors is `verifyToken`, whose condition is arithmetic on
times once the payload is known to be the one that was minted.

## Main Definitions

* `signToken`, `extractBearer`, `requireScope`
* `Signs` — what is relied on of the library
* `Carried` — a header with a token

## Main Results

* `extractBearer_of_carried`
* `requireScope_eq_ok_iff`
* `signToken_let_through`
-/

namespace AkronSlot.Slot

open Wire StreamSessions

/-! ## The header -/

/-- The characters that `trim` removes and `\s` matches. -/
def jsSpaces : List ℕ :=
  [0x9, 0xA, 0xB, 0xC, 0xD, 0x20, 0xA0, 0x1680, 0x2000, 0x2001, 0x2002, 0x2003, 0x2004, 0x2005,
    0x2006, 0x2007, 0x2008, 0x2009, 0x200A, 0x2028, 0x2029, 0x202F, 0x205F, 0x3000, 0xFEFF]

def jsSpace (c : Char) : Bool := jsSpaces.contains c.toNat

/-- `s.trim()`. -/
def jsTrim (t : Text) : Text := Python.stripBy jsSpace t

/-- A character that `.` does not match. -/
def lineTerminator (c : Char) : Bool := [0xA, 0xD, 0x2028, 0x2029].contains c.toNat

/-- `extractBearer`.  A trimmed text does not end with a blank, so `\s+` never has to give back
a blank that it took. -/
def extractBearer (headerValue : Option Text) : Option Text :=
  match headerValue with
  | none | some [] => none
  | some value =>
      let t := jsTrim value
      let blanks := (t.drop 6).takeWhile jsSpace
      let token := (t.drop 6).dropWhile jsSpace
      if (t.take 6).map Char.toLower = "bearer" ∧ blanks ≠ [] ∧ token ≠ [] ∧
          ∀ c ∈ token, lineTerminator c = false then
        some (jsTrim token)
      else none

/-- A header that carries a token: the word in any case, blanks, the token, and blanks around all
of it. -/
inductive Carried (token : Text) : Text → Prop
  | intro {lead word blanks trail : Text} (hlead : ∀ c ∈ lead, jsSpace c = true)
      (hword : word.map Char.toLower = "bearer") (hblanks : ∀ c ∈ blanks, jsSpace c = true)
      (hne : blanks ≠ []) (htrail : ∀ c ∈ trail, jsSpace c = true) :
      Carried token (lead ++ (word ++ (blanks ++ token)) ++ trail)

/-- The characters of a compact JWT. -/
def JwtChar (c : Char) : Prop := c.isAlphanum = true ∨ c ∈ ['-', '_', '.']

instance (c : Char) : Decidable (JwtChar c) := inferInstanceAs (Decidable (_ ∨ _))

theorem jwtChar_range {c : Char} (h : JwtChar c) : 0x2D ≤ c.toNat ∧ c.toNat ≤ 0x7A := by
  rcases h with h | h
  · simp only [Char.isAlphanum, Char.isAlpha, Char.isUpper, Char.isLower, Char.isDigit,
      Bool.or_eq_true, decide_eq_true_eq, Bool.and_eq_true, ge_iff_le, UInt32.le_iff_toNat_le]
      at h
    have hval : c.val.toNat = c.toNat := rfl
    simp at h
    omega
  · simp only [List.mem_cons, List.not_mem_nil, or_false] at h
    rcases h with rfl | rfl | rfl <;> decide

theorem jsSpace_of_jwtChar {c : Char} (h : JwtChar c) : jsSpace c = false := by
  have hspaces : ∀ n ∈ jsSpaces, n < 0x2D ∨ 0x7A < n := by decide
  rw [jsSpace, ← Bool.not_eq_true, List.contains_iff_mem]
  intro hmem
  have hrange := jwtChar_range h
  rcases hspaces _ hmem with hlow | hhigh <;> omega

/-- A blank is no letter. -/
theorem toLower_of_jsSpace {c : Char} (h : jsSpace c = true) : c.toLower = c := by
  have hspaces : ∀ n ∈ jsSpaces, n < 0x2D ∨ 0x7A < n := by decide
  rw [jsSpace, List.contains_iff_mem] at h
  rw [Char.toLower, dif_neg]
  rintro ⟨hlow, hhigh⟩
  have hlow : 65 ≤ c.toNat := hlow
  have hhigh : c.toNat ≤ 90 := hhigh
  rcases hspaces _ h with h | h <;> omega

theorem lineTerminator_of_jwtChar {c : Char} (h : JwtChar c) : lineTerminator c = false := by
  have hrange := jwtChar_range h
  rw [lineTerminator, ← Bool.not_eq_true, List.contains_iff_mem]
  simp only [List.mem_cons, List.not_mem_nil, or_false]
  omega

/-- A text between blanks, trimmed. -/
theorem jsTrim_between {lead t trail : Text} (hlead : ∀ c ∈ lead, jsSpace c = true)
    (htrail : ∀ c ∈ trail, jsSpace c = true) (hfirst : ∀ c ∈ t.head?, jsSpace c = false)
    (hlast : ∀ c ∈ t.getLast?, jsSpace c = false) (hne : t ≠ []) :
    jsTrim (lead ++ t ++ trail) = t := by
  have hdrop : (lead ++ t ++ trail).dropWhile jsSpace = t ++ trail := by
    obtain ⟨c, t, rfl⟩ := List.exists_cons_of_ne_nil hne
    rw [List.append_assoc, List.dropWhile_append_of_pos hlead, List.cons_append,
      List.dropWhile_cons_of_neg (by simp [hfirst c rfl])]
  have hrdrop : (t ++ trail).rdropWhile jsSpace = t := by
    rw [List.rdropWhile, List.reverse_append,
      List.dropWhile_append_of_pos fun c hc => htrail c (List.mem_reverse.mp hc), ← List.rdropWhile,
      List.rdropWhile_eq_self_iff]
    intro hne
    simp [hlast _ (List.getLast_mem_getLast? hne)]
  rw [jsTrim, Python.stripBy, hdrop, hrdrop]

/-- **A token is taken out of every header that carries it.** -/
theorem extractBearer_of_carried {token header : Text} (hne : token ≠ [])
    (hchars : ∀ c ∈ token, JwtChar c) (h : Carried token header) :
    extractBearer (some header) = some token := by
  obtain ⟨hlead, hword, hblanks, hblank, htrail⟩ := h
  next lead word blanks trail =>
  have hlength : word.length = 6 := by simpa using congrArg List.length hword
  have hspace : ∀ c ∈ token, jsSpace c = false := fun c hc => jsSpace_of_jwtChar (hchars c hc)
  have hwordne : word ≠ [] := by rintro rfl; cases hlength
  have htrim : jsTrim (lead ++ (word ++ (blanks ++ token)) ++ trail) =
      word ++ (blanks ++ token) := by
    refine jsTrim_between hlead htrail ?_ ?_ (by simp [hwordne])
    · intro c hc
      rw [List.head?_append_of_ne_nil _ hwordne] at hc
      obtain ⟨word, rfl⟩ : ∃ rest, word = c :: rest := List.head?_eq_some_iff.mp hc
      obtain ⟨hlower, -⟩ := List.cons.inj hword
      rw [← Bool.not_eq_true]
      intro hspace
      rw [toLower_of_jsSpace hspace] at hlower
      rw [hlower] at hspace
      exact absurd hspace (by decide)
    · intro c hc
      rw [← List.append_assoc, List.getLast?_append_of_ne_nil _ hne] at hc
      exact hspace c (List.mem_of_getLast? hc)
  have htake : (word ++ (blanks ++ token)).take 6 = word := by
    rw [← hlength, List.take_left]
  have hdrop : (word ++ (blanks ++ token)).drop 6 = blanks ++ token := by
    rw [← hlength, List.drop_left]
  have hhead : ∀ c ∈ token.head?, jsSpace c = false := fun c hc =>
    hspace c (List.mem_of_head? hc)
  have htakeWhile : (blanks ++ token).takeWhile jsSpace = blanks := by
    obtain ⟨c, token, rfl⟩ := List.exists_cons_of_ne_nil hne
    rw [List.takeWhile_append_of_pos hblanks,
      List.takeWhile_cons_of_neg (by simp [hhead c rfl]), List.append_nil]
  have hdropWhile : (blanks ++ token).dropWhile jsSpace = token := by
    obtain ⟨c, token, rfl⟩ := List.exists_cons_of_ne_nil hne
    rw [List.dropWhile_append_of_pos hblanks, List.dropWhile_cons_of_neg (by simp [hhead c rfl])]
  have htoken : jsTrim token = token := by
    have h := @jsTrim_between [] token [] (by simp) (by simp) hhead
      (fun c hc => hspace c (List.mem_of_getLast? hc)) hne
    rwa [List.nil_append, List.append_nil] at h
  have hvalue : lead ++ (word ++ (blanks ++ token)) ++ trail ≠ [] := by simp [hne]
  obtain ⟨c, rest, hcons⟩ := List.exists_cons_of_ne_nil hvalue
  rw [hcons] at htrim ⊢
  rw [extractBearer, htrim, htake, hdrop, htakeWhile, hdropWhile, if_pos, htoken]
  · exact ⟨hword, hblank, hne, fun c hc => lineTerminator_of_jwtChar (hchars c hc)⟩
  · exact List.cons_ne_nil c rest

/-! ## The URL -/

/-- Bytes without a `%` stand for themselves. -/
theorem percentDecode_plain {bs : Bytes} (h : ∀ b ∈ bs, b ≠ 0x25) : percentDecode bs = bs := by
  induction bs with
  | nil => rfl
  | cons b bs ih =>
      obtain ⟨hb, hbs⟩ := List.forall_mem_cons.mp h
      have htail := ih hbs
      match bs with
      | [] => rfl
      | [low] => exact congrArg (List.cons b) htail
      | high :: low :: rest =>
          rw [percentDecode]
          split
          · rw [if_neg hb, htail]
          · rw [htail]

/-- The bytes of a token. -/
theorem encode_jwtChars {t : Text} (h : ∀ c ∈ t, JwtChar c) : ∀ b ∈ Utf8.encode t, b ≠ 0x25 := by
  induction t with
  | nil => simp [Utf8.encode]
  | cons c t ih =>
      obtain ⟨hc, ht⟩ := List.forall_mem_cons.mp h
      have hrange := jwtChar_range hc
      obtain ⟨b, hb, hencode⟩ := Utf8.encode_cons_ascii (show c.toNat < 0x80 by omega) t
      rw [hencode, List.forall_mem_cons]
      refine ⟨?_, ih ht⟩
      rintro rfl
      have hpercent : c.toNat = 0x25 := hb.symm
      omega

/-- A token is its own form encoding. -/
theorem formDecode_jwtChars {t : Text} (h : ∀ c ∈ t, JwtChar c) : formDecode t = t := by
  have hmap : t.map (fun c => if c = '+' then ' ' else c) = t := by
    have hplus : ∀ c ∈ t, (if c = '+' then ' ' else c) = c := by
      intro c hc
      have hrange := jwtChar_range (h c hc)
      refine if_neg ?_
      rintro rfl
      exact absurd hrange.1 (by decide)
    rw [List.map_congr_left hplus, List.map_id']
  rw [formDecode, hmap, percentDecode_plain (encode_jwtChars h), Utf8.decode_encode]

/-- **A token is taken out of a URL whose query begins with it.** -/
theorem tokenOf_query {token path rest : Text} (hchars : ∀ c ∈ token, JwtChar c)
    (hpath : '?' ∉ path) (hrest : ∀ c ∈ rest.head?, c = '&') :
    tokenOf (path ++ '?' :: ("token=".toList ++ (token ++ rest))) = some token := by
  have hquery : ((path ++ '?' :: ("token=".toList ++ (token ++ rest))).dropWhile (· ≠ '?')).tail =
      "token=".toList ++ (token ++ rest) := by
    rw [List.dropWhile_append_of_pos fun c hc => by
        simpa using fun heq : c = '?' => hpath (heq ▸ hc),
      List.dropWhile_cons_of_neg (by simp), List.tail_cons]
  have hamp : '&' ∉ "token=".toList ++ token := by
    intro hmem
    rcases List.mem_append.mp hmem with hmem | hmem
    · exact absurd hmem (by decide)
    · exact absurd (jwtChar_range (hchars _ hmem)).1 (by decide)
  obtain ⟨others, hsplit⟩ : ∃ others,
      ("token=".toList ++ (token ++ rest)).splitOn '&' = ("token=".toList ++ token) :: others := by
    rw [← List.append_assoc]
    cases rest with
    | nil => exact ⟨[], by rw [List.append_nil, List.splitOn_eq_singleton hamp]⟩
    | cons c rest =>
        obtain rfl : c = '&' := hrest c rfl
        exact ⟨rest.splitOn '&', List.splitOn_append_cons_self_of_not_mem hamp rest⟩
  have hname : formDecode "token".toList = "token".toList := by decide +kernel
  rw [tokenOf, hquery, searchParams, if_neg (by simp), hsplit,
    List.filter_cons_of_pos (by simp), List.map_cons]
  have htake : ("token=".toList ++ token).takeWhile (· ≠ '=') = "token".toList := by
    rfl
  have hdrop : (("token=".toList ++ token).dropWhile (· ≠ '=')).tail = token := by
    rfl
  rw [htake, hdrop, hname, formDecode_jwtChars hchars, List.find?_cons_of_pos (by simp),
    Option.map_some]

/-! ## Minting -/

/-- The claims that `signToken` is given. -/
structure TokenClaims where
  sub : Text
  tenantId : Text
  slotId : Text
  scope : List Scope

/-- `SignOpts`.  `ttlSeconds` is a number of any kind in the source; here it is whole, as `iat`
is, so that `exp` is printed as an integer. -/
structure SignOpts where
  secret : Secret
  ttlSeconds : Option ℤ := none

/-- The time to live, by default an hour. -/
def SignOpts.ttl (opts : SignOpts) : ℤ := opts.ttlSeconds.getD 3600

/-- A whole number, as JSON has it. -/
def wholeNumeral (z : ℤ) : Numeral := ⟨decide (z < 0), Whole.ofNat z.natAbs, [], none⟩

@[simp] theorem value_wholeNumeral (z : ℤ) : (wholeNumeral z).value = z := by
  have habs : ((z.natAbs : ℕ) : ℚ) = |(z : ℚ)| := by
    rw [← Int.cast_abs, Int.abs_eq_natAbs, Int.cast_natCast]
  simp only [wholeNumeral, Numeral.value, List.append_nil, Whole.value_ofNat, habs]
  by_cases hz : z < 0
  · have hneg : (z : ℚ) < 0 := by exact_mod_cast hz
    simp [hz, abs_of_neg hneg]
  · have hpos : (0 : ℚ) ≤ z := by exact_mod_cast not_lt.mp hz
    simp [hz, abs_of_nonneg hpos]

/-- The payload of a token. -/
def TokenClaims.payload (claims : TokenClaims) (iat exp : ℤ) : List (Text × Json) :=
  [("sub", .str claims.sub), ("tenant_id", .str claims.tenantId), ("slot_id", .str claims.slotId),
    ("scope", .arr (claims.scope.map fun s => .str s.text)), ("iat", .num (wholeNumeral iat)),
    ("exp", .num (wholeNumeral exp))]

/-- `new SignJWT(payload)`, signed with HS256. -/
abbrev SignJwt := List (Text × Json) → Bytes → Text

/-- `signToken`, at a time in seconds. The signature is a parameter, as is its check. -/
def signToken (sign : SignJwt) (now : ℤ) (claims : TokenClaims) (opts : SignOpts) : Text :=
  sign (claims.payload now (now + opts.ttl)) (encodeSecret opts.secret)

/-- A payload is signed into a compact token, and read back under the same secret. This is what is
relied on of the library, and only for the payload in question. -/
structure Signs (sign : SignJwt) (payloadOf : Text → Bytes → Option (List (Text × Json)))
    (payload : List (Text × Json)) (key : Bytes) : Prop where
  ne : sign payload key ≠ []
  chars : ∀ c ∈ sign payload key, JwtChar c
  payload : payloadOf (sign payload key) key = some payload

/-! ## The gate of a route -/

def missingBearer : AuthProblem where
  status := 401
  code := "UNAUTHENTICATED"
  title := "Missing bearer token"
  detail := some "Authorization: Bearer <token> header required".toList

/-- The options of `requireScope`. -/
def routeOpts (g : Gate) (deps : Deps) (scope : Scope) : VerifyOpts where
  secret := .text g.jwtSecret
  expectedTenantId := some deps.tenantId
  expectedSlotId := some g.slotId
  requiredScopes := some [scope]

/-- `requireScope`, with the `Authorization` header of the request. -/
def requireScope (g : Gate) (deps : Deps) (scope : Scope) (now : ℤ)
    (authorization : Option Text) : Except AuthProblem Unit :=
  match extractBearer authorization with
  | none | some [] => .error missingBearer
  | some token => (verifyToken g.jwtVerify now token (routeOpts g deps scope)).map fun _ => ()

section Gates

variable {g : Gate} {deps : Deps} {payloadOf : Text → Bytes → Option (List (Text × Json))}
  {scope : Scope} {now : ℤ}

/-- A token that the slot accepts for a scope: signed under its secret, not past, and for its
tenant and its slot where these are not empty. -/
structure Grants (g : Gate) (deps : Deps)
    (payloadOf : Text → Bytes → Option (List (Text × Json))) (scope : Scope) (now : ℤ)
    (token : Text) (c : Claims) : Prop where
  signed : ∃ payload, payloadOf token (encodeSecret (.text g.jwtSecret)) = some payload ∧
    NotPast payload 5 now ∧ HasClaims payload c
  tenant : deps.tenantId ≠ [] → c.tenantId = deps.tenantId
  slot : g.slotId ≠ [] → c.slotId = g.slotId
  scope : scope ∈ c.scope

/-- The options of the route, met. -/
theorem verifyToken_routeOpts (haccepts : AcceptsExactly g.jwtVerify payloadOf) {token : Text}
    {c : Claims} : verifyToken g.jwtVerify now token (routeOpts g deps scope) = .ok c ↔
      Grants g deps payloadOf scope now token c := by
  rw [verifyToken_eq_ok_iff haccepts]
  constructor
  · rintro ⟨⟨hsigned, hscopes⟩, htenant, hslot⟩
    exact ⟨hsigned, htenant _ rfl, hslot _ rfl, hscopes scope (List.mem_singleton_self scope)⟩
  · intro h
    refine ⟨⟨h.signed, ?_⟩, ?_, ?_⟩
    · intro s hs
      rw [List.mem_singleton.mp hs]
      exact h.scope
    · rintro e he hne
      obtain rfl := Option.some.inj he
      exact h.tenant hne
    · rintro e he hne
      obtain rfl := Option.some.inj he
      exact h.slot hne

/-- A request is let through when its token grants the scope. -/
theorem requireScope_eq_ok_iff (haccepts : AcceptsExactly g.jwtVerify payloadOf)
    {authorization : Option Text} : requireScope g deps scope now authorization = .ok () ↔
      ∃ token c, extractBearer authorization = some token ∧ token ≠ [] ∧
        Grants g deps payloadOf scope now token c := by
  rw [requireScope]
  split
  · next h => simp [h]
  · next h => simp [h]
  · next token hne h =>
      rw [h]
      cases hverified : verifyToken g.jwtVerify now token (routeOpts g deps scope) with
      | error p =>
          constructor
          · intro hok
            cases hok
          · rintro ⟨token', c, htoken, -, hgrants⟩
            rw [← Option.some.inj htoken, ← verifyToken_routeOpts haccepts, hverified] at hgrants
            cases hgrants
      | ok c =>
          refine ⟨fun _ => ⟨token, c, rfl, ?_, (verifyToken_routeOpts haccepts).mp hverified⟩,
            fun _ => rfl⟩
          rintro rfl
          exact hne rfl

/-- The claims that a minted token carries. -/
def TokenClaims.minted (claims : TokenClaims) (exp : ℤ) : Claims where
  sub := claims.sub
  tenantId := claims.tenantId
  slotId := claims.slotId
  exp := wholeNumeral exp
  scope := claims.scope

theorem hasClaims_payload (claims : TokenClaims) (iat exp : ℤ) :
    HasClaims (claims.payload iat exp) (claims.minted exp) := ⟨rfl, rfl, rfl, rfl, rfl⟩

theorem notPast_payload (claims : TokenClaims) {iat exp : ℤ} :
    NotPast (claims.payload iat exp) 5 now ↔ now < exp + 5 := by
  have hexp : (Json.obj (claims.payload iat exp)).get "exp" = some (.num (wholeNumeral exp)) :=
    rfl
  have hcast : ((now : ℚ) - 5 < exp) ↔ now < exp + 5 := by
    rw [sub_lt_iff_lt_add]
    exact_mod_cast Iff.rfl
  rw [← hcast, ← value_wholeNumeral exp]
  constructor
  · intro h
    exact h _ hexp
  · intro h n hn
    rw [hexp, Option.some.injEq, Json.num.injEq] at hn
    rwa [← hn]

/-- When a token that was minted at a time, for a number of seconds, is good for a scope. The five
seconds are the tolerance of the check, and an empty tenant or slot of the configuration asks for
nothing. -/
structure Good (g : Gate) (deps : Deps) (claims : TokenClaims) (minted ttl : ℤ) (scope : Scope)
    (now : ℤ) : Prop where
  unexpired : now < minted + ttl + 5
  tenant : deps.tenantId ≠ [] → claims.tenantId = deps.tenantId
  slot : g.slotId ≠ [] → claims.slotId = g.slotId
  scope : scope ∈ claims.scope

variable {sign : SignJwt} {claims : TokenClaims} {minted : ℤ} {opts : SignOpts}

/-- What a minted token grants. -/
theorem grants_signToken (hsecret : opts.secret = .text g.jwtSecret)
    (hsigns : Signs sign payloadOf (claims.payload minted (minted + opts.ttl))
      (encodeSecret opts.secret)) :
    (∃ c, Grants g deps payloadOf scope now (signToken sign minted claims opts) c) ↔
      Good g deps claims minted opts.ttl scope now := by
  constructor
  · rintro ⟨c, ⟨payload, hpayload, hpast, hclaims⟩, htenant, hslot, hscope⟩
    rw [← hsecret, signToken, hsigns.payload, Option.some.injEq] at hpayload
    subst hpayload
    obtain rfl : c = claims.minted (minted + opts.ttl) := by
      rw [← parseClaims_eq_ok_iff] at hclaims
      have hminted := parseClaims_eq_ok_iff.mpr
        (hasClaims_payload claims minted (minted + opts.ttl))
      exact Except.ok.inj (hclaims.symm.trans hminted)
    exact ⟨(notPast_payload claims).mp hpast, htenant, hslot, hscope⟩
  · intro h
    refine ⟨claims.minted (minted + opts.ttl), ⟨_, ?_, (notPast_payload claims).mpr h.unexpired,
      hasClaims_payload claims minted _⟩, h.tenant, h.slot, h.scope⟩
    rw [← hsecret]
    exact hsigns.payload

/-- **A minted token at the slot's doors**: whatever header carries it to a route and whatever
URL carries it to the event stream, it is let through exactly while it is good for the scope
that is asked. -/
theorem signToken_let_through (haccepts : AcceptsExactly g.jwtVerify payloadOf)
    (hsecret : opts.secret = .text g.jwtSecret)
    (hsigns : Signs sign payloadOf (claims.payload minted (minted + opts.ttl))
      (encodeSecret opts.secret)) :
    (∀ header, Carried (signToken sign minted claims opts) header → ∀ deps scope now,
      requireScope g deps scope now (some header) = .ok () ↔
        Good g deps claims minted opts.ttl scope now) ∧
    ∀ path rest : Text, '?' ∉ path → (∀ c ∈ rest.head?, c = '&') → ∀ deps now,
      (∃ c, authenticate g deps now
        (path ++ '?' :: ("token=".toList ++ (signToken sign minted claims opts ++ rest))) =
          .ok c) ↔
        Good g deps claims minted opts.ttl .stream now := by
  have hne : signToken sign minted claims opts ≠ [] := hsigns.ne
  have hchars : ∀ c ∈ signToken sign minted claims opts, JwtChar c := hsigns.chars
  constructor
  · intro header hcarried deps scope now
    rw [requireScope_eq_ok_iff haccepts, extractBearer_of_carried hne hchars hcarried,
      ← grants_signToken hsecret hsigns]
    constructor
    · rintro ⟨token, c, htoken, -, hgrants⟩
      rw [← Option.some.inj htoken] at hgrants
      exact ⟨c, hgrants⟩
    · rintro ⟨c, hgrants⟩
      exact ⟨_, c, rfl, hne, hgrants⟩
  · intro path rest hpath hrest deps now
    rw [authenticate, tokenOf_query hchars hpath hrest, ← grants_signToken hsecret hsigns]
    obtain ⟨c₀, token, hcons⟩ := List.exists_cons_of_ne_nil hne
    rw [hcons]
    have hopts : g.opts deps = routeOpts g deps .stream := rfl
    dsimp only
    rw [hopts]
    exact exists_congr fun c => verifyToken_routeOpts haccepts

end Gates

/-! ## A token -/

/-- `jwtVerify`, when the payloads of tokens are known. -/
def verifyWith (payloadOf : Text → Bytes → Option (List (Text × Json))) : JwtVerify :=
  fun token key tolerance now =>
    match payloadOf token key with
    | none => .error "signature verification failed"
    | some payload =>
        match (Json.obj payload).get "exp" with
        | some (.num n) =>
            if now - tolerance < n.value then .ok payload
            else .error "\"exp\" claim timestamp check failed"
        | _ => .ok payload

theorem verifyWith_acceptsExactly (payloadOf : Text → Bytes → Option (List (Text × Json))) :
    AcceptsExactly (verifyWith payloadOf) payloadOf := by
  intro token key tolerance now payload
  rw [verifyWith]
  cases payloadOf token key with
  | none => simp
  | some found =>
      rw [Option.some.injEq]
      dsimp only
      split
      · next n hn =>
          have hpast : NotPast found tolerance now ↔ now - tolerance < n.value := by
            constructor
            · intro h
              exact h n hn
            · intro h m hm
              rw [hn, Option.some.injEq, Json.num.injEq] at hm
              rwa [← hm]
          split
          · next hlt =>
              constructor
              · intro h
                obtain rfl := Except.ok.inj h
                exact ⟨rfl, hpast.mpr hlt⟩
              · rintro ⟨rfl, -⟩
                rfl
          · next hnot =>
              constructor
              · intro h
                cases h
              · rintro ⟨rfl, h⟩
                exact absurd (hpast.mp h) hnot
      · next hno =>
          constructor
          · intro h
            obtain rfl := Except.ok.inj h
            exact ⟨rfl, fun n hn => absurd hn (hno n)⟩
          · rintro ⟨rfl, -⟩
            rfl

/-- A token for the claims below, made at 96400 for an hour. -/
def mintedToken : Text :=
  "eyJhbGciOiJIUzI1NiIsInR5cCI6IkpXVCJ9.".toList ++
    ("eyJzdWIiOiJjZXJlYnJvIiwidGVuYW50X2lkIjoidCIsInNsb3RfaWQiOiJzIiwic2NvcGUiOlsi".toList ++
    ("c2xvdDpyZWFkIiwic2xvdDp3cml0ZSJdLCJpYXQiOjk2NDAwLCJleHAiOjEwMDAwMH0.".toList ++
    "w2hpvUvXfueD2KgiE9tUvwbMQmD6T3uHOnRo3oWaEFw".toList))

/-- Its claims. -/
def mintedClaims : TokenClaims where
  sub := "cerebro"
  tenantId := "t"
  slotId := "s"
  scope := [.read, .write]

/-- What it was made with. -/
def mintedOpts : SignOpts where
  secret := .text sampleSecret

/-- The payloads of tokens, when this is the only one. -/
def mintedPayloadOf (token : Text) (key : Bytes) : Option (List (Text × Json)) :=
  if token = mintedToken ∧ key = encodeSecret (.text sampleSecret) then
    some (mintedClaims.payload 96400 (96400 + mintedOpts.ttl))
  else none

/-- The slot's gate. -/
def mintedGate : Gate where
  jwtVerify := verifyWith mintedPayloadOf
  jwtSecret := sampleSecret
  slotId := "s"

theorem mintedToken_chars : ∀ c ∈ mintedToken, JwtChar c := by
  have hall : mintedToken.all (fun c => decide (JwtChar c)) = true := by decide +kernel
  intro c hc
  exact of_decide_eq_true (List.all_eq_true.mp hall c hc)

theorem mintedToken_signs : Signs (fun _ _ => mintedToken) mintedPayloadOf
    (mintedClaims.payload 96400 (96400 + mintedOpts.ttl)) (encodeSecret mintedOpts.secret) where
  ne := List.append_ne_nil_of_left_ne_nil (by decide) _
  chars := mintedToken_chars
  payload := if_pos ⟨rfl, rfl⟩

/-- A header with the token. -/
def mintedHeader : Text := "bearer".toList ++ ("  ".toList ++ mintedToken)

theorem carried_mintedHeader : Carried mintedToken mintedHeader := by
  have h := @Carried.intro mintedToken [] "bearer" "  " [] (by simp) (by decide)
    (by simp [jsSpace, jsSpaces]) (by decide) (by simp)
  rwa [List.nil_append, List.append_nil] at h

/-- A minute before it expires, the token is good for a scope that it has. -/
theorem good_mintedToken {scope : Scope} (hscope : scope ∈ mintedClaims.scope) :
    Good mintedGate sampleDeps mintedClaims 96400 mintedOpts.ttl scope 99940 where
  unexpired := by decide
  tenant _ := rfl
  slot _ := rfl
  scope := hscope

/-- The token opens the write routes. -/
theorem requireScope_mintedHeader :
    requireScope mintedGate sampleDeps .write 99940 (some mintedHeader) = .ok () := by
  obtain ⟨c, hgrants⟩ := (@grants_signToken mintedGate sampleDeps mintedPayloadOf .write 99940
    (fun _ _ => mintedToken) mintedClaims 96400 mintedOpts rfl mintedToken_signs).mpr
    (good_mintedToken (by decide))
  exact (requireScope_eq_ok_iff (verifyWith_acceptsExactly mintedPayloadOf)).mpr
    ⟨mintedToken, c,
      extractBearer_of_carried mintedToken_signs.ne mintedToken_chars carried_mintedHeader,
      mintedToken_signs.ne, hgrants⟩

/-- It opens the read routes and not the stream. -/
theorem mintedToken_let_through :
    requireScope mintedGate sampleDeps .read 99940 (some mintedHeader) = .ok () ∧
      ¬ ∃ c, authenticate mintedGate sampleDeps 99940
        ("/v1/stream".toList ++ '?' :: ("token=".toList ++ (mintedToken ++ []))) = .ok c := by
  obtain ⟨hroutes, hstream⟩ := @signToken_let_through mintedGate mintedPayloadOf
    (fun _ _ => mintedToken) mintedClaims 96400 mintedOpts
    (verifyWith_acceptsExactly mintedPayloadOf) rfl mintedToken_signs
  refine ⟨(hroutes _ carried_mintedHeader _ _ _).mpr (good_mintedToken (by decide)), ?_⟩
  intro hopen
  have hgood := (hstream "/v1/stream" [] (by decide) (by simp) _ _).mp hopen
  exact absurd hgood.scope (by decide)

end AkronSlot.Slot
