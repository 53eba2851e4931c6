/-
  Naitron.Middleware

  The before-chain of `src/core/middleware.c`: request id, CORS, the bearer
  gate and the rate limiter, in the order `ntc_mw_before` runs them.

  The signature checks behind a token (`src/common/jwt.c`) are a parameter
  `JwtOps`; what the middleware does around them is modelled in full, key
  selection included.  Doubles are a parameter too (`CDouble`): the gateway
  runs on `Float`, exact arguments about the token bucket can run on `ℚ`.

  The gate compares `auth_protect` with the raw path bytes while the router
  normalises the path first; the last section says on which requests the two
  disagree.
-/

import Naitron.Router

namespace Naitron

-- ============================================================================
-- Token bucket
-- ============================================================================

/-- The operations on `double` that the rate limiter uses. -/
class CDouble (F : Type) where
  ofInt : Int → F
  add : F → F → F
  sub : F → F → F
  mul : F → F → F
  div : F → F → F
  lt : F → F → Bool
  le : F → F → Bool

instance : CDouble Float where
  ofInt := Float.ofInt
  add := (· + ·)
  sub := (· - ·)
  mul := (· * ·)
  div := (· / ·)
  lt a b := decide (a < b)
  le a b := decide (a ≤ b)

instance : CDouble ℚ where
  ofInt n := n
  add := (· + ·)
  sub := (· - ·)
  mul := (· * ·)
  div := (· / ·)
  lt a b := decide (a < b)
  le a b := decide (a ≤ b)

variable {F : Type} [CDouble F]

/-- `ntc_bucket`. -/
structure NtcBucket (F : Type) where
  tokens : F
  lastMs : Int

/-- The refill part of `ntc_bucket_allow`. -/
def bucketRefill (b : NtcBucket F) (nowMs : Int) (ratePerSec burst : F) : NtcBucket F :=
  let b := if b.lastMs = 0 then ⟨burst, nowMs⟩ else b
  let elapsed := CDouble.div (CDouble.ofInt (nowMs - b.lastMs)) (CDouble.ofInt 1000 : F)
  if CDouble.lt (CDouble.ofInt 0) elapsed then
    let tokens := CDouble.add b.tokens (CDouble.mul elapsed ratePerSec)
    ⟨if CDouble.lt burst tokens then burst else tokens, nowMs⟩
  else b

/-- `ntc_bucket_allow`: whether the call is allowed, and the bucket after it. -/
def ntcBucketAllow (b : NtcBucket F) (nowMs : Int) (ratePerSec burst : F) : Bool × NtcBucket F :=
  let b := bucketRefill b nowMs ratePerSec burst
  if CDouble.le (CDouble.ofInt 1) b.tokens then
    (true, ⟨CDouble.sub b.tokens (CDouble.ofInt 1), b.lastMs⟩)
  else (false, b)

-- ============================================================================
-- Signing keys
-- ============================================================================

/-- The key material of a JWK. -/
inductive NtcJwkKty where
  | rsa (n e : Bytes)
  | ec (q : Bytes)
deriving DecidableEq, Repr

/-- `ntc_jwk_key`. -/
structure NtcJwkKey where
  kty : NtcJwkKty
  kid : CStr 80
  alg : CStr 16
deriving DecidableEq

/-- `ntc_jwks`: the keys in document order. -/
abbrev NtcJwks := List NtcJwkKey

/-- `ntc_jwt_claims`. -/
structure NtcJwtClaims where
  sub : CStr 128
  scope : CStr 256
  exp : Int
  iat : Int
deriving DecidableEq

/-- The token functions of jwt.c that the middleware calls.  `none` is the
    result `false`. -/
structure JwtOps where
  peekHeader : Bytes → Option (Bytes × Bytes)
  verifyHs256 : Bytes → Bytes → Int → Option NtcJwtClaims
  verifyRs256 : Bytes → Bytes → Bytes → Int → Option NtcJwtClaims
  verifyEs256 : Bytes → Bytes → Int → Option NtcJwtClaims
  jwksParse : Bytes → Option NtcJwks

/-- Whether `ntc_jwks_find` may use a key for `alg`. -/
def ktyFits (alg : Bytes) : NtcJwkKty → Bool
  | .rsa _ _ => alg ≠ lit "ES256"
  | .ec _ => alg ≠ lit "RS256"

/-- `ntc_jwks_find`. -/
def ntcJwksFind (set : NtcJwks) (kid alg : Bytes) : Option NtcJwkKey :=
  if kid.isEmpty then set.find? fun k => ktyFits alg k.kty
  else set.find? fun k => ktyFits alg k.kty && k.kid.bytes == kid

/-- `ntc_jwt_verify_jwks`. -/
def ntcJwtVerifyJwks (J : JwtOps) (token : Bytes) (set : NtcJwks) (nowUnix : Int) :
    Option NtcJwtClaims :=
  match J.peekHeader token with
  | none => none
  | some (alg, kid) =>
      match ntcJwksFind set kid alg with
      | none => none
      | some k =>
          match k.kty with
          | .rsa n e => if alg = lit "RS256" then J.verifyRs256 token n e nowUnix else none
          | .ec q => if alg = lit "ES256" then J.verifyEs256 token q nowUnix else none

-- ============================================================================
-- The middleware
-- ============================================================================

/-- `NTC_RL_BUCKETS`. -/
def ntcRlBuckets : Nat := 1024

/-- `NTC_JWKS_MIN_REFRESH_MS`. -/
def ntcJwksMinRefreshMs : Int := 60000

/-- `ntc_mw_config`.  `auth_jwks_file` and `auth_jwks_ca` are read only when
    the middleware is created. -/
structure NtcMwConfig where
  requestId : Bool := false
  corsOrigin : CStr 128 := .empty 128
  ratePerSec : Int := 0
  rateBurst : Int := 0
  authMode : CStr 16 := .empty 16
  authSecret : CStr 256 := .empty 256
  authProtect : CStr 128 := .empty 128
  authJwksUrl : CStr 256 := .empty 256
deriving DecidableEq

/-- `struct ntc_mw`; `hasCa` is `jwks_ca != NULL`. -/
structure NtcMw (F : Type) where
  cfg : NtcMwConfig
  jwks : NtcJwks
  hasCa : Bool
  jwksLastFetchMs : Int
  buckets : Nat → NtcBucket F

/-- What one run of the chain reads from outside: random request id, the two
    clocks and the answer of the JWKS endpoint. -/
structure MwWorld where
  requestId : CStr 40
  monoMs : Int
  fetchedAt : Int
  unixTime : Int
  fetched : Option Bytes

/-- `ntc_mw_result`. -/
structure NtcMwResult where
  shortCircuit : Bool := false
  status : Nat := 0
  contentType : Bytes := []
  body : Bytes := []
  extraHeaders : CStr 512 := .empty 512
  requestId : CStr 40 := .empty 40
  authSub : CStr 128 := .empty 128
  authScope : CStr 256 := .empty 256
deriving DecidableEq

/-- `mw_fetch_jwks`. -/
def mwFetchJwks (J : JwtOps) (w : MwWorld) (m : NtcMw F) : NtcMw F :=
  if m.cfg.authJwksUrl.bytes.isEmpty || !m.hasCa then m
  else
    let m := { m with jwksLastFetchMs := w.fetchedAt }
    match w.fetched.bind J.jwksParse with
    | some fresh => { m with jwks := fresh }
    | none => m

/-- `mw_maybe_refresh`. -/
def mwMaybeRefresh (J : JwtOps) (w : MwWorld) (m : NtcMw F) : NtcMw F :=
  if m.cfg.authJwksUrl.bytes.isEmpty || !m.hasCa then m
  else if m.jwksLastFetchMs ≠ 0 ∧ w.monoMs - m.jwksLastFetchMs < ntcJwksMinRefreshMs then m
  else mwFetchJwks J w m

/-- `hash_str` (FNV-1a). -/
def hashStr (s : Bytes) : UInt32 :=
  s.foldl (fun h b => (h ^^^ b.toUInt32) * 16777619) 2166136261

/-- Outcome of the bearer gate: not run, credential accepted with the
    identity it carries, or refused. -/
inductive AuthOutcome where
  | skipped
  | verified (sub : CStr 128) (scope : CStr 256)
  | rejected
deriving DecidableEq

/-- The jwt branch of the gate: dispatch on the token's own `alg`. -/
def checkJwt (J : JwtOps) (w : MwWorld) (m : NtcMw F) (tok : Bytes) :
    Option NtcJwtClaims × NtcMw F :=
  match J.peekHeader tok with
  | none => (none, m)
  | some (alg, kid) =>
      if alg = lit "RS256" ∨ alg = lit "ES256" then
        let m :=
          if !m.cfg.authJwksUrl.bytes.isEmpty && (ntcJwksFind m.jwks kid alg).isNone then
            mwMaybeRefresh J w m
          else m
        (if m.jwks.isEmpty then none else ntcJwtVerifyJwks J tok m.jwks w.unixTime, m)
      else if alg = lit "HS256" ∧ m.cfg.authSecret.bytes ≠ [] then
        (J.verifyHs256 tok m.cfg.authSecret.bytes w.unixTime, m)
      else (none, m)

/-- The credential check on the `Authorization` header. -/
def checkBearer (J : JwtOps) (w : MwWorld) (m : NtcMw F) (a : Bytes) : AuthOutcome × NtcMw F :=
  if 7 < a.length ∧ a.take 7 = lit "Bearer " then
    let tok := a.drop 7
    if m.cfg.authMode.bytes = lit "apikey" then
      (if tok = m.cfg.authSecret.bytes then .verified (.empty 128) (.empty 256) else .rejected, m)
    else if m.cfg.authMode.bytes = lit "jwt" then
      match checkJwt J w m tok with
      | (some cl, m) => (.verified cl.sub cl.scope, m)
      | (none, m) => (.rejected, m)
    else (.rejected, m)
  else (.rejected, m)

/-- Whether the gate applies to a path: the raw bytes start with
    `auth_protect`. -/
def protectd (cfg : NtcMwConfig) (path : Bytes) : Bool :=
  cfg.authProtect.bytes.isEmpty || ntcSliceStartsWith path cfg.authProtect.bytes

/-- The auth block of `ntc_mw_before`. -/
def mwAuth (J : JwtOps) (w : MwWorld) (m : NtcMw F) (req : NtcRequest) (preAuthed : Bool) :
    AuthOutcome × NtcMw F :=
  if m.cfg.authMode.bytes ≠ [] ∧ m.cfg.authMode.bytes ≠ lit "none" ∧ preAuthed = false then
    if protectd m.cfg req.path then checkBearer J w m (ntcHttpHeader req (lit "authorization"))
    else (.skipped, m)
  else (.skipped, m)

/-- The bucket of a client. -/
def bucketIndex (clientIp : Bytes) : Nat := (hashStr clientIp).toNat % ntcRlBuckets

/-- The rate-limit block of `ntc_mw_before`: whether the request is denied. -/
def mwRateLimit (m : NtcMw F) (clientIp : Bytes) (nowMs : Int) : Bool × NtcMw F :=
  if 0 < m.cfg.ratePerSec then
    let idx := bucketIndex clientIp
    let burst := if 0 < m.cfg.rateBurst then m.cfg.rateBurst else m.cfg.ratePerSec
    let res := ntcBucketAllow (m.buckets idx) nowMs (CDouble.ofInt m.cfg.ratePerSec)
      (CDouble.ofInt burst)
    (!res.1, { m with buckets := Function.update m.buckets idx res.2 })
  else (false, m)

/-- The `X-Request-Id` line. -/
def requestIdHeader (w : MwWorld) : Bytes :=
  lit "X-Request-Id: " ++ w.requestId.bytes ++ crlf

/-- The CORS lines. -/
def corsHeaders (cfg : NtcMwConfig) : Bytes :=
  lit "Access-Control-Allow-Origin: " ++ cfg.corsOrigin.bytes ++ crlf
    ++ lit "Access-Control-Allow-Methods: GET,POST,PUT,PATCH,DELETE,OPTIONS\r\n"
    ++ lit "Access-Control-Allow-Headers: Authorization,Content-Type\r\n"

/-- A CORS preflight, answered before the gate. -/
def isPreflight (cfg : NtcMwConfig) (req : NtcRequest) : Prop :=
  cfg.corsOrigin.bytes ≠ [] ∧ req.method = lit "OPTIONS"

instance (cfg : NtcMwConfig) (req : NtcRequest) : Decidable (isPreflight cfg req) :=
  inferInstanceAs (Decidable (_ ∧ _))

/-- The headers every answer to the request carries. -/
def mwHeaders (w : MwWorld) (cfg : NtcMwConfig) : NtcMwResult :=
  { extraHeaders := .set 512
      ((if cfg.requestId then requestIdHeader w else [])
        ++ (if cfg.corsOrigin.bytes.isEmpty then [] else corsHeaders cfg))
    requestId := if cfg.requestId then w.requestId else .empty 40 }

/-- A result that answers at once. -/
def NtcMwResult.deny (r : NtcMwResult) (status : Nat) (contentType body : Bytes) : NtcMwResult :=
  { r with shortCircuit := true, status, contentType, body }

/-- `ntc_mw_before`: whether to answer at once, the result, and the middleware
    afterwards. -/
def ntcMwBefore (J : JwtOps) (w : MwWorld) (m : NtcMw F) (req : NtcRequest) (clientIp : Bytes)
    (nowMs : Int) (preAuthed : Bool) : Bool × NtcMwResult × NtcMw F :=
  let r := mwHeaders w m.cfg
  if isPreflight m.cfg req then (true, r.deny 204 (lit "text/plain") [], m)
  else
    match mwAuth J w m req preAuthed with
    | (.rejected, m) =>
        (true, r.deny 401 (lit "application/json") (lit "\x7b\"error\":\"unauthorized\"\x7d"), m)
    | (out, m) =>
        let r :=
          match out with
          | .verified sub scope => { r with authSub := sub, authScope := scope }
          | _ => r
        match mwRateLimit m clientIp nowMs with
        | (true, m) =>
            (true, r.deny 429 (lit "application/json")
              (lit "\x7b\"error\":\"rate limited\"\x7d"), m)
        | (false, m) => (false, r, m)

-- ============================================================================
-- The gate and the router
-- ============================================================================

omit [CDouble F] in
theorem checkBearer_ne_skipped (J : JwtOps) (w : MwWorld) (m : NtcMw F) (a : Bytes) :
    (checkBearer J w m a).1 ≠ .skipped := by
  rw [checkBearer]
  split
  · dsimp only
    split
    · dsimp only
      split <;> simp
    · split
      · split <;> simp
      · simp
  · simp

omit [CDouble F] in
@[simp] theorem mwMaybeRefresh_cfg (J : JwtOps) (w : MwWorld) (m : NtcMw F) :
    (mwMaybeRefresh J w m).cfg = m.cfg := by
  unfold mwMaybeRefresh mwFetchJwks
  split_ifs <;> try rfl
  dsimp only
  split <;> rfl

omit [CDouble F] in
@[simp] theorem mwMaybeRefresh_buckets (J : JwtOps) (w : MwWorld) (m : NtcMw F) :
    (mwMaybeRefresh J w m).buckets = m.buckets := by
  unfold mwMaybeRefresh mwFetchJwks
  split_ifs <;> try rfl
  dsimp only
  split <;> rfl

omit [CDouble F] in
theorem checkJwt_frame (J : JwtOps) (w : MwWorld) (m : NtcMw F) (tok : Bytes) :
    (checkJwt J w m tok).2.cfg = m.cfg ∧ (checkJwt J w m tok).2.buckets = m.buckets := by
  unfold checkJwt
  split
  · exact ⟨rfl, rfl⟩
  · split_ifs <;> simp

omit [CDouble F] in
/-- The gate leaves the configuration and the buckets alone. -/
theorem mwAuth_frame (J : JwtOps) (w : MwWorld) (m : NtcMw F) (req : NtcRequest) (pre : Bool) :
    (mwAuth J w m req pre).2.cfg = m.cfg ∧ (mwAuth J w m req pre).2.buckets = m.buckets := by
  unfold mwAuth checkBearer
  split_ifs
  · exact ⟨rfl, rfl⟩
  · have hframe := checkJwt_frame J w m ((ntcHttpHeader req (lit "authorization")).drop 7)
    dsimp only
    split
    · rename_i heq
      rw [heq] at hframe
      exact hframe
    · rename_i heq
      rw [heq] at hframe
      exact hframe
  all_goals exact ⟨rfl, rfl⟩

/-- Whether the rate limiter refuses the client now. -/
def rateDenies (m : NtcMw F) (clientIp : Bytes) (nowMs : Int) : Bool :=
  (mwRateLimit m clientIp nowMs).1

theorem rateDenies_congr {m m' : NtcMw F} (hcfg : m'.cfg = m.cfg) (hb : m'.buckets = m.buckets)
    (clientIp : Bytes) (nowMs : Int) :
    rateDenies m' clientIp nowMs = rateDenies m clientIp nowMs := by
  simp only [rateDenies, mwRateLimit, hcfg, hb]
  split_ifs <;> rfl

/-- `ntc_mw_before` lets a request through exactly when it is no preflight,
    the gate did not refuse it and the rate limiter does not either. -/
theorem ntcMwBefore_passes_iff (J : JwtOps) (w : MwWorld) (m : NtcMw F) (req : NtcRequest)
    (clientIp : Bytes) (nowMs : Int) (pre : Bool) :
    (ntcMwBefore J w m req clientIp nowMs pre).1 = false ↔
      ¬ isPreflight m.cfg req ∧ (mwAuth J w m req pre).1 ≠ .rejected ∧
        rateDenies m clientIp nowMs = false := by
  obtain ⟨hcfg, hbuckets⟩ := mwAuth_frame J w m req pre
  rw [ntcMwBefore]
  by_cases hpre : isPreflight m.cfg req
  · simp [hpre]
  · simp only [hpre, if_false, not_false_eq_true, true_and]
    rcases hauth : mwAuth J w m req pre with ⟨out, m'⟩
    rw [hauth] at hcfg hbuckets
    -- the limiter sees the middleware after the gate, whose buckets are the same
    rw [← rateDenies_congr hcfg hbuckets, rateDenies]
    cases out with
    | rejected => simp
    | skipped =>
        rcases hrate : mwRateLimit m' clientIp nowMs with ⟨_ | _, m''⟩ <;> simp [hrate]
    | verified sub scope =>
        rcases hrate : mwRateLimit m' clientIp nowMs with ⟨_ | _, m''⟩ <;> simp [hrate]

/-- Whether the gate of this request accepted a credential. -/
def credentialVerified (J : JwtOps) (w : MwWorld) (m : NtcMw F) (req : NtcRequest) (pre : Bool) :
    Prop :=
  ∃ sub scope, (mwAuth J w m req pre).1 = .verified sub scope

omit [CDouble F] in
/-- With an auth mode set the gate runs exactly on the paths whose raw bytes
    start with `auth_protect`. -/
theorem mwAuth_skipped_iff (J : JwtOps) (w : MwWorld) (m : NtcMw F) (req : NtcRequest)
    (hmode : m.cfg.authMode.bytes = lit "apikey" ∨ m.cfg.authMode.bytes = lit "jwt")
    (hprotect : m.cfg.authProtect.bytes ≠ []) :
    (mwAuth J w m req false).1 = .skipped ↔ ¬ m.cfg.authProtect.bytes <+: req.path := by
  have hon : m.cfg.authMode.bytes ≠ [] ∧ m.cfg.authMode.bytes ≠ lit "none" ∧ false = false := by
    rcases hmode with h | h
    · rw [h]; decide
    · rw [h]; decide
  rw [mwAuth, if_pos hon, protectd, ← ntcSliceStartsWith_iff]
  cases hpath : ntcSliceStartsWith req.path m.cfg.authProtect.bytes with
  | false => simp [hprotect]
  | true => simp [checkBearer_ne_skipped]

/-- The route a request resolves to has a pattern under `auth_protect`. -/
def reachesProtected (cfg : NtcMwConfig) (r : NtcRouter) (req : NtcRequest) : Prop :=
  ∃ rt params, ntcRouterMatch r req.method req.path = .found rt params ∧
    cfg.authProtect.bytes <+: rt.pattern

/-- A request for a protected route is let through only with a verified
    credential, exactly when its path has the prefix in its raw bytes, or it
    is a preflight, or the rate limiter refuses it. -/
theorem ntcMwBefore_guards_protected_iff (J : JwtOps) (w : MwWorld) (m : NtcMw F) (r : NtcRouter)
    (req : NtcRequest) (clientIp : Bytes) (nowMs : Int)
    (hmode : m.cfg.authMode.bytes = lit "apikey" ∨ m.cfg.authMode.bytes = lit "jwt")
    (hprotect : m.cfg.authProtect.bytes ≠ []) :
    (reachesProtected m.cfg r req → (ntcMwBefore J w m req clientIp nowMs false).1 = false →
        credentialVerified J w m req false) ↔
      (reachesProtected m.cfg r req →
        m.cfg.authProtect.bytes <+: req.path ∨ isPreflight m.cfg req ∨
          rateDenies m clientIp nowMs = true) := by
  have hskip := mwAuth_skipped_iff J w m req hmode hprotect
  have hpass := ntcMwBefore_passes_iff J w m req clientIp nowMs false
  constructor
  · intro h hreach
    by_contra hnone
    push Not at hnone
    obtain ⟨hraw, hpre, hrate⟩ := hnone
    have hsk := hskip.mpr hraw
    have hthrough := hpass.mpr ⟨hpre, by simp [hsk], by simpa using hrate⟩
    obtain ⟨sub, scope, hver⟩ := h hreach hthrough
    rw [hsk] at hver
    cases hver
  · intro h hreach hthrough
    obtain ⟨hpre, hrej, hrate⟩ := hpass.mp hthrough
    rcases h hreach with hraw | hp | hr
    · have hsk : (mwAuth J w m req false).1 ≠ .skipped := fun hs => hskip.mp hs hraw
      cases hout : (mwAuth J w m req false).1 with
      | skipped => exact absurd hout hsk
      | rejected => exact absurd hout hrej
      | verified sub scope => exact ⟨sub, scope, hout⟩
    · exact absurd hp hpre
    · rw [hrate] at hr
      cases hr

/-- Token functions that accept nothing; API-key mode calls none of them. -/
def jwtRejectAll : JwtOps where
  peekHeader _ := none
  verifyHs256 _ _ _ := none
  verifyRs256 _ _ _ _ := none
  verifyEs256 _ _ _ := none
  jwksParse _ := none

/-- API-key mode guarding `/api/`, rate limiter off. -/
def apiKeyMw : NtcMw Float where
  cfg :=
    { authMode := .set 16 (lit "apikey"), authSecret := .set 256 (lit "s3cret")
      authProtect := .set 128 (lit "/api/") }
  jwks := []
  hasCa := false
  jwksLastFetchMs := 0
  buckets _ := ⟨CDouble.ofInt 0, 0⟩

/-- An uneventful environment. -/
def mwWorldZero : MwWorld where
  requestId := .empty 40
  monoMs := 0
  fetchedAt := 0
  unixTime := 0
  fetched := none

/-- The forward route `GET /api/hello`. -/
def helloRoute : RouteT :=
  ⟨lit "GET", lit "/api/hello", [⟨lit "api", false⟩, ⟨lit "hello", false⟩], .forward 0, by decide⟩

theorem ntcMwBefore_guards_api_hello :
    reachesProtected apiKeyMw.cfg [helloRoute] { method := lit "GET", path := lit "/api/hello" } ∧
    ((ntcMwBefore jwtRejectAll mwWorldZero apiKeyMw
          { method := lit "GET", path := lit "/api/hello" } (lit "10.0.0.1") 1 false).1 = false →
      credentialVerified jwtRejectAll mwWorldZero apiKeyMw
        { method := lit "GET", path := lit "/api/hello" } false) := by
  have hreach : reachesProtected apiKeyMw.cfg [helloRoute]
      { method := lit "GET", path := lit "/api/hello" } := ⟨helloRoute, [], by decide, by decide⟩
  refine ⟨hreach, ?_⟩
  exact (ntcMwBefore_guards_protected_iff jwtRejectAll mwWorldZero apiKeyMw [helloRoute]
    { method := lit "GET", path := lit "/api/hello" } (lit "10.0.0.1") 1
    (Or.inl (by decide)) (by decide)).mpr (fun _ => Or.inl (by decide)) hreach

/-- `GET //api/hello` without a credential passes the gate and is routed to
    the protected `/api/hello`. -/
theorem ntcMwBefore_passes_double_slash :
    reachesProtected apiKeyMw.cfg [helloRoute] { method := lit "GET", path := lit "//api/hello" } ∧
    (ntcMwBefore jwtRejectAll mwWorldZero apiKeyMw
        { method := lit "GET", path := lit "//api/hello" } (lit "10.0.0.1") 1 false).1 = false ∧
    ¬ credentialVerified jwtRejectAll mwWorldZero apiKeyMw
        { method := lit "GET", path := lit "//api/hello" } false := by
  refine ⟨⟨helloRoute, [], by decide, by decide⟩, by decide, ?_⟩
  rintro ⟨sub, scope, hver⟩
  have hskip : (mwAuth jwtRejectAll mwWorldZero apiKeyMw
      { method := lit "GET", path := lit "//api/hello" } false).1 = .skipped := by decide
  rw [hskip] at hver
  cases hver

end Naitron
