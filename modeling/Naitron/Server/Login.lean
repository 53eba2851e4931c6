/-
  Naitron.Server.Login

  The OAuth login of `src/core/server.c` with the session tables of
  `src/core/session.c` and `src/core/session_store.c`: `handle_oauth` with its
  three pages, the sweep of the timer, and the session a request presents.

  The sessions are a table that a restart of the gateway leaves alone; the
  pending logins are in memory and are gone with it.  Randomness, the token
  endpoint, the clock and whether SQLite carries a statement out are answers
  of the environment.  Running out of memory while a response is parsed is
  left out.
-/

import Naitron.Chunked
import Naitron.Cookie
import Naitron.Jwt
import Naitron.KvStore
import Naitron.Lib.Table
import Naitron.Server.Oauth
import Naitron.Server.State

namespace Naitron

open Naitron.Lib

-- ============================================================================
-- Tokens
-- ============================================================================

/-- The bytes of `fill_random`. -/
abbrev RandomBytes (n : Nat) := { b : Bytes // b.length = n }

/-- A byte as `%02x` writes it. -/
def hexPair (b : UInt8) : Bytes := [hexDigit (b.toNat / 16), hexDigit (b.toNat % 16)]

/-- `ntc_random_token`, given what `fill_random` does. -/
def ntcRandomToken {n : Nat} (cap : Nat) (random : Option (RandomBytes n)) : Option Bytes :=
  if 64 < n ∨ cap < n * 2 + 1 then none else random.map fun b => b.1.flatMap hexPair

/-- `ntc_pkce_verifier`. -/
def ntcPkceVerifier (cap : Nat) (random : Option (RandomBytes 32)) : Option Bytes :=
  if cap < 44 then none
  else random.bind fun b => (ntcBase64urlEncode b.1 cap).filter fun s => !s.isEmpty

/-- `ntc_pkce_challenge`. -/
def ntcPkceChallenge (verifier : Bytes) (cap : Nat) : Option Bytes :=
  if cap < 44 then none
  else (ntcBase64urlEncode (ntcSha256 verifier) cap).filter fun s => !s.isEmpty

/-- The challenge of a verifier: the transform `S256`. -/
theorem ntcPkceChallenge_eq (verifier : Bytes) :
    ntcPkceChallenge verifier 64 = some (base64url (ntcSha256 verifier)) := by
  have hlen : (base64url (ntcSha256 verifier)).length = 43 :=
    base64url_length_32 (shaFinal_length _)
  rw [ntcPkceChallenge, if_neg (by omega), ntcBase64urlEncode, if_pos (by omega),
    Option.filter_some, if_pos]
  cases h : base64url (ntcSha256 verifier) with
  | nil =>
      rw [h] at hlen
      cases hlen
  | cons c s => rfl

-- ============================================================================
-- The session table
-- ============================================================================

/-- A row of `sessions`. -/
structure SessionRow where
  id : Bytes
  sub : Bytes
  scope : Bytes
  expiry : Int
deriving DecidableEq

/-- `ntc_session_put`: `INSERT OR REPLACE`.  `sqlOk` says that SQLite carries
    the statement out. -/
def ntcSessionPut (sqlOk : Bool) (rows : List SessionRow) (row : SessionRow) : List SessionRow :=
  if sqlOk then (TableOp.insert row).apply SessionRow.id rows else rows

/-- `ntc_session_get`: the row with `id = ?1 AND expiry > ?2`, in the buffers
    `sub[128]` and `scope[256]`. -/
def ntcSessionGet (sqlOk : Bool) (rows : List SessionRow) (id : Bytes) (now : Int) :
    Option (CStr 128 × CStr 256) :=
  if sqlOk then
    (rows.find? fun row => decide (row.id = id ∧ now < row.expiry)).map fun row =>
      (.set 128 row.sub, .set 256 row.scope)
  else none

/-- `ntc_session_del`. -/
def ntcSessionDel (sqlOk : Bool) (rows : List SessionRow) (id : Bytes) : List SessionRow :=
  if sqlOk then (TableOp.delete fun row => decide (row.id = id)).apply SessionRow.id rows else rows

/-- `ntc_session_sweep`: `DELETE .. WHERE expiry <= ?1`. -/
def ntcSessionSweep (sqlOk : Bool) (rows : List SessionRow) (now : Int) : List SessionRow :=
  if sqlOk then
    (TableOp.delete fun row => decide (row.expiry ≤ now)).apply SessionRow.id rows
  else rows

-- ============================================================================
-- The pages
-- ============================================================================

/-- The fields of `gateway` that a login is configured with. -/
structure LoginConfig extends OauthConfig where
  oauthAuthorizeUrl : CStr 256
  oauthScopes : CStr 160
  oauthSuccess : CStr 128

/-- What a request under `/auth/` meets outside: the clock, `fill_random`, the
    token endpoint (a response of at least one byte) and SQLite. -/
structure LoginAnswer where
  now : Int
  state : Option (RandomBytes 16)
  verifier : Option (RandomBytes 32)
  sid : Option (RandomBytes 24)
  post : Bytes → Option Bytes
  sqlOk : Bool

/-- The pending logins and the sessions. -/
structure Login where
  cfg : LoginConfig
  pending : NtcKvstore 1024
  sessions : List SessionRow

/-- `oauth_redirect`: what it writes into `extra_headers[512]`. -/
def oauthRedirect (location : Bytes) (setCookie : Option Bytes) : Page where
  status := 302
  contentType := lit "text/html; charset=utf-8"
  body := lit "<a href=\"/\">redirecting</a>"
  headers :=
    let line := lit "Location: " ++ location ++ crlf
    some (.set 512 (clip 512 line ++
      match setCookie with
      | none => []
      | some ck =>
          if line.length < 512 then clip (512 - line.length) (lit "Set-Cookie: " ++ ck ++ crlf)
          else []))

/-- An answer of `respond_and_flush`. -/
def errorPage (status : Nat) (error : String) : Page :=
  ⟨status, ctJson, lit "\x7b\"error\":\"" ++ lit error ++ lit "\"\x7d", none⟩

/-- The authorization request in `loc[1000]`. -/
def authorizeRequest (cfg : LoginConfig) (state challenge : Bytes) : Bytes :=
  let er := urlEncode cfg.oauthRedirectUri.bytes 400
  let scopes := if cfg.oauthScopes.bytes = [] then lit "openid" else cfg.oauthScopes.bytes
  let es := urlEncode scopes 200
  clip 1000 (cfg.oauthAuthorizeUrl.bytes ++ lit "?response_type=code&client_id="
    ++ cfg.oauthClientId.bytes ++ lit "&redirect_uri=" ++ er ++ lit "&scope=" ++ es
    ++ lit "&state=" ++ state ++ lit "&code_challenge=" ++ challenge
    ++ lit "&code_challenge_method=S256")

/-- `/auth/login`. -/
def oauthLogin (w : LoginAnswer) (l : Login) : Page × Login :=
  match ntcRandomToken 40 w.state, ntcPkceVerifier 64 w.verifier with
  | some state, some verifier =>
      match ntcPkceChallenge verifier 64 with
      | some challenge =>
          (oauthRedirect (authorizeRequest l.cfg state challenge) none,
            { l with pending := ntcKvPut l.pending state verifier (w.now + 600) })
      | none => (errorPage 500 "pkce", l)
  | _, _ => (errorPage 500 "pkce", l)

/-- The claims of the `id_token` in a response of the token endpoint, if it is
    signed with the client secret. -/
def idTokenClaims (X : JwtExt) (cfg : LoginConfig) (now : Int) (resp : Bytes) :
    Option NtcJwtClaims :=
  match ntcJsonParse resp with
  | none => none
  | some root =>
      let idt := ntcJsonStr (ntcJsonGet root (lit "id_token"))
      if idt ≠ [] ∧ cfg.oauthClientSecret.bytes ≠ [] then
        ntcJwtVerifyHs256 X idt cfg.oauthClientSecret.bytes now
      else none

/-- Where a browser goes after the login and the logout. -/
def LoginConfig.home (cfg : LoginConfig) : Bytes :=
  if cfg.oauthSuccess.bytes = [] then lit "/" else cfg.oauthSuccess.bytes

/-- Eight hours. -/
def sessionSeconds : Nat := 8 * 3600

/-- `/auth/callback`. -/
def oauthCallbackPage (X : JwtExt) (tls : Bool) (w : LoginAnswer) (l : Login) (query : Bytes) :
    Page × Login :=
  match oauthCallback l.cfg.toOauthConfig l.pending w.now query with
  | (none, pending) => (errorPage 400 "invalid or expired state", { l with pending })
  | (some body, pending) =>
      let l := { l with pending }
      match w.post body with
      | none => (errorPage 502 "token exchange failed", l)
      | some resp =>
          match idTokenClaims X l.cfg w.now resp with
          | none => (errorPage 401 "invalid id_token", l)
          | some cl =>
              match ntcRandomToken 80 w.sid with
              | none => (errorPage 500 "sid", l)
              | some sid =>
                  let row := ⟨sid, cl.sub.bytes, cl.scope.bytes, w.now + sessionSeconds⟩
                  (oauthRedirect l.cfg.home
                      (some (ntcCookieFormat 256 (lit "ntc_session") sid tls sessionSeconds).2),
                    { l with sessions := ntcSessionPut w.sqlOk l.sessions row })

/-- The session id a request presents: the cookie `ntc_session` in the first
    1023 bytes of the header, in `sid[80]`. -/
def sessionCookie (req : NtcRequest) : Option Bytes :=
  let ck := ntcHttpHeader req (lit "cookie")
  if ck = [] then none else ntcCookieGet (ck.take 1023) (lit "ntc_session") 80

/-- `/auth/logout`. -/
def oauthLogout (tls : Bool) (w : LoginAnswer) (l : Login) (req : NtcRequest) : Page × Login :=
  (oauthRedirect l.cfg.home (some (ntcCookieFormat 256 (lit "ntc_session") [] tls 0).2),
    match sessionCookie req with
    | none => l
    | some sid => { l with sessions := ntcSessionDel w.sqlOk l.sessions sid })

/-- `handle_oauth`. -/
def handleOauth (X : JwtExt) (tls : Bool) (w : LoginAnswer) (l : Login) (req : NtcRequest) :
    Page × Login :=
  if req.path = lit "/auth/login" then oauthLogin w l
  else if req.path = lit "/auth/callback" then oauthCallbackPage X tls w l req.query
  else if req.path = lit "/auth/logout" then oauthLogout tls w l req
  else (errorPage 404 "not found", l)

/-- The identity `process_request` takes from the session of a request. -/
def sessionIdentity (l : Login) (req : NtcRequest) (now : Int) (sqlOk : Bool) :
    Option (CStr 128 × CStr 256) :=
  (sessionCookie req).bind fun sid => ntcSessionGet sqlOk l.sessions sid now

-- ============================================================================
-- Runs
-- ============================================================================

/-- What happens to logins and sessions: a request under `/auth/`, the sweep of
    the timer, or a restart with whatever configuration. -/
inductive LoginStep where
  | request (req : NtcRequest) (tls : Bool) (w : LoginAnswer)
  | sweep (now : Int) (sqlOk : Bool)
  | restart (cfg : LoginConfig)

/-- The state after a step. -/
def loginStep (X : JwtExt) (l : Login) : LoginStep → Login
  | .request req tls w => (handleOauth X tls w l req).2
  | .sweep now sqlOk => { l with sessions := ntcSessionSweep sqlOk l.sessions now }
  | .restart cfg => { cfg, pending := ntcKvNew 1024, sessions := l.sessions }

/-- The first start, with an empty table. -/
def loginStart (cfg : LoginConfig) : Login where
  cfg
  pending := ntcKvNew 1024
  sessions := []

/-- The state after a run from the first start. -/
def loginAfter (X : JwtExt) (cfg : LoginConfig) (run : List LoginStep) : Login :=
  run.foldl (loginStep X) (loginStart cfg)

-- ============================================================================
-- What a step does to the sessions
-- ============================================================================

/-- The row a callback stores. -/
def issuedRow (X : JwtExt) (w : LoginAnswer) (l : Login) (query : Bytes) : Option SessionRow :=
  (oauthCallback l.cfg.toOauthConfig l.pending w.now query).1.bind fun body =>
    (w.post body).bind fun resp =>
      (idTokenClaims X l.cfg w.now resp).bind fun cl =>
        (ntcRandomToken 80 w.sid).map fun sid =>
          ⟨sid, cl.sub.bytes, cl.scope.bytes, w.now + sessionSeconds⟩

/-- The statement a step has SQLite carry out. -/
def sessionOp (X : JwtExt) (l : Login) : LoginStep → Option (TableOp SessionRow)
  | .request req _ w =>
      if w.sqlOk = false then none
      else if req.path = lit "/auth/callback" then (issuedRow X w l req.query).map .insert
      else if req.path = lit "/auth/logout" then
        (sessionCookie req).map fun sid => .delete fun row => decide (row.id = sid)
      else none
  | .sweep now sqlOk =>
      if sqlOk = false then none else some (.delete fun row => decide (row.expiry ≤ now))
  | .restart _ => none

variable {X : JwtExt} {l : Login}

theorem oauthLogin_sessions (w : LoginAnswer) : (oauthLogin w l).2.sessions = l.sessions := by
  rw [oauthLogin]
  split
  · split
    · rfl
    · rfl
  · rfl

theorem oauthCallbackPage_sessions (tls : Bool) (w : LoginAnswer) (query : Bytes) :
    (oauthCallbackPage X tls w l query).2.sessions =
      (issuedRow X w l query).elim l.sessions (ntcSessionPut w.sqlOk l.sessions) := by
  rw [oauthCallbackPage, issuedRow]
  obtain ⟨body, pending⟩ := oauthCallback l.cfg.toOauthConfig l.pending w.now query
  cases body with
  | none => rfl
  | some body =>
      dsimp only [Option.bind_some]
      cases w.post body with
      | none => rfl
      | some resp =>
          dsimp only [Option.bind_some]
          cases idTokenClaims X l.cfg w.now resp with
          | none => rfl
          | some cl =>
              dsimp only [Option.bind_some]
              cases ntcRandomToken 80 w.sid with
              | none => rfl
              | some sid => rfl

/-- A step does to the table what its statement says. -/
theorem loginStep_sessions (l : Login) (e : LoginStep) :
    (loginStep X l e).sessions =
      (sessionOp X l e).elim l.sessions (TableOp.apply SessionRow.id l.sessions) := by
  cases e with
  | restart cfg => rfl
  | sweep now sqlOk =>
      rw [loginStep, sessionOp, ntcSessionSweep]
      cases sqlOk with
      | false => rfl
      | true => rfl
  | request req tls w =>
      rw [loginStep, sessionOp, handleOauth]
      by_cases hlogin : req.path = lit "/auth/login"
      · have hne₁ : lit "/auth/login" ≠ lit "/auth/callback" := by decide
        have hne₂ : lit "/auth/login" ≠ lit "/auth/logout" := by decide
        rw [if_pos hlogin, oauthLogin_sessions, hlogin, if_neg hne₁, if_neg hne₂, ite_self]
        rfl
      rw [if_neg hlogin]
      by_cases hcallback : req.path = lit "/auth/callback"
      · rw [if_pos hcallback, if_pos hcallback, oauthCallbackPage_sessions]
        cases issuedRow X w l req.query with
        | none =>
            rw [Option.map_none, ite_self]
            rfl
        | some row =>
            rw [Option.elim_some, ntcSessionPut, Option.map_some]
            cases w.sqlOk with
            | false => rfl
            | true => rfl
      rw [if_neg hcallback, if_neg hcallback]
      by_cases hlogout : req.path = lit "/auth/logout"
      · rw [if_pos hlogout, if_pos hlogout, oauthLogout]
        cases sessionCookie req with
        | none =>
            rw [Option.map_none, ite_self]
            rfl
        | some sid =>
            dsimp only
            rw [ntcSessionDel, Option.map_some]
            cases w.sqlOk with
            | false => rfl
            | true => rfl
      · rw [if_neg hlogout, if_neg hlogout, ite_self]
        rfl

-- ============================================================================
-- Sessions over a run
-- ============================================================================

/-- A sign-in: a callback whose state is pending, whose token request is
    answered with an `id_token` that the client secret signs, and whose session
    SQLite stores. -/
structure SignsIn (X : JwtExt) (l : Login) (e : LoginStep) (row : SessionRow) : Prop where
  callback : ∃ req tls w body resp cl, e = .request req tls w ∧
    req.path = lit "/auth/callback" ∧ w.sqlOk = true ∧
    (oauthCallback l.cfg.toOauthConfig l.pending w.now req.query).1 = some body ∧
    w.post body = some resp ∧ idTokenClaims X l.cfg w.now resp = some cl ∧
    ntcRandomToken 80 w.sid = some row.id ∧
    row.sub = cl.sub.bytes ∧ row.scope = cl.scope.bytes ∧ row.expiry = w.now + sessionSeconds

theorem issuedRow_eq_some_iff {w : LoginAnswer} {query : Bytes} {row : SessionRow} :
    issuedRow X w l query = some row ↔ ∃ body resp cl,
      (oauthCallback l.cfg.toOauthConfig l.pending w.now query).1 = some body ∧
      w.post body = some resp ∧ idTokenClaims X l.cfg w.now resp = some cl ∧
      ntcRandomToken 80 w.sid = some row.id ∧
      row.sub = cl.sub.bytes ∧ row.scope = cl.scope.bytes ∧
      row.expiry = w.now + sessionSeconds := by
  simp only [issuedRow, Option.bind_eq_some_iff, Option.map_eq_some_iff]
  constructor
  · rintro ⟨body, hbody, resp, hresp, cl, hcl, sid, hsid, rfl⟩
    exact ⟨body, resp, cl, hbody, hresp, hcl, hsid, rfl, rfl, rfl⟩
  · rintro ⟨body, resp, cl, hbody, hresp, hcl, hsid, hsub, hscope, hexpiry⟩
    refine ⟨body, hbody, resp, hresp, cl, hcl, row.id, hsid, ?_⟩
    rw [← hsub, ← hscope, ← hexpiry]

theorem signsIn_iff {e : LoginStep} {row : SessionRow} :
    SignsIn X l e row ↔ sessionOp X l e = some (.insert row) := by
  constructor
  · rintro ⟨req, tls, w, body, resp, cl, rfl, hpath, hsql, hrest⟩
    rw [sessionOp, hsql, if_neg Bool.noConfusion, if_pos hpath,
      issuedRow_eq_some_iff.mpr ⟨body, resp, cl, hrest⟩, Option.map_some]
  · intro h
    cases e with
    | restart cfg => cases h
    | sweep now sqlOk =>
        rw [sessionOp] at h
        split_ifs at h
        cases h
    | request req tls w =>
        rw [sessionOp] at h
        split_ifs at h with hsql hcallback hlogout
        · obtain ⟨row', hrow, heq⟩ := Option.map_eq_some_iff.mp h
          obtain rfl := TableOp.insert.inj heq
          obtain ⟨body, resp, cl, hrest⟩ := issuedRow_eq_some_iff.mp hrow
          exact ⟨req, tls, w, body, resp, cl, rfl, hcallback, eq_true_of_ne_false hsql, hrest⟩
        · obtain ⟨sid, _, heq⟩ := Option.map_eq_some_iff.mp h
          cases heq

/-- The session ends: it is logged out, swept after its time, or replaced by
    another sign-in that draws the same id. -/
def EndsSession (X : JwtExt) (l : Login) (row : SessionRow) (e : LoginStep) : Prop :=
  (∃ req tls w, e = .request req tls w ∧ req.path = lit "/auth/logout" ∧ w.sqlOk = true ∧
    sessionCookie req = some row.id) ∨
  (∃ now, e = .sweep now true ∧ row.expiry ≤ now) ∨
  (∃ row', SignsIn X l e row' ∧ row'.id = row.id)

theorem endsSession_iff {row : SessionRow} {e : LoginStep} :
    EndsSession X l row e ↔ ∃ o, sessionOp X l e = some o ∧ o.Drops SessionRow.id row := by
  constructor
  · rintro (⟨req, tls, w, rfl, hpath, hsql, hsid⟩ | ⟨now, rfl, hexp⟩ | ⟨row', hin, hid⟩)
    · have hne : lit "/auth/logout" ≠ lit "/auth/callback" := by decide
      refine ⟨.delete fun r => decide (r.id = row.id), ?_, decide_eq_true rfl⟩
      rw [sessionOp, hsql, if_neg Bool.noConfusion, hpath, if_neg hne, if_pos rfl, hsid,
        Option.map_some]
    · exact ⟨_, rfl, decide_eq_true hexp⟩
    · exact ⟨_, signsIn_iff.mp hin, hid⟩
  · rintro ⟨o, ho, hdrops⟩
    cases o with
    | insert row' => exact .inr (.inr ⟨row', signsIn_iff.mpr ho, hdrops⟩)
    | delete p =>
        cases e with
        | restart cfg => cases ho
        | sweep now sqlOk =>
            rw [sessionOp] at ho
            split_ifs at ho with hsql
            obtain rfl := TableOp.delete.inj (Option.some.inj ho)
            rw [eq_true_of_ne_false hsql]
            exact .inr (.inl ⟨now, rfl, of_decide_eq_true hdrops⟩)
        | request req tls w =>
            rw [sessionOp] at ho
            split_ifs at ho with hsql hcallback hlogout
            · obtain ⟨_, _, heq⟩ := Option.map_eq_some_iff.mp ho
              cases heq
            · obtain ⟨sid, hsid, heq⟩ := Option.map_eq_some_iff.mp ho
              obtain rfl := TableOp.delete.inj heq
              refine .inl ⟨req, tls, w, rfl, hlogout, eq_true_of_ne_false hsql, ?_⟩
              rw [hsid, of_decide_eq_true hdrops]

theorem loginAfter_unique (X : JwtExt) (cfg : LoginConfig) (run : List LoginStep) :
    UniqueKeys SessionRow.id (loginAfter X cfg run).sessions :=
  uniqueKeys_run loginStep_sessions uniqueKeys_nil run

/-- The rows of the table after a run. -/
theorem mem_sessions_iff {cfg : LoginConfig} {run : List LoginStep} {row : SessionRow} :
    row ∈ (loginAfter X cfg run).sessions ↔
      ∃ before e after, run = before ++ e :: after ∧
        SignsIn X (loginAfter X cfg before) e row ∧
        ∀ b e' a, after = b ++ e' :: a →
          ¬ EndsSession X (loginAfter X cfg (before ++ e :: b)) row e' := by
  have hkept : ∀ (before : List LoginStep) (e : LoginStep) (after : List LoginStep),
      Kept SessionRow.id (loginStep X) (sessionOp X) row
          ((before ++ [e]).foldl (loginStep X) (loginStart cfg)) after ↔
        ∀ b e' a, after = b ++ e' :: a →
          ¬ EndsSession X (loginAfter X cfg (before ++ e :: b)) row e' := by
    intro before e after
    rw [Kept]
    refine forall_congr' fun b => forall_congr' fun e' => forall_congr' fun a =>
      imp_congr_right fun _ => ?_
    rw [endsSession_iff, not_exists, ← List.foldl_append, List.append_assoc,
      List.singleton_append]
    exact forall_congr' fun o => (not_and).symm
  rw [loginAfter, @mem_table_run _ _ SessionRow.id _ _ _ Login.sessions _ _
    loginStep_sessions (loginStart cfg) run row]
  constructor
  · rintro (⟨before, e, after, heq, hop, hk⟩ | ⟨hnil, _⟩)
    · exact ⟨before, e, after, heq, signsIn_iff.mpr hop, (hkept before e after).mp hk⟩
    · cases hnil
  · rintro ⟨before, e, after, heq, hin, hk⟩
    exact .inl ⟨before, e, after, heq, signsIn_iff.mp hin, (hkept before e after).mpr hk⟩

/-- The lookup of an id among rows with different ids. -/
theorem ntcSessionGet_eq_some_iff {rows : List SessionRow} (hrows : UniqueKeys SessionRow.id rows)
    {sid : Bytes} {now : Int} {id : CStr 128 × CStr 256} :
    ntcSessionGet true rows sid now = some id ↔
      ∃ row ∈ rows, row.id = sid ∧ now < row.expiry ∧
        id = (.set 128 row.sub, .set 256 row.scope) := by
  have hfind : ∀ row, rows.find? (fun r => decide (r.id = sid ∧ now < r.expiry)) = some row ↔
      row ∈ rows ∧ decide (row.id = sid ∧ now < row.expiry) = true :=
    fun row => hrows.find?_eq_some_iff fun r hr => (of_decide_eq_true hr).1
  rw [ntcSessionGet, if_pos rfl, Option.map_eq_some_iff]
  constructor
  · rintro ⟨row, hrow, rfl⟩
    obtain ⟨hmem, hcond⟩ := (hfind row).mp hrow
    obtain ⟨hid, hnow⟩ := of_decide_eq_true hcond
    exact ⟨row, hmem, hid, hnow, rfl⟩
  · rintro ⟨row, hmem, hid, hnow, rfl⟩
    exact ⟨row, (hfind row).mpr ⟨hmem, decide_eq_true ⟨hid, hnow⟩⟩, rfl⟩

/-- A request is taken for signed in exactly if its cookie has the id of a
    session that some earlier callback opened for an `id_token` of that
    subject, that is not eight hours old, and that has not ended since. -/
theorem sessionIdentity_iff (X : JwtExt) (cfg : LoginConfig) (run : List LoginStep)
    (req : NtcRequest) (now : Int) (id : CStr 128 × CStr 256) :
    sessionIdentity (loginAfter X cfg run) req now true = some id ↔
      ∃ before e after row, run = before ++ e :: after ∧
        SignsIn X (loginAfter X cfg before) e row ∧
        (∀ b e' a, after = b ++ e' :: a →
          ¬ EndsSession X (loginAfter X cfg (before ++ e :: b)) row e') ∧
        sessionCookie req = some row.id ∧ now < row.expiry ∧
        id = (.set 128 row.sub, .set 256 row.scope) := by
  rw [sessionIdentity, Option.bind_eq_some_iff]
  constructor
  · rintro ⟨sid, hsid, hget⟩
    obtain ⟨row, hmem, rfl, hnow, hid⟩ :=
      (ntcSessionGet_eq_some_iff (loginAfter_unique X cfg run)).mp hget
    obtain ⟨before, e, after, heq, hin, hkept⟩ := mem_sessions_iff.mp hmem
    exact ⟨before, e, after, row, heq, hin, hkept, hsid, hnow, hid⟩
  · rintro ⟨before, e, after, row, heq, hin, hkept, hsid, hnow, hid⟩
    refine ⟨row.id, hsid, (ntcSessionGet_eq_some_iff (loginAfter_unique X cfg run)).mpr ?_⟩
    exact ⟨row, mem_sessions_iff.mpr ⟨before, e, after, heq, hin, hkept⟩, rfl, hnow, hid⟩

-- ============================================================================
-- Through the browser
-- ============================================================================

/-- The digits of `ntc_random_token`. -/
def tokenDigits : Bytes := lit "0123456789abcdef"

theorem hexPair_mem (b : UInt8) : ∀ c ∈ hexPair b, c ∈ tokenDigits := by
  have hdigit : ∀ d < 16, hexDigit d ∈ tokenDigits := by decide
  have hb := b.toNat_lt
  intro c hc
  rw [hexPair, List.mem_cons, List.mem_singleton] at hc
  obtain rfl | rfl := hc
  · exact hdigit _ (by omega)
  · exact hdigit _ (Nat.mod_lt _ (by omega))

theorem ntcRandomToken_some {n cap : Nat} {random : Option (RandomBytes n)} {token : Bytes}
    (h : ntcRandomToken cap random = some token) :
    token.length = n * 2 ∧ n * 2 < cap ∧ ∀ c ∈ token, c ∈ tokenDigits := by
  rw [ntcRandomToken] at h
  split_ifs at h with hbounds
  obtain ⟨⟨b, hb⟩, _, rfl⟩ := Option.map_eq_some_iff.mp h
  have hlen : ∀ s : Bytes, (s.flatMap hexPair).length = s.length * 2 := by
    intro s
    induction s with
    | nil => rfl
    | cons c s ih =>
        rw [List.flatMap_cons, List.length_append, ih, List.length_cons]
        show 2 + s.length * 2 = (s.length + 1) * 2
        omega
  refine ⟨by rw [hlen, hb], by omega, fun c hc => ?_⟩
  obtain ⟨x, -, hx⟩ := List.mem_flatMap.mp hc
  exact hexPair_mem x c hx

/-- The text of the session cookie. -/
def sessionCookieText (sid : Bytes) (tls : Bool) : Bytes :=
  lit "ntc_session" ++ [61] ++ sid ++ lit "; Path=/; HttpOnly; SameSite=Lax" ++
    (if tls then lit "; Secure" else []) ++ lit "; Max-Age=28800"

theorem sessionCookieText_fits {sid : Bytes} (hlen : sid.length = 48)
    (hdigits : ∀ c ∈ sid, c ∈ tokenDigits) (tls : Bool) :
    (sessionCookieText sid tls).length ≤ 130 ∧ 0 ∉ sessionCookieText sid tls := by
  have hnul : (0 : UInt8) ∉ sid := fun h => absurd (hdigits 0 h) (by decide)
  have h1 : (lit "ntc_session").length = 11 := by decide
  have h2 : (lit "; Path=/; HttpOnly; SameSite=Lax").length = 32 := by decide
  have h3 : (if tls then lit "; Secure" else []).length ≤ 8 := by
    cases tls with
    | false => decide
    | true => decide
  have h4 : (lit "; Max-Age=28800").length = 15 := by decide
  have hsecure : (0 : UInt8) ∉ (if tls then lit "; Secure" else []) := by
    cases tls with
    | false => decide
    | true => decide
  rw [sessionCookieText]
  constructor
  · simp only [List.length_append, List.length_singleton, hlen]
    omega
  · simp only [List.mem_append, not_or]
    exact ⟨⟨⟨⟨⟨by decide, by decide⟩, hnul⟩, by decide⟩, hsecure⟩, by decide⟩

/-- The cookie of a session is written whole. -/
theorem ntcCookieFormat_session {sid : Bytes} (hlen : sid.length = 48) (tls : Bool) :
    (ntcCookieFormat 256 (lit "ntc_session") sid tls sessionSeconds).2 =
      sessionCookieText sid tls := by
  have h1 : (lit "ntc_session").length = 11 := by decide
  have h2 : (lit "; Path=/; HttpOnly; SameSite=Lax").length = 32 := by decide
  have h3 : (if tls then lit "; Secure" else []).length ≤ 8 := by
    cases tls with
    | false => decide
    | true => decide
  have hage : lit "; Max-Age=" ++ decimal (sessionSeconds : Int).toNat = lit "; Max-Age=28800" := by
    decide
  have htext : (lit "ntc_session" ++ [61] ++ sid ++ lit "; Path=/; HttpOnly; SameSite=Lax" ++
      (if tls then lit "; Secure" else [])).length < 200 := by
    simp only [List.length_append, List.length_singleton, hlen]
    omega
  have hfits : (lit "; Max-Age=28800").length = 15 := by decide
  rw [ntcCookieFormat]
  dsimp only
  rw [if_neg (by omega), if_pos (by decide), hage,
    clip_of_fits (by decide) (by rw [hfits]; omega), sessionCookieText]

/-- The headers of a redirect that has room for both lines. -/
theorem oauthRedirect_headers {location cookie : Bytes} (hlocation : 0 ∉ location)
    (hcookie : 0 ∉ cookie) (hlen : location.length + cookie.length + 26 < 512) :
    (oauthRedirect location (some cookie)).headers.map CStr.bytes =
      some (lit "Location: " ++ location ++ crlf ++ (lit "Set-Cookie: " ++ cookie ++ crlf)) := by
  have h1 : (lit "Location: ").length = 10 := by decide
  have h2 : (lit "Set-Cookie: ").length = 12 := by decide
  have hline : (lit "Location: " ++ location ++ crlf).length = location.length + 12 := by
    rw [List.length_append, List.length_append, h1]
    show 10 + location.length + 2 = location.length + 12
    omega
  have hset : (lit "Set-Cookie: " ++ cookie ++ crlf).length = cookie.length + 14 := by
    rw [List.length_append, List.length_append, h2]
    show 12 + cookie.length + 2 = cookie.length + 14
    omega
  have hnul₁ : 0 ∉ lit "Location: " ++ location ++ crlf := by
    simp only [List.mem_append, not_or]
    exact ⟨⟨by decide, hlocation⟩, by decide⟩
  have hnul₂ : 0 ∉ lit "Set-Cookie: " ++ cookie ++ crlf := by
    simp only [List.mem_append, not_or]
    exact ⟨⟨by decide, hcookie⟩, by decide⟩
  rw [oauthRedirect]
  dsimp only
  rw [if_pos (by omega), clip_of_fits hnul₁ (by omega), clip_of_fits hnul₂ (by omega),
    Option.map_some]
  refine congrArg some (clip_of_fits ?_ ?_)
  · rw [List.mem_append, not_or]
    exact ⟨hnul₁, hnul₂⟩
  · rw [List.length_append]
    omega

theorem LoginConfig.home_fits (cfg : LoginConfig) : cfg.home.length ≤ 127 ∧ 0 ∉ cfg.home := by
  rw [home]
  split
  · decide
  · exact ⟨cfg.oauthSuccess.fits, cfg.oauthSuccess.noNul⟩

/-- The page that a sign-in is answered with. -/
theorem SignsIn.page {req : NtcRequest} {tls : Bool} {w : LoginAnswer} {row : SessionRow}
    (h : SignsIn X l (.request req tls w) row) :
    (handleOauth X tls w l req).1.headers.map CStr.bytes =
      some (lit "Location: " ++ l.cfg.home ++ crlf ++
        (lit "Set-Cookie: " ++ sessionCookieText row.id tls ++ crlf)) := by
  obtain ⟨_, _, _, body, resp, cl, heq, hpath, -, hbody, hresp, hcl, hsid, -⟩ := h
  obtain ⟨rfl, rfl, rfl⟩ := LoginStep.request.inj heq
  obtain ⟨hlen, -, hdigits⟩ := ntcRandomToken_some hsid
  obtain ⟨hfits, hnul⟩ := sessionCookieText_fits hlen hdigits tls
  obtain ⟨hhome, hhomeNul⟩ := l.cfg.home_fits
  have hne : lit "/auth/callback" ≠ lit "/auth/login" := by decide
  rw [handleOauth, hpath, if_neg hne, if_pos rfl, oauthCallbackPage]
  obtain ⟨pending, hcallback⟩ :
      ∃ pending,
        oauthCallback l.cfg.toOauthConfig l.pending w.now req.query = (some body, pending) :=
    ⟨_, Prod.ext hbody rfl⟩
  rw [hcallback]
  dsimp only
  rw [hresp]
  dsimp only
  rw [hcl]
  dsimp only
  rw [hsid]
  dsimp only
  rw [ntcCookieFormat_session hlen, oauthRedirect_headers hhomeNul hnul (by omega)]

/-- A browser that sends the cookie of the redirect back is recognised as who
    signed in, in every request up to the end of the session and no longer. -/
theorem signedIn_recognised (X : JwtExt) (cfg : LoginConfig) (before after : List LoginStep)
    (req : NtcRequest) (tls : Bool) (w : LoginAnswer) (row : SessionRow)
    (hin : SignsIn X (loginAfter X cfg before) (.request req tls w) row)
    (hkept : ∀ b e a, after = b ++ e :: a →
      ¬ EndsSession X (loginAfter X cfg (before ++ .request req tls w :: b)) row e) :
    ∃ cookie, (handleOauth X tls w (loginAfter X cfg before) req).1.headers.map CStr.bytes =
        some (lit "Location: " ++ (loginAfter X cfg before).cfg.home ++ crlf ++
          (lit "Set-Cookie: " ++ cookie ++ crlf)) ∧
      ∀ (req' : NtcRequest) (others : List Bytes) (rest : Bytes) (now : Int),
        ntcHttpHeader req' (lit "cookie") =
          others.flatMap (· ++ lit "; ") ++ cookie.takeWhile (· != chSemicolon) ++ rest →
        CookieFirst others (lit "ntc_session") rest → (∀ c ∈ others, 0 ∉ c) →
        (others.flatMap (· ++ lit "; ")).length + 60 ≤ 1023 →
        sessionIdentity (loginAfter X cfg (before ++ .request req tls w :: after)) req' now true =
          if now < row.expiry then some (.set 128 row.sub, .set 256 row.scope) else none := by
  refine ⟨sessionCookieText row.id tls, hin.page, ?_⟩
  intro req' others rest now hheader hfirst hnul hlen
  obtain ⟨_, _, _, _, _, _, heq, -, -, -, -, -, hsid, -⟩ := id hin
  obtain ⟨hsidLen, -, hdigits⟩ := ntcRandomToken_some hsid
  have hsemi : chSemicolon ∉ row.id := fun h => absurd (hdigits _ h) (by decide)
  have hsidNul : 0 ∉ row.id := fun h => absurd (hdigits _ h) (by decide)
  have hname : CookieName (lit "ntc_session") := ⟨by decide, by decide⟩
  have hnameLen : (lit "ntc_session").length = 11 := by decide
  have hpair : (sessionCookieText row.id tls).takeWhile (· != chSemicolon) =
      lit "ntc_session" ++ 61 :: row.id := by
    rw [← ntcCookieFormat_session hsidLen]
    exact ntcCookieFormat_pair hname.1 hsemi (by omega) tls _
  rw [hpair] at hheader
  -- the cookie is in front of what the buffer cuts off
  have hfront : (others.flatMap (· ++ lit "; ") ++ (lit "ntc_session" ++ 61 :: row.id)).length ≤
      1023 := by
    rw [List.length_append, List.length_append, List.length_cons, hnameLen, hsidLen]
    omega
  have hcut : (ntcHttpHeader req' (lit "cookie")).take 1023 =
      cookieHeader others (lit "ntc_session") row.id (rest.take (1023 -
        (others.flatMap (· ++ lit "; ") ++ (lit "ntc_session" ++ 61 :: row.id)).length)) := by
    rw [hheader, List.take_append, List.take_of_length_le hfront, cookieHeader]
  have hnext : CookieFirst others (lit "ntc_session") (rest.take (1023 -
      (others.flatMap (· ++ lit "; ") ++ (lit "ntc_session" ++ 61 :: row.id)).length)) := by
    refine ⟨hfirst.others, ?_⟩
    generalize 1023 - (others.flatMap (· ++ lit "; ") ++
      (lit "ntc_session" ++ 61 :: row.id)).length = n
    obtain rfl | hhead := hfirst.next
    · exact .inl List.take_nil
    · cases n with
      | zero => exact .inl List.take_zero
      | succ n =>
          cases rest with
          | nil => cases hhead
          | cons d rest => exact .inr hhead
  have hcookie : sessionCookie req' = some row.id := by
    have hne : ntcHttpHeader req' (lit "cookie") ≠ [] := by
      rw [hheader]
      simp
    have hfrontNul : 0 ∉ cookieHeader others (lit "ntc_session") row.id [] := by
      rw [cookieHeader, List.append_nil, List.mem_append, List.mem_append, List.mem_cons, not_or,
        not_or, not_or]
      refine ⟨fun h => ?_, by decide, by decide, hsidNul⟩
      obtain ⟨c, hc, hmem⟩ := List.mem_flatMap.mp h
      obtain hmem | hmem := List.mem_append.mp hmem
      · exact hnul c hc hmem
      · exact absurd hmem (by decide)
    rw [sessionCookie, if_neg hne, hcut, ntcCookieGet_header hname hsemi hnext hfrontNul (by omega)]
  have hmem : row ∈ (loginAfter X cfg (before ++ .request req tls w :: after)).sessions :=
    mem_sessions_iff.mpr ⟨before, _, after, rfl, hin, hkept⟩
  have hunique := loginAfter_unique X cfg (before ++ .request req tls w :: after)
  rw [sessionIdentity, hcookie, Option.bind_some]
  split
  next hnow =>
    exact (ntcSessionGet_eq_some_iff hunique).mpr ⟨row, hmem, rfl, hnow, rfl⟩
  next hnow =>
    refine Option.eq_none_iff_forall_not_mem.mpr fun id hid => ?_
    obtain ⟨row', hmem', hid', hnow', -⟩ := (ntcSessionGet_eq_some_iff hunique).mp hid
    rw [List.inj_on_of_nodup_map hunique hmem' hmem hid'] at hnow'
    exact hnow hnow'

-- ============================================================================
-- A login by the book
-- ============================================================================

def zeroBytes (n : Nat) : RandomBytes n := ⟨List.replicate n 0, List.length_replicate⟩

def bookConfig : LoginConfig where
  oauthClientId := .set 160 (lit "app")
  oauthClientSecret := .set 256 (lit "s3cret")
  oauthRedirectUri := .set 256 (lit "http://a/auth/callback")
  oauthAuthorizeUrl := .set 256 (lit "http://id/authorize")
  oauthScopes := .empty 160
  oauthSuccess := .empty 128

/-- The token endpoint answers with an `id_token` for `ann`. -/
def bookAnswer (now : Int) : LoginAnswer where
  now
  state := some (zeroBytes 16)
  verifier := some (zeroBytes 32)
  sid := some (zeroBytes 24)
  post _ := some (lit "\x7b\"id_token\":\"" ++ tokenAnn ++ lit "\"\x7d")
  sqlOk := true

def visitLogin (now : Int) : LoginStep :=
  .request { path := lit "/auth/login" } false (bookAnswer now)

/-- The state that `visitLogin` draws. -/
def bookState : Bytes := List.replicate 32 48

/-- The verifier that `visitLogin` draws. -/
def bookVerifier : Bytes := List.replicate 43 65

def callbackRequest : NtcRequest where
  path := lit "/auth/callback"
  query := lit "code=c&state=" ++ bookState

theorem loginAfter_visit (now : Int) :
    loginAfter noVerifiers bookConfig [visitLogin now] =
      { loginStart bookConfig with
        pending := ntcKvPut (ntcKvNew 1024) bookState bookVerifier (now + 600) } := by
  have hstate : ntcRandomToken 40 (some (zeroBytes 16)) = some bookState := by decide
  have hverifier : ntcPkceVerifier 64 (some (zeroBytes 32)) = some bookVerifier := by decide
  show (handleOauth noVerifiers false (bookAnswer now) (loginStart bookConfig)
    { path := lit "/auth/login" }).2 = _
  rw [handleOauth, if_pos rfl, oauthLogin,
    show (bookAnswer now).state = some (zeroBytes 16) from rfl,
    show (bookAnswer now).verifier = some (zeroBytes 32) from rfl, hstate, hverifier]
  dsimp only
  rw [ntcPkceChallenge_eq]
  rfl

theorem oauthCallback_visit :
    ((oauthCallback bookConfig.toOauthConfig
      (loginAfter noVerifiers bookConfig [visitLogin 0]).pending 0 callbackRequest.query).1).isSome
        = true := by
  rw [loginAfter_visit, oauthCallback, queryGet_eq, queryGet_eq]
  decide +kernel

theorem idTokenClaims_book (cl : NtcJwtClaims)
    (hcl : ntcJwtVerifyHs256 noVerifiers tokenAnn (lit "s3cret") 0 = some cl) :
    idTokenClaims noVerifiers bookConfig 0
      (lit "\x7b\"id_token\":\"" ++ tokenAnn ++ lit "\"\x7d") = some cl := by
  have hparse : (ntcJsonParse (lit "\x7b\"id_token\":\"" ++ tokenAnn ++ lit "\"\x7d")).map
      (fun root => ntcJsonStr (ntcJsonGet root (lit "id_token"))) = some tokenAnn := by
    decide +kernel
  obtain ⟨root, hroot, hidt⟩ := Option.map_eq_some_iff.mp hparse
  have hsecret : bookConfig.oauthClientSecret.bytes = lit "s3cret" := by decide
  have hne : tokenAnn ≠ [] ∧ bookConfig.oauthClientSecret.bytes ≠ [] := by
    rw [hsecret]
    decide
  rw [idTokenClaims, hroot]
  dsimp only
  rw [hidt, if_pos hne, hsecret, hcl]

/-- The row of the session of `ann`. -/
def annRow : SessionRow := ⟨List.replicate 48 48, lit "ann", [], 28800⟩

theorem signsIn_ann : SignsIn noVerifiers (loginAfter noVerifiers bookConfig [visitLogin 0])
    (.request callbackRequest false (bookAnswer 0)) annRow := by
  obtain ⟨body, hbody⟩ := Option.isSome_iff_exists.mp oauthCallback_visit
  have hcfg : (loginAfter noVerifiers bookConfig [visitLogin 0]).cfg = bookConfig := by
    rw [loginAfter_visit]
    rfl
  have hclaims := idTokenClaims_book _ ntcJwtVerifyHs256_ann
  refine ⟨callbackRequest, false, bookAnswer 0, body, _,
    ⟨.set 128 (lit "ann"), .empty 256, 0, 0⟩, rfl, rfl, rfl, ?_, rfl, ?_, by decide, by decide,
    by decide, by decide⟩
  · rw [hcfg]
    exact hbody
  · rw [hcfg]
    exact hclaims

/-- Someone else begins to log in, the sessions are swept, and someone without
    a session logs out. -/
def quietSteps : List LoginStep :=
  [visitLogin 1, .sweep 2 true, .request { path := lit "/auth/logout" } false (bookAnswer 3)]

theorem quietSteps_endNothing (l : Login) :
    ∀ e ∈ quietSteps, ¬ EndsSession noVerifiers l annRow e := by
  intro e he
  simp only [quietSteps, visitLogin, List.mem_cons, List.not_mem_nil, or_false] at he
  rintro (⟨req, tls, w, heq, hpath, -, hsid⟩ | ⟨now, heq, hexp⟩ | ⟨row, hin, -⟩)
  · obtain rfl | rfl | rfl := he
    · obtain ⟨rfl, -, -⟩ := LoginStep.request.inj heq
      exact absurd hpath (by decide)
    · cases heq
    · obtain ⟨rfl, -, -⟩ := LoginStep.request.inj heq
      exact absurd hsid (by decide)
  · obtain rfl | rfl | rfl := he
    · cases heq
    · obtain ⟨rfl, -⟩ := LoginStep.sweep.inj heq
      exact absurd hexp (by decide)
    · cases heq
  · obtain ⟨req, _, _, _, _, _, heq, hpath, -⟩ := hin
    obtain rfl | rfl | rfl := he
    · obtain ⟨rfl, -, -⟩ := LoginStep.request.inj heq
      exact absurd hpath (by decide)
    · cases heq
    · obtain ⟨rfl, -, -⟩ := LoginStep.request.inj heq
      exact absurd hpath (by decide)

/-- Ann's browser sends the cookie between two others, within the eight hours
    and at their end. -/
theorem signedIn_recognised_ann :
    SignsIn noVerifiers (loginAfter noVerifiers bookConfig [visitLogin 0])
        (.request callbackRequest false (bookAnswer 0)) annRow ∧
      ∃ cookie : Bytes, ∀ (req : NtcRequest) (now : Int), ntcHttpHeader req (lit "cookie") =
          lit "a=1; " ++ cookie.takeWhile (· != chSemicolon) ++ lit "; b=2" →
        sessionIdentity (loginAfter noVerifiers bookConfig ([visitLogin 0] ++
          .request callbackRequest false (bookAnswer 0) :: quietSteps)) req now true =
            if now < 28800 then some (.set 128 (lit "ann"), .set 256 []) else none := by
  refine ⟨signsIn_ann, ?_⟩
  obtain ⟨cookie, -, hsession⟩ := signedIn_recognised noVerifiers bookConfig [visitLogin 0]
    quietSteps callbackRequest false (bookAnswer 0) annRow signsIn_ann
    (fun b e a h => quietSteps_endNothing _ e (h ▸ List.mem_append_right b List.mem_cons_self))
  refine ⟨cookie, fun req now hreq => hsession req [lit "a=1"] (lit "; b=2") now ?_ ?_ ?_ ?_⟩
  · rw [hreq]
    rfl
  · refine ⟨fun c hc => ?_, .inr rfl⟩
    rw [List.mem_singleton.mp hc]
    exact ⟨by decide, by decide⟩
  · intro c hc
    rw [List.mem_singleton.mp hc]
    decide
  · decide

end Naitron
