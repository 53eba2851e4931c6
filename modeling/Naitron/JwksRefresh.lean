/-
  Naitron.JwksRefresh

  The life of the key set in `src/core/middleware.c`: read from a file or
  fetched when the middleware is created, fetched again when a token names a
  key the set does not have, at most once a minute.

  What a run fetches is a log of times and documents.  The spacing of the log
  and the key set after it are invariants of the run, whatever the requests
  and whatever the endpoint answers.
-/

import Naitron.JwtKeys
import Naitron.RateLimit

namespace Naitron

open Naitron.Lib

variable {F : Type} [CDouble F]

-- ============================================================================
-- Creating the middleware
-- ============================================================================

/-- `slurp_file`: `none` for -1.  A file that fills the buffer counts as one
    that is longer, as `fread` has not met its end. -/
def slurpFile (file : Option Bytes) (cap : Nat) : Option Bytes :=
  file.bind fun doc => if doc.length < cap - 1 then some doc else none

/-- What `ntc_mw_new` reads: `auth_jwks_file` and the file of that name,
    whether there are trust anchors, and the clock and the endpoint at the
    first fetch. -/
structure MwStart where
  authJwksFile : CStr 256
  file : Option Bytes
  ca : Bool
  world : MwWorld

/-- The document that a configured file holds. -/
def MwStart.fileDoc (s : MwStart) : Option Bytes :=
  (slurpFile s.file 16384).bind fun doc => if 0 < doc.length then some doc else none

/-- `ntc_mw_new`. -/
def ntcMwNew (J : JwtOps) (cfg : NtcMwConfig) (s : MwStart) : NtcMw F :=
  let m : NtcMw F :=
    { cfg, jwks := [], hasCa := false, jwksLastFetchMs := 0, buckets := fun _ => ⟨CDouble.ofInt 0, 0⟩ }
  if s.authJwksFile.bytes ≠ [] then { m with jwks := (s.fileDoc.bind J.jwksParse).getD [] }
  else if cfg.authJwksUrl.bytes ≠ [] then mwFetchJwks J s.world { m with hasCa := s.ca }
  else m

-- ============================================================================
-- What a call fetches
-- ============================================================================

section Fetches

variable (J : JwtOps)

/-- A fetch: its time and the document, `none` where the fetch failed. -/
abbrev Fetch := Int × Option Bytes

/-- The call comes to `mw_maybe_refresh`: the gate looks at a bearer token
    whose header names RS256 or ES256 and a key the set does not have. -/
def asksRefresh (m : NtcMw F) (c : MwCall) : Bool :=
  let a := ntcHttpHeader c.req (lit "authorization")
  !decide (isPreflight m.cfg c.req)
    && decide (m.cfg.authMode.bytes = lit "jwt") && !c.preAuthed && protectd m.cfg c.req.path
    && decide (7 < a.length ∧ a.take 7 = lit "Bearer ")
    && (J.peekHeader (a.drop 7)).any fun (alg, kid) =>
      decide (alg = lit "RS256" ∨ alg = lit "ES256")
        && (!m.cfg.authJwksUrl.bytes.isEmpty && (ntcJwksFind m.jwks kid alg).isNone)

/-- `mw_maybe_refresh` fetches. -/
def refreshDue (m : NtcMw F) (now : Int) : Bool :=
  !(m.cfg.authJwksUrl.bytes.isEmpty || !m.hasCa)
    && !decide (m.jwksLastFetchMs ≠ 0 ∧ now - m.jwksLastFetchMs < ntcJwksMinRefreshMs)

/-- The live fetch of a call, if it makes one. -/
def liveFetch (m : NtcMw F) (c : MwCall) : Option Fetch :=
  if asksRefresh J m c && refreshDue m c.world.monoMs then
    some (c.world.fetchedAt, c.world.fetched)
  else none

/-- The live fetches of a run. -/
def liveFetches : NtcMw F → List MwCall → List Fetch
  | _, [] => []
  | m, c :: calls => (liveFetch J m c).toList ++ liveFetches (mwStep J m c) calls

/-- The fetch of `ntc_mw_new`, if it makes one. -/
def startFetch (cfg : NtcMwConfig) (s : MwStart) : Option Fetch :=
  if s.authJwksFile.bytes = [] ∧ cfg.authJwksUrl.bytes ≠ [] ∧ s.ca = true then
    some (s.world.fetchedAt, s.world.fetched)
  else none

/-- The middleware after a fetch: a document that parses replaces the keys. -/
def afterFetch (m : NtcMw F) : Option Fetch → NtcMw F
  | none => m
  | some (t, doc) => { m with jwksLastFetchMs := t, jwks := (doc.bind J.jwksParse).getD m.jwks }

/-- Everything of the middleware but the buckets. -/
def keyState (m : NtcMw F) : NtcMwConfig × NtcJwks × Bool × Int :=
  (m.cfg, m.jwks, m.hasCa, m.jwksLastFetchMs)

variable {J}

omit [CDouble F] in
theorem mwFetchJwks_eq {w : MwWorld} {m : NtcMw F}
    (h : (m.cfg.authJwksUrl.bytes.isEmpty || !m.hasCa) = false) :
    mwFetchJwks J w m = afterFetch J m (some (w.fetchedAt, w.fetched)) := by
  rw [mwFetchJwks, h, if_neg Bool.false_ne_true, afterFetch]
  cases hparse : w.fetched.bind J.jwksParse with
  | none => rfl
  | some fresh => rfl

omit [CDouble F] in
theorem mwFetchJwks_off {w : MwWorld} {m : NtcMw F}
    (h : (m.cfg.authJwksUrl.bytes.isEmpty || !m.hasCa) = true) : mwFetchJwks J w m = m := by
  rw [mwFetchJwks, if_pos h]

omit [CDouble F] in
theorem mwMaybeRefresh_eq (w : MwWorld) (m : NtcMw F) :
    mwMaybeRefresh J w m
      = afterFetch J m (if refreshDue m w.monoMs then some (w.fetchedAt, w.fetched) else none) := by
  rw [mwMaybeRefresh, refreshDue]
  cases hoff : m.cfg.authJwksUrl.bytes.isEmpty || !m.hasCa with
  | true => rfl
  | false =>
      rw [if_neg Bool.false_ne_true, mwFetchJwks_eq hoff]
      by_cases hrecent : m.jwksLastFetchMs ≠ 0 ∧
          w.monoMs - m.jwksLastFetchMs < ntcJwksMinRefreshMs
      · rw [if_pos hrecent, decide_eq_true hrecent]
        rfl
      · rw [if_neg hrecent, decide_eq_false hrecent]
        rfl

omit [CDouble F] in
/-- The jwt branch changes the middleware by a refresh at most. -/
theorem checkJwt_snd (w : MwWorld) (m : NtcMw F) (tok : Bytes) :
    (checkJwt J w m tok).2
      = if (J.peekHeader tok).any fun (alg, kid) =>
            decide (alg = lit "RS256" ∨ alg = lit "ES256")
              && (!m.cfg.authJwksUrl.bytes.isEmpty && (ntcJwksFind m.jwks kid alg).isNone)
        then mwMaybeRefresh J w m else m := by
  rw [checkJwt]
  cases hpeek : J.peekHeader tok with
  | none => rfl
  | some header =>
      obtain ⟨alg, kid⟩ := header
      by_cases halg : alg = lit "RS256" ∨ alg = lit "ES256"
      · simp only [halg, if_true, Option.any_some, decide_true, Bool.true_and]
      · simp only [halg, if_false, Option.any_some, decide_false, Bool.false_and,
          Bool.false_eq_true]
        split_ifs <;> rfl

omit [CDouble F] in
/-- The gate changes the middleware by a refresh at most. -/
theorem mwAuth_snd (m : NtcMw F) (c : MwCall) (hpre : ¬ isPreflight m.cfg c.req) :
    (mwAuth J c.world m c.req c.preAuthed).2
      = if asksRefresh J m c then mwMaybeRefresh J c.world m else m := by
  rw [asksRefresh, decide_eq_false hpre]
  by_cases hmode : m.cfg.authMode.bytes = lit "jwt"
  · have hon : m.cfg.authMode.bytes ≠ [] ∧ m.cfg.authMode.bytes ≠ lit "none" := by
      rw [hmode]
      decide
    have hkey : ¬ m.cfg.authMode.bytes = lit "apikey" := by
      rw [hmode]
      decide
    rw [decide_eq_true hmode, mwAuth]
    cases hauthed : c.preAuthed with
    | true =>
        rw [if_neg fun h => Bool.noConfusion h.2.2]
        rfl
    | false =>
        rw [if_pos ⟨hon.1, hon.2, rfl⟩]
        cases hpath : protectd m.cfg c.req.path with
        | false => rfl
        | true =>
            rw [if_pos rfl, checkBearer]
            by_cases hbearer : 7 < (ntcHttpHeader c.req (lit "authorization")).length ∧
                (ntcHttpHeader c.req (lit "authorization")).take 7 = lit "Bearer "
            · rw [if_pos hbearer, decide_eq_true hbearer, if_neg hkey, if_pos hmode]
              have hsnd := checkJwt_snd (J := J) c.world m
                ((ntcHttpHeader c.req (lit "authorization")).drop 7)
              rcases hcheck : checkJwt J c.world m
                ((ntcHttpHeader c.req (lit "authorization")).drop 7) with ⟨_ | cl, m'⟩
              · rw [hcheck] at hsnd
                exact hsnd
              · rw [hcheck] at hsnd
                exact hsnd
            · rw [if_neg hbearer, decide_eq_false hbearer]
              rfl
  · rw [decide_eq_false hmode, Bool.and_false]
    simp only [Bool.false_and, Bool.false_eq_true, if_false]
    unfold mwAuth checkBearer
    split_ifs <;> rfl

theorem mwRateLimit_keys (m : NtcMw F) (ip : Bytes) (now : Int) :
    keyState (mwRateLimit m ip now).2 = keyState m := by
  rw [mwRateLimit]
  split_ifs <;> rfl

/-- A call changes the key state by its live fetch and by nothing else. -/
theorem mwStep_keys (m : NtcMw F) (c : MwCall) :
    keyState (mwStep J m c) = keyState (afterFetch J m (liveFetch J m c)) := by
  rw [mwStep, ntcMwBefore, liveFetch]
  by_cases hpre : isPreflight m.cfg c.req
  · have hno : asksRefresh J m c = false := by
      rw [asksRefresh, decide_eq_true hpre]
      rfl
    rw [if_pos hpre, hno]
    rfl
  · rw [if_neg hpre]
    have hsnd := mwAuth_snd (J := J) m c hpre
    have hafter : (if asksRefresh J m c then mwMaybeRefresh J c.world m else m)
        = afterFetch J m (if asksRefresh J m c && refreshDue m c.world.monoMs then
            some (c.world.fetchedAt, c.world.fetched) else none) := by
      cases asksRefresh J m c with
      | true => exact mwMaybeRefresh_eq c.world m
      | false => rfl
    rw [← hafter, ← hsnd]
    rcases mwAuth J c.world m c.req c.preAuthed with ⟨out, m'⟩
    have hlimit := mwRateLimit_keys m' c.clientIp c.nowMs
    rcases hres : mwRateLimit m' c.clientIp c.nowMs with ⟨denied, m''⟩
    rw [hres] at hlimit
    cases out <;> cases denied <;> simp_all

end Fetches

-- ============================================================================
-- Runs
-- ============================================================================

/-- What a fetch came to: the keys of its document, if it parsed. -/
def parsedDoc (doc : Option Bytes) : Option NtcJwks :=
  doc.bind ntcJwksParse

/-- The keys of the last document of a list that parsed, or none. -/
def lastParsed (docs : List (Option Bytes)) : NtcJwks :=
  ((docs.filterMap parsedDoc).getLast?).getD []

/-- The documents a middleware has come by when it is created. -/
def startDocs (cfg : NtcMwConfig) (s : MwStart) : List (Option Bytes) :=
  if s.authJwksFile.bytes ≠ [] then [s.fileDoc] else (startFetch cfg s).toList.map Prod.snd

/-- The readings of the monotonic clock, in the order they are taken. -/
def clockReadings (s : MwStart) (calls : List MwCall) : List Int :=
  s.world.fetchedAt :: calls.flatMap fun c => [c.world.monoMs, c.world.fetchedAt]

/-- Successive fetches are at least a minute apart. -/
def Spaced (log : List Fetch) : Prop :=
  (log.map Prod.fst).IsChain fun t t' => t + 60000 ≤ t'

/-- Reading one more document: its keys if it parses, else the keys as they
    were. -/
theorem lastParsed_concat (docs : List (Option Bytes)) (doc : Option Bytes) :
    lastParsed (docs ++ [doc]) = (parsedDoc doc).getD (lastParsed docs) := by
  rw [lastParsed, List.filterMap_append]
  cases h : parsedDoc doc with
  | none => rw [List.filterMap_cons_none h, List.filterMap_nil, List.append_nil]; rfl
  | some keys => rw [List.filterMap_cons_some h, List.filterMap_nil, List.getLast?_concat]; rfl

theorem Spaced.concat {log : List Fetch} {f : Fetch} (h : Spaced log)
    (hlast : ∀ t ∈ (log.map Prod.fst).getLast?, t + 60000 ≤ f.1) : Spaced (log ++ [f]) := by
  rw [Spaced, List.map_append, List.isChain_append]
  refine ⟨h, List.isChain_singleton _, fun t ht t' ht' => ?_⟩
  cases ht'
  exact hlast t ht

/-- The middleware behind a log of fetches and the documents it has read. -/
structure KeyInv (m : NtcMw F) (log : List Fetch) (docs : List (Option Bytes)) : Prop where
  keys : m.jwks = lastParsed docs
  stamp : m.jwksLastFetchMs = ((log.map Prod.fst).getLast?).getD 0
  spaced : Spaced log
  pos : ∀ t ∈ log.map Prod.fst, 0 < t

variable {X : JwtExt}

omit [CDouble F] in
/-- A fetch a minute after the last one keeps the log spaced and the keys
    those of the last document that parsed. -/
theorem KeyInv.fetch {m : NtcMw F} {log : List Fetch} {docs : List (Option Bytes)}
    (h : KeyInv m log docs) {f : Fetch} (hpos : 0 < f.1)
    (hdue : m.jwksLastFetchMs = 0 ∨ m.jwksLastFetchMs + 60000 ≤ f.1) :
    KeyInv (afterFetch (jwtOps X) m (some f)) (log ++ [f]) (docs ++ [f.2]) := by
  refine ⟨?_, ?_, h.spaced.concat ?_, ?_⟩
  · rw [lastParsed_concat, ← h.keys]
    rfl
  · rw [List.map_append, List.map_singleton, List.getLast?_concat]
    rfl
  · intro t ht
    have hlast := h.stamp
    rw [Option.mem_def.mp ht, Option.getD_some] at hlast
    have htpos := h.pos t (List.mem_of_getLast? ht)
    omega
  · intro t ht
    rw [List.map_append, List.map_singleton, List.mem_append, List.mem_singleton] at ht
    rcases ht with ht | rfl
    · exact h.pos t ht
    · exact hpos

omit [CDouble F] in
/-- What a live fetch implies about the clock. -/
theorem liveFetch_due {J : JwtOps} {m : NtcMw F} {c : MwCall} {f : Fetch}
    (h : liveFetch J m c = some f) (hclock : c.world.monoMs ≤ c.world.fetchedAt) :
    f.1 = c.world.fetchedAt ∧ (m.jwksLastFetchMs = 0 ∨ m.jwksLastFetchMs + 60000 ≤ f.1) := by
  rw [liveFetch] at h
  split_ifs at h with hdue
  cases h
  refine ⟨rfl, ?_⟩
  rw [Bool.and_eq_true, refreshDue, Bool.and_eq_true] at hdue
  have hold := of_decide_eq_false (Bool.not_eq_true' _ ▸ hdue.2.2)
  rw [ntcJwksMinRefreshMs] at hold
  show _ ∨ m.jwksLastFetchMs + 60000 ≤ c.world.fetchedAt
  omega

omit [CDouble F] in
theorem KeyInv.congr {m m' : NtcMw F} {log : List Fetch} {docs : List (Option Bytes)}
    (h : KeyInv m log docs) (heq : keyState m' = keyState m) : KeyInv m' log docs :=
  ⟨(congrArg (·.2.1) heq).trans h.keys, (congrArg (·.2.2.2) heq).trans h.stamp, h.spaced, h.pos⟩

/-- One call. -/
theorem KeyInv.step {m : NtcMw F} {log : List Fetch} {docs : List (Option Bytes)}
    (h : KeyInv m log docs) {c : MwCall} (hclock : c.world.monoMs ≤ c.world.fetchedAt)
    (hpos : 0 < c.world.fetchedAt) :
    KeyInv (mwStep (jwtOps X) m c) (log ++ (liveFetch (jwtOps X) m c).toList)
      (docs ++ (liveFetch (jwtOps X) m c).toList.map Prod.snd) := by
  apply KeyInv.congr _ (mwStep_keys m c)
  cases hfetch : liveFetch (jwtOps X) m c with
  | none =>
      rw [Option.toList_none, List.append_nil, List.map_nil, List.append_nil]
      exact h
  | some f =>
      obtain ⟨htime, hdue⟩ := liveFetch_due hfetch hclock
      exact h.fetch (htime ▸ hpos) hdue

/-- A whole run. -/
theorem KeyInv.run :
    ∀ (calls : List MwCall) {m : NtcMw F} {log : List Fetch} {docs : List (Option Bytes)},
      KeyInv m log docs →
      (∀ c ∈ calls, c.world.monoMs ≤ c.world.fetchedAt ∧ 0 < c.world.fetchedAt) →
      KeyInv (calls.foldl (mwStep (jwtOps X)) m) (log ++ liveFetches (jwtOps X) m calls)
        (docs ++ (liveFetches (jwtOps X) m calls).map Prod.snd) := by
  intro calls
  induction calls with
  | nil =>
      intro m log docs h _
      rw [liveFetches, List.append_nil, List.map_nil, List.append_nil]
      exact h
  | cons c calls ih =>
      intro m log docs h hclock
      obtain ⟨hmono, hpos⟩ := hclock c List.mem_cons_self
      have hrest := ih (h.step (X := X) hmono hpos)
        fun c' hc' => hclock c' (List.mem_cons_of_mem c hc')
      rw [List.append_assoc, List.append_assoc, ← List.map_append] at hrest
      exact hrest

/-- A new middleware has the keys of its file or of its first fetch. -/
theorem ntcMwNew_inv (cfg : NtcMwConfig) (s : MwStart) (hpos : 0 < s.world.fetchedAt) :
    KeyInv (ntcMwNew (jwtOps X) cfg s : NtcMw F) (startFetch cfg s).toList (startDocs cfg s) := by
  have hempty : ∀ m : NtcMw F, m.jwks = [] → m.jwksLastFetchMs = 0 → KeyInv m [] [] :=
    fun m hkeys hlast => ⟨hkeys, hlast, List.isChain_nil, fun t ht => absurd ht List.not_mem_nil⟩
  rw [ntcMwNew, startDocs]
  by_cases hfile : s.authJwksFile.bytes = []
  · rw [if_neg (not_not_intro hfile), if_neg (not_not_intro hfile)]
    by_cases hurl : cfg.authJwksUrl.bytes = []
    · rw [if_neg (not_not_intro hurl), startFetch, if_neg fun h => h.2.1 hurl]
      exact hempty _ rfl rfl
    · rw [if_pos hurl]
      cases hca : s.ca with
      | false =>
          have hoff : (cfg.authJwksUrl.bytes.isEmpty || !false) = true := Bool.or_true _
          rw [startFetch, if_neg fun h => Bool.noConfusion (hca.symm.trans h.2.2),
            mwFetchJwks_off hoff]
          exact hempty _ rfl rfl
      | true =>
          have hon : (cfg.authJwksUrl.bytes.isEmpty || !true) = false := by
            cases hbytes : cfg.authJwksUrl.bytes with
            | nil => exact absurd hbytes hurl
            | cons b bs => rfl
          rw [startFetch, if_pos ⟨hfile, hurl, hca⟩, mwFetchJwks_eq hon]
          exact (hempty _ rfl rfl).fetch hpos (Or.inl rfl)
  · rw [if_pos hfile, if_pos hfile, startFetch, if_neg fun h => hfile h.1]
    refine ⟨?_, rfl, List.isChain_nil, fun t ht => absurd ht List.not_mem_nil⟩
    show (s.fileDoc.bind ntcJwksParse).getD [] = lastParsed ([] ++ [s.fileDoc])
    rw [lastParsed_concat]
    rfl

/-- Whatever the requests and whatever the endpoint answers: all fetches, the
    one at the start included, are at least a minute apart, and the keys in
    use are those of the last document that parsed, of which there is at least
    one key, or none if no document did. -/
theorem jwks_refresh_bounded_atomic (X : JwtExt) (cfg : NtcMwConfig) (s : MwStart)
    (calls : List MwCall) (hmono : (clockReadings s calls).Pairwise (· ≤ ·))
    (hpos : ∀ t ∈ clockReadings s calls, 0 < t) :
    Spaced ((startFetch cfg s).toList
        ++ liveFetches (jwtOps X) (ntcMwNew (jwtOps X) cfg s : NtcMw F) calls) ∧
      (calls.foldl (mwStep (jwtOps X)) (ntcMwNew (jwtOps X) cfg s : NtcMw F)).jwks
        = lastParsed (startDocs cfg s
            ++ (liveFetches (jwtOps X) (ntcMwNew (jwtOps X) cfg s : NtcMw F) calls).map
              Prod.snd) := by
  have hclock : ∀ c ∈ calls, c.world.monoMs ≤ c.world.fetchedAt ∧ 0 < c.world.fetchedAt := by
    intro c hc
    obtain ⟨before, after, rfl⟩ := List.append_of_mem hc
    have hsub : [c.world.monoMs, c.world.fetchedAt].Sublist
        (clockReadings s (before ++ c :: after)) := by
      rw [clockReadings, List.flatMap_append, List.flatMap_cons]
      exact ((List.sublist_append_left _ _).trans (List.sublist_append_right _ _)).cons _
    have hpair := hmono.sublist hsub
    exact ⟨List.rel_of_pairwise_cons hpair (List.mem_singleton_self _),
      hpos _ (hsub.subset (List.mem_cons_of_mem _ (List.mem_singleton_self _)))⟩
  have hinv := (ntcMwNew_inv (F := F) (X := X) cfg s (hpos _ List.mem_cons_self)).run (X := X)
    calls hclock
  exact ⟨hinv.spaced, hinv.keys⟩

/-- A gate that takes its keys from a URL. -/
def urlCfg : NtcMwConfig :=
  { authMode := .set 16 (lit "jwt"), authJwksUrl := .set 256 (lit "https://idp/jwks") }

/-- A start at which the endpoint does not answer. -/
def failedStart : MwStart where
  authJwksFile := .empty 256
  file := none
  ca := true
  world := { mwWorldZero with fetchedAt := 1 }

/-- A request with a token for the key `k1`, while the endpoint has a set. -/
def k1Call (now : Int) : MwCall where
  world := { mwWorldZero with monoMs := now, fetchedAt := now, fetched := some k1Json }
  req :=
    { method := lit "GET", path := lit "/"
      headers := [⟨lit "authorization", lit "Bearer " ++ esToken "k1"⟩] }
  clientIp := lit "10.0.0.1"
  nowMs := now
  preAuthed := false

/-- Three tokens for `k1`: too early for a fetch, fetching, and known. -/
theorem jwks_refresh_bounded_atomic_k1 :
    Spaced [(1, none), (70000, some k1Json)] ∧
      ([k1Call 500, k1Call 70000, k1Call 140000].foldl (mwStep (jwtOps acceptAll))
        (ntcMwNew (jwtOps acceptAll) urlCfg failedStart : NtcMw ℚ)).jwks = [k1Key] := by
  have hlog : liveFetches (jwtOps acceptAll)
      (ntcMwNew (jwtOps acceptAll) urlCfg failedStart : NtcMw ℚ)
      [k1Call 500, k1Call 70000, k1Call 140000] = [(70000, some k1Json)] := by
    decide +kernel
  have hstart : startFetch urlCfg failedStart = some (1, none) := by decide
  have hbound := jwks_refresh_bounded_atomic (F := ℚ) acceptAll urlCfg failedStart
    [k1Call 500, k1Call 70000, k1Call 140000] (by decide) (by decide)
  rw [hlog, hstart] at hbound
  refine ⟨hbound.1, hbound.2.trans ?_⟩
  decide +kernel

end Naitron
