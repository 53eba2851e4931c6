/-
  Naitron.Server.LoginPending

  The pending logins over a run: a token request spends the login that opened
  its state, carries the verifier of that login, and no second request does.
-/

import Naitron.Base64
import Naitron.Server.Login

namespace Naitron

open Naitron.Lib

variable {X : JwtExt} {l : Login}

-- ============================================================================
-- Opening and spending a state
-- ============================================================================

/-- A login page that opens `state` for a verifier. -/
def OpensState (e : LoginStep) (state verifier : Bytes) (now : Int) : Prop :=
  ∃ req tls w, e = .request req tls w ∧ req.path = lit "/auth/login" ∧ w.now = now ∧
    ntcRandomToken 40 w.state = some state ∧ ntcPkceVerifier 64 w.verifier = some verifier

/-- A parameter of a callback, decoded. -/
def callbackParam (query : Bytes) (key : String) (cap : Nat) : Bytes :=
  urlDecode ((queryGet query (lit key) cap).getD [])

/-- A callback that posts a token request for the code it was given. -/
def SpendsState (l : Login) (e : LoginStep) (state code body : Bytes) (now : Int) : Prop :=
  ∃ req tls w, e = .request req tls w ∧ req.path = lit "/auth/callback" ∧ w.now = now ∧
    callbackParam req.query "state" 64 = state ∧ callbackParam req.query "code" 512 = code ∧
    (oauthCallback l.cfg.toOauthConfig l.pending w.now req.query).1 = some body

/-- The step opens the state again, spends it, or forgets all of them. -/
def Touches (l : Login) (state : Bytes) (e : LoginStep) : Prop :=
  (∃ verifier now, OpensState e state verifier now) ∨
    (∃ code body now, SpendsState l e state code body now) ∨ ∃ cfg, e = .restart cfg

-- ============================================================================
-- Tokens
-- ============================================================================

/-- A state as a key of the store. -/
theorem ntcRandomToken_key {random : Option (RandomBytes 16)} {state : Bytes}
    (h : ntcRandomToken 40 random = some state) : ∃ key : CStr 96, key.bytes = state := by
  obtain ⟨hlen, -, hdigits⟩ := ntcRandomToken_some h
  exact ⟨⟨state, by omega, fun hnul => absurd (hdigits 0 hnul) (by decide)⟩, rfl⟩

theorem zero_notMem_base64url (s : Bytes) : 0 ∉ base64url s := by
  have halphabet : 0 ∉ b64u := by decide
  exact fun h => halphabet (base64url_mem s 0 h)

theorem ntcPkceVerifier_some {random : Option (RandomBytes 32)} {verifier : Bytes}
    (h : ntcPkceVerifier 64 random = some verifier) :
    verifier.length = 43 ∧ 0 ∉ verifier := by
  rw [ntcPkceVerifier, if_neg (by omega)] at h
  obtain ⟨⟨b, hb⟩, _, hfilter⟩ := Option.bind_eq_some_iff.mp h
  obtain ⟨hencode, -⟩ := Option.filter_eq_some_iff.mp hfilter
  have hlen := base64url_length_32 hb
  rw [ntcBase64urlEncode, if_pos (by rw [hlen]; omega)] at hencode
  obtain rfl := Option.some.inj hencode
  exact ⟨hlen, zero_notMem_base64url b⟩

-- ============================================================================
-- What a step does to the pending logins
-- ============================================================================

theorem oauthLogin_pending (w : LoginAnswer) :
    (∃ state verifier, ntcRandomToken 40 w.state = some state ∧
      ntcPkceVerifier 64 w.verifier = some verifier ∧
      (oauthLogin w l).2.pending = ntcKvPut l.pending state verifier (w.now + 600)) ∨
    (oauthLogin w l).2.pending = l.pending ∧
      (ntcRandomToken 40 w.state = none ∨ ntcPkceVerifier 64 w.verifier = none) := by
  rw [oauthLogin]
  cases hstate : ntcRandomToken 40 w.state with
  | none => exact .inr ⟨rfl, .inl rfl⟩
  | some state =>
      cases hverifier : ntcPkceVerifier 64 w.verifier with
      | none => exact .inr ⟨rfl, .inr rfl⟩
      | some verifier =>
          refine .inl ⟨state, verifier, rfl, rfl, ?_⟩
          dsimp only
          rw [ntcPkceChallenge_eq]

theorem oauthCallbackPage_pending (tls : Bool) (w : LoginAnswer) (query : Bytes) :
    (oauthCallbackPage X tls w l query).2.pending =
      (oauthCallback l.cfg.toOauthConfig l.pending w.now query).2 := by
  rw [oauthCallbackPage]
  obtain ⟨body, pending⟩ := oauthCallback l.cfg.toOauthConfig l.pending w.now query
  cases body with
  | none => rfl
  | some body =>
      dsimp only
      cases w.post body with
      | none => rfl
      | some resp =>
          dsimp only
          cases idTokenClaims X l.cfg w.now resp with
          | none => rfl
          | some cl =>
              dsimp only
              cases ntcRandomToken 80 w.sid with
              | none => rfl
              | some sid => rfl

variable {cap : Nat}

/-- A callback finds the verifier of its state and takes it out, or posts
    nothing and puts nothing in. -/
theorem oauthCallback_pending (cfg : OauthConfig) {pending : NtcKvstore cap}
    (hpending : KvDistinct pending) {now : Int} (hnow : 0 < now) (query : Bytes) :
    KvDistinct (oauthCallback cfg pending now query).2 ∧
    (∀ k p, kvHeld (oauthCallback cfg pending now query).2 k = some p →
      kvHeld pending k = some p ∧ ∀ body, (oauthCallback cfg pending now query).1 = some body →
        callbackParam query "state" 64 ≠ k) ∧
    ∀ body, (oauthCallback cfg pending now query).1 = some body →
      ∃ verifier x, kvHeld pending (callbackParam query "state" 64) = some (verifier, x) ∧
        now < x ∧ body = oauthBody cfg (callbackParam query "code" 512) (clip 64 verifier) := by
  rw [oauthCallback, callbackParam, callbackParam]
  generalize urlDecode ((queryGet query (lit "code") 512).getD []) = code
  generalize urlDecode ((queryGet query (lit "state") 64).getD []) = state
  by_cases hempty : code = [] ∨ state = []
  · rw [if_pos hempty]
    refine ⟨hpending, fun k p hp => ⟨hp, ?_⟩, ?_⟩
    · exact fun body hbody => absurd hbody.symm (Option.some_ne_none body)
    · exact fun body hbody => absurd hbody.symm (Option.some_ne_none body)
  rw [if_neg hempty]
  obtain ⟨hanswer, hdistinct, hheld⟩ := ntcKvGet_spec hpending state now 64
  generalize hget : ntcKvGet pending state now 64 = got at hanswer hdistinct hheld
  obtain ⟨found, pending'⟩ := got
  cases found with
  | none =>
      refine ⟨hdistinct, fun k p hp => ⟨?_, ?_⟩, ?_⟩
      · rw [hheld k] at hp
        split_ifs at hp
        exact hp
      · exact fun body hbody => absurd hbody.symm (Option.some_ne_none body)
      · exact fun body hbody => absurd hbody.symm (Option.some_ne_none body)
  | some verifier =>
      obtain ⟨⟨v, x⟩, hv, hlive⟩ := Option.bind_eq_some_iff.mp hanswer.symm
      split_ifs at hlive with hexpired
      have hsame : pending' = pending := by
        rw [ntcKvGet] at hget
        split at hget
        · exact absurd (congrArg Prod.fst hget).symm (Option.some_ne_none _)
        · split_ifs at hget with hexp
          · exact absurd (congrArg Prod.fst hget).symm (Option.some_ne_none _)
          · exact (congrArg Prod.snd hget).symm
      obtain ⟨hdel, hheldDel⟩ := kvHeld_del (hsame ▸ hpending) state
      refine ⟨hdel, fun k p hp => ?_, fun body hbody => ⟨v, x, hv, by omega, ?_⟩⟩
      · rw [hheldDel k, hsame] at hp
        split_ifs at hp with hk
        exact ⟨hp, fun _ _ => hk⟩
      · rw [← Option.some.inj hbody, Option.some.inj hlive]

theorem kvHeld_new (k : Bytes) : kvHeld (ntcKvNew 1024 : NtcKvstore 1024) k = none := by
  rw [kvHeld, contents_eq_none_iff.mpr fun i h => ?_, Option.map_none]
  exact Option.some_ne_none k h.symm

theorem kvDistinct_new : KvDistinct (ntcKvNew 1024 : NtcKvstore 1024) :=
  fun _ _ k h => absurd h.symm (Option.some_ne_none k)

theorem opensState_unique {e : LoginStep} {s s' v v' : Bytes} {t t' : Int} (h : OpensState e s v t)
    (h' : OpensState e s' v' t') : s = s' ∧ v = v' ∧ t = t' := by
  obtain ⟨req, tls, w, rfl, -, rfl, hs, hv⟩ := h
  obtain ⟨_, _, _, heq, -, rfl, hs', hv'⟩ := h'
  obtain ⟨rfl, rfl, rfl⟩ := LoginStep.request.inj heq
  exact ⟨Option.some.inj (hs.symm.trans hs'), Option.some.inj (hv.symm.trans hv'), rfl⟩

/-- What is pending after a step: opened by it, or pending before it and not
    touched. -/
theorem loginStep_pending (hl : KvDistinct l.pending) (e : LoginStep)
    (hnow : ∀ req tls w, e = .request req tls w → 0 < w.now) :
    KvDistinct (loginStep X l e).pending ∧
    ∀ k v x, kvHeld (loginStep X l e).pending k = some (v, x) →
      (∃ now, OpensState e k v now ∧ x = now + 600) ∨
        (kvHeld l.pending k = some (v, x) ∧ ¬ Touches l k e) := by
  cases e with
  | restart cfg =>
      refine ⟨kvDistinct_new, fun k v x h => ?_⟩
      rw [show (loginStep X l (.restart cfg)).pending = ntcKvNew 1024 from rfl, kvHeld_new] at h
      cases h
  | sweep now sqlOk =>
      refine ⟨hl, fun k v x h => .inr ⟨h, ?_⟩⟩
      rintro (⟨_, _, _, _, _, heq, -⟩ | ⟨_, _, _, _, _, _, heq, -⟩ | ⟨_, heq⟩)
      · cases heq
      · cases heq
      · cases heq
  | request req tls w =>
      have hpos := hnow req tls w rfl
      have hlogin_ne : lit "/auth/login" ≠ lit "/auth/callback" := by decide
      rw [loginStep, handleOauth]
      by_cases hlogin : req.path = lit "/auth/login"
      · rw [if_pos hlogin]
        have hspends : ∀ k code body now,
            ¬ SpendsState l (.request req tls w) k code body now := by
          rintro k code body now ⟨_, _, _, heq, hpath, -⟩
          obtain ⟨rfl, -, -⟩ := LoginStep.request.inj heq
          exact hlogin_ne (hlogin.symm.trans hpath)
        obtain ⟨state, verifier, hstate, hverifier, hput⟩ | ⟨hsame, hfail⟩ :=
          oauthLogin_pending (l := l) w
        · have hopen : OpensState (.request req tls w) state verifier w.now :=
            ⟨req, tls, w, rfl, hlogin, rfl, hstate, hverifier⟩
          obtain ⟨key, rfl⟩ := ntcRandomToken_key hstate
          obtain ⟨hlen, hnul⟩ := ntcPkceVerifier_some hverifier
          obtain ⟨hdistinct, i, hheld, -⟩ := ntcKvPut_spec hl (by omega) key
            ⟨verifier, by omega, hnul⟩ (show 0 < w.now + 600 by omega)
          rw [hput]
          refine ⟨hdistinct, fun k v x h => ?_⟩
          rw [hheld k] at h
          split_ifs at h with hk hi
          · obtain ⟨rfl, rfl⟩ := Prod.mk.inj (Option.some.inj h)
            exact .inl ⟨w.now, hk ▸ hopen, rfl⟩
          · refine .inr ⟨h, ?_⟩
            rintro (⟨v', t', hopen'⟩ | ⟨code, body, t', hspend⟩ | ⟨_, heq⟩)
            · exact hk (opensState_unique hopen hopen').1
            · exact hspends k code body t' hspend
            · cases heq
        · rw [hsame]
          refine ⟨hl, fun k v x h => .inr ⟨h, ?_⟩⟩
          rintro (⟨v', t', _, _, _, heq, -, -, hs, hv⟩ | ⟨code, body, t', hspend⟩ | ⟨_, heq⟩)
          · obtain ⟨rfl, rfl, rfl⟩ := LoginStep.request.inj heq
            obtain hnone | hnone := hfail
            · exact Option.some_ne_none k (hs.symm.trans hnone)
            · exact Option.some_ne_none v' (hv.symm.trans hnone)
          · exact hspends k code body t' hspend
          · cases heq
      · rw [if_neg hlogin]
        have hopens : ∀ k v t, ¬ OpensState (.request req tls w) k v t := by
          rintro k v t ⟨_, _, _, heq, hpath, -⟩
          obtain ⟨rfl, -, -⟩ := LoginStep.request.inj heq
          exact hlogin hpath
        by_cases hcallback : req.path = lit "/auth/callback"
        · rw [if_pos hcallback, oauthCallbackPage_pending]
          obtain ⟨hdistinct, hheld, -⟩ :=
            oauthCallback_pending l.cfg.toOauthConfig hl hpos req.query
          refine ⟨hdistinct, fun k v x h => ?_⟩
          obtain ⟨hbefore, hother⟩ := hheld k (v, x) h
          refine .inr ⟨hbefore, ?_⟩
          rintro (⟨v', t', hopen⟩ | ⟨code, body, t', _, _, _, heq, -, -, hs, -, hbody⟩ | ⟨_, heq⟩)
          · exact hopens k v' t' hopen
          · obtain ⟨rfl, rfl, rfl⟩ := LoginStep.request.inj heq
            exact hother body hbody hs
          · cases heq
        · have hsame : (if req.path = lit "/auth/callback" then
                oauthCallbackPage X tls w l req.query
              else if req.path = lit "/auth/logout" then oauthLogout tls w l req
              else (errorPage 404 "not found", l)).2.pending = l.pending := by
            rw [if_neg hcallback]
            split_ifs
            · rw [oauthLogout]
              cases sessionCookie req with
              | none => rfl
              | some sid => rfl
            · rfl
          rw [hsame]
          refine ⟨hl, fun k v x h => .inr ⟨h, ?_⟩⟩
          rintro (⟨v', t', hopen⟩ | ⟨code, body, t', _, _, _, heq, hpath, -⟩ | ⟨_, heq⟩)
          · exact hopens k v' t' hopen
          · obtain ⟨rfl, -, -⟩ := LoginStep.request.inj heq
            exact hcallback hpath
          · cases heq

-- ============================================================================
-- The run
-- ============================================================================

/-- What is pending after a run was opened in it, and not touched since. -/
theorem loginAfter_pending (X : JwtExt) (cfg : LoginConfig) (run : List LoginStep)
    (hnow : ∀ req tls w, .request req tls w ∈ run → 0 < w.now) :
    KvDistinct (loginAfter X cfg run).pending ∧
    ∀ k v x, kvHeld (loginAfter X cfg run).pending k = some (v, x) →
      ∃ before e after now, run = before ++ e :: after ∧ OpensState e k v now ∧ x = now + 600 ∧
        ∀ b e' a, after = b ++ e' :: a → ¬ Touches (loginAfter X cfg (before ++ e :: b)) k e' := by
  induction run using List.reverseRecOn with
  | nil =>
      refine ⟨kvDistinct_new, fun k v x h => ?_⟩
      rw [show (loginAfter X cfg []).pending = ntcKvNew 1024 from rfl, kvHeld_new] at h
      cases h
  | append_singleton run e ih =>
      obtain ⟨hdistinct, hopened⟩ := ih fun req tls w h => hnow req tls w (List.mem_append_left _ h)
      obtain ⟨hdistinct', hstep⟩ := loginStep_pending (X := X) hdistinct e
        fun req tls w h => hnow req tls w (by rw [← h]; simp)
      have hlast : loginAfter X cfg (run ++ [e]) = loginStep X (loginAfter X cfg run) e :=
        List.foldl_concat _ _ _ _
      rw [hlast]
      refine ⟨hdistinct', fun k v x h => ?_⟩
      obtain ⟨now, hopen, hx⟩ | ⟨hheld, huntouched⟩ := hstep k v x h
      · refine ⟨run, e, [], now, rfl, hopen, hx, fun b e' a heq => ?_⟩
        exact absurd heq.symm (List.append_ne_nil_of_right_ne_nil b (List.cons_ne_nil e' a))
      · obtain ⟨before, o, after, now, rfl, hopen, hx, hkept⟩ := hopened k v x hheld
        refine ⟨before, o, after ++ [e], now, by simp, hopen, hx, fun b e' a heq => ?_⟩
        rcases List.eq_nil_or_concat a with rfl | ⟨init, last, rfl⟩
        · obtain ⟨rfl, he⟩ := List.append_inj' heq rfl
          rw [← List.singleton_inj.mp he]
          exact huntouched
        · rw [List.concat_eq_append, ← List.cons_append, ← List.append_assoc] at heq
          exact hkept b e' init (List.append_inj_left' heq rfl)

/-- A token request is posted for a state that a login opened less than ten
    minutes before and that nothing has touched since: it spends that login,
    and carries its verifier. -/
theorem spendsState_login (X : JwtExt) (cfg : LoginConfig) (run : List LoginStep) (e : LoginStep)
    (hnow : ∀ req tls w, .request req tls w ∈ run ++ [e] → 0 < w.now)
    {state code body : Bytes} {now : Int}
    (h : SpendsState (loginAfter X cfg run) e state code body now) :
    ∃ before o after verifier t, run = before ++ o :: after ∧ OpensState o state verifier t ∧
      now < t + 600 ∧
      body = oauthBody (loginAfter X cfg run).cfg.toOauthConfig code verifier ∧
      ∀ b e' a, after = b ++ e' :: a →
        ¬ Touches (loginAfter X cfg (before ++ o :: b)) state e' := by
  obtain ⟨hdistinct, hopened⟩ := loginAfter_pending X cfg run
    fun req tls w h => hnow req tls w (List.mem_append_left _ h)
  obtain ⟨req, tls, w, rfl, -, rfl, rfl, rfl, hbody⟩ := h
  have hpos : 0 < w.now := hnow req tls w (List.mem_append_right run (List.mem_singleton_self _))
  obtain ⟨-, -, hfound⟩ := oauthCallback_pending (loginAfter X cfg run).cfg.toOauthConfig hdistinct
    hpos req.query
  obtain ⟨verifier, x, hheld, hlive, rfl⟩ := hfound body hbody
  obtain ⟨before, o, after, t, rfl, hopen, rfl, hkept⟩ := hopened _ verifier x hheld
  obtain ⟨_, _, _, _, _, _, _, hverifier⟩ := id hopen
  obtain ⟨hlen, hnul⟩ := ntcPkceVerifier_some hverifier
  refine ⟨before, o, after, verifier, t, rfl, hopen, hlive, ?_, hkept⟩
  rw [clip_of_fits hnul (by omega)]

theorem oauthCallback_visit_later :
    ((oauthCallback bookConfig.toOauthConfig
      (loginAfter noVerifiers bookConfig [visitLogin 1]).pending 2 callbackRequest.query).1).isSome
        = true := by
  rw [loginAfter_visit, oauthCallback, queryGet_eq, queryGet_eq]
  decide +kernel

/-- A login by the book is spent by its callback. -/
theorem spendsState_login_visit :
    ∃ body, SpendsState (loginAfter noVerifiers bookConfig [visitLogin 1])
        (.request callbackRequest false (bookAnswer 2)) bookState (lit "c") body 2 ∧
      ∃ before o after verifier t, [visitLogin 1] = before ++ o :: after ∧
        OpensState o bookState verifier t ∧ 2 < t + 600 ∧
        body = oauthBody (loginAfter noVerifiers bookConfig [visitLogin 1]).cfg.toOauthConfig
          (lit "c") verifier ∧
        ∀ b e' a, after = b ++ e' :: a →
          ¬ Touches (loginAfter noVerifiers bookConfig (before ++ o :: b)) bookState e' := by
  obtain ⟨body, hbody⟩ := Option.isSome_iff_exists.mp oauthCallback_visit_later
  have hcfg : (loginAfter noVerifiers bookConfig [visitLogin 1]).cfg = bookConfig := by
    rw [loginAfter_visit]
    rfl
  have hstate : callbackParam callbackRequest.query "state" 64 = bookState := by
    rw [callbackParam, queryGet_eq]
    decide +kernel
  have hcode : callbackParam callbackRequest.query "code" 512 = lit "c" := by
    rw [callbackParam, queryGet_eq]
    decide +kernel
  have hspends : SpendsState (loginAfter noVerifiers bookConfig [visitLogin 1])
      (.request callbackRequest false (bookAnswer 2)) bookState (lit "c") body 2 := by
    refine ⟨callbackRequest, false, bookAnswer 2, rfl, rfl, rfl, hstate, hcode, ?_⟩
    rw [hcfg]
    exact hbody
  refine ⟨body, hspends, spendsState_login noVerifiers bookConfig [visitLogin 1] _ ?_ hspends⟩
  intro req tls w h
  rw [List.mem_append, List.mem_singleton, List.mem_singleton] at h
  obtain h | h := h
  · obtain ⟨-, -, rfl⟩ := LoginStep.request.inj h
    decide
  · obtain ⟨-, -, rfl⟩ := LoginStep.request.inj h
    decide

-- ============================================================================
-- A login stays open
-- ============================================================================

/-- The state a step opens at `t` or later. -/
def openedSince (t : Int) : LoginStep → Option Bytes
  | .request req _ w =>
      if req.path = lit "/auth/login" ∧ t ≤ w.now then
        (ntcPkceVerifier 64 w.verifier).bind fun _ => ntcRandomToken 40 w.state
      else none
  | _ => none

theorem openedSince_of_opensState {e : LoginStep} {state verifier : Bytes} {t now : Int}
    (h : OpensState e state verifier now) (ht : t ≤ now) : openedSince t e = some state := by
  obtain ⟨req, tls, w, rfl, hpath, rfl, hstate, hverifier⟩ := h
  rw [openedSince, if_pos ⟨hpath, ht⟩, hverifier, Option.bind_some, hstate]

/-- A login that is opened is pending. -/
theorem opensState_held (hl : KvDistinct l.pending) {e : LoginStep} {state verifier : Bytes}
    {t : Int} (h : OpensState e state verifier t) (ht : 0 < t) :
    kvHeld (loginStep X l e).pending state = some (verifier, t + 600) := by
  obtain ⟨req, tls, w, rfl, hpath, rfl, hstate, hverifier⟩ := h
  obtain ⟨hlen, hnul⟩ := ntcPkceVerifier_some hverifier
  rw [loginStep, handleOauth, if_pos hpath]
  obtain ⟨state', verifier', hstate', hverifier', hput⟩ | ⟨-, hfail⟩ :=
    oauthLogin_pending (l := l) w
  · obtain rfl := Option.some.inj (hstate.symm.trans hstate')
    obtain rfl := Option.some.inj (hverifier.symm.trans hverifier')
    obtain ⟨key, rfl⟩ := ntcRandomToken_key hstate
    obtain ⟨-, i, hheld, -⟩ := ntcKvPut_spec hl (by omega) key ⟨verifier, by omega, hnul⟩
      (show 0 < w.now + 600 by omega)
    rw [hput]
    have hself := hheld key.bytes
    rwa [if_pos rfl] at hself
  · obtain hnone | hnone := hfail
    · exact absurd (hstate.symm.trans hnone) (Option.some_ne_none state)
    · exact absurd (hverifier.symm.trans hnone) (Option.some_ne_none verifier)

/-- A callback leaves a login alone whose state it does not spend and whose
    time is not over. -/
theorem oauthCallback_kept (cfg : OauthConfig) {pending : NtcKvstore cap}
    (hpending : KvDistinct pending) {now : Int} (query : Bytes) {k v : Bytes} {x : Int}
    (hheld : kvHeld pending k = some (v, x)) (hlive : now < x)
    (hother : ∀ body, (oauthCallback cfg pending now query).1 = some body →
      callbackParam query "state" 64 ≠ k) :
    kvHeld (oauthCallback cfg pending now query).2 k = some (v, x) := by
  rw [callbackParam] at hother
  rw [oauthCallback] at hother ⊢
  generalize urlDecode ((queryGet query (lit "code") 512).getD []) = code at hother ⊢
  generalize urlDecode ((queryGet query (lit "state") 64).getD []) = state at hother ⊢
  by_cases hempty : code = [] ∨ state = []
  · rw [if_pos hempty]
    exact hheld
  rw [if_neg hempty] at hother ⊢
  obtain ⟨hanswer, -, hafter⟩ := ntcKvGet_spec hpending state now 64
  -- a lookup of the state itself would have found it
  have hfound : state = k → (ntcKvGet pending state now 64).1 = some (clip 64 v) := by
    rintro rfl
    rw [hanswer, hheld, Option.bind_some, if_neg (by omega)]
  have hget : kvHeld (ntcKvGet pending state now 64).2 k = some (v, x) := by
    rw [hafter k]
    split_ifs with h
    · obtain ⟨hexp, rfl⟩ := h
      cases hfind : kvFind pending state with
      | none =>
          rw [hfind] at hexp
          cases hexp
      | some i =>
          rw [hfind, Option.any_some] at hexp
          rw [kvHeld_eq_some_iff hpending (slotOf_some hfind)] at hheld
          have hx : (pending.e i).expiry = x := (Prod.mk.inj (Option.some.inj hheld)).2
          have hle := (of_decide_eq_true hexp).2
          omega
    · exact hheld
  obtain ⟨found, pending', hcase⟩ : ∃ found pending', ntcKvGet pending state now 64 =
      (found, pending') := ⟨_, _, rfl⟩
  rw [hcase] at hget hfound hother ⊢
  cases found with
  | none => exact hget
  | some verifier =>
      have hne := hother _ rfl
      have hdistinct : KvDistinct pending' := by
        have hd := (ntcKvGet_spec hpending state now 64).2.1
        rwa [hcase] at hd
      rw [(kvHeld_del hdistinct state).2 k, if_neg hne]
      exact hget

/-- A step that does not touch a login leaves it pending, or opens another
    while the store is full of logins that are not older. -/
theorem loginStep_pending_kept (hl : KvDistinct l.pending) (e : LoginStep) {k v : Bytes} {x : Int}
    (hheld : kvHeld l.pending k = some (v, x)) (huntouched : ¬ Touches l k e)
    (hnow : ∀ req tls w, e = .request req tls w → 0 < w.now ∧ w.now < x) :
    kvHeld (loginStep X l e).pending k = some (v, x) ∨
      (∃ state verifier now, OpensState e state verifier now) ∧
        ∀ j, (l.pending.e j).expiry ≠ 0 ∧ x ≤ (l.pending.e j).expiry := by
  cases e with
  | restart cfg => exact absurd (.inr (.inr ⟨cfg, rfl⟩)) huntouched
  | sweep now sqlOk => exact .inl hheld
  | request req tls w =>
      obtain ⟨hpos, hlive⟩ := hnow req tls w rfl
      rw [loginStep, handleOauth]
      by_cases hlogin : req.path = lit "/auth/login"
      · rw [if_pos hlogin]
        obtain ⟨state, verifier, hstate, hverifier, hput⟩ | ⟨hsame, -⟩ :=
          oauthLogin_pending (l := l) w
        · have hopen : OpensState (.request req tls w) state verifier w.now :=
            ⟨req, tls, w, rfl, hlogin, rfl, hstate, hverifier⟩
          obtain ⟨key, rfl⟩ := ntcRandomToken_key hstate
          obtain ⟨hlen, hnul⟩ := ntcPkceVerifier_some hverifier
          obtain ⟨-, i, hafter, hi⟩ := ntcKvPut_spec hl (by omega) key
            ⟨verifier, by omega, hnul⟩ (show 0 < w.now + 600 by omega)
          have hk : key.bytes ≠ k := by
            rintro rfl
            exact huntouched (.inl ⟨verifier, w.now, hopen⟩)
          have hafterk := hafter k
          rw [if_neg hk] at hafterk
          rw [hput, hafterk]
          by_cases hevicted : (l.pending.e i).occupiedKey = some k
          · -- the slot of the login itself was written: the store was full
            right
            refine ⟨⟨key.bytes, verifier, w.now, hopen⟩, ?_⟩
            rw [kvHeld_eq_some_iff hl hevicted] at hheld
            have hx : (l.pending.e i).expiry = x := (Prod.mk.inj (Option.some.inj hheld)).2
            obtain hown | hempty | ⟨-, hfull, hleast⟩ := hi
            · exact absurd (Option.some.inj (hown.symm.trans hevicted)) hk
            · exact absurd (hevicted.symm.trans hempty) (Option.some_ne_none k)
            · exact fun j => ⟨hfull j, hx ▸ hleast j⟩
          · rw [if_neg hevicted]
            exact .inl hheld
        · rw [hsame]
          exact .inl hheld
      · rw [if_neg hlogin]
        by_cases hcallback : req.path = lit "/auth/callback"
        · rw [if_pos hcallback, oauthCallbackPage_pending]
          refine .inl (oauthCallback_kept _ hl req.query hheld hlive fun body hbody hstate => ?_)
          exact huntouched (.inr (.inl ⟨_, body, w.now, req, tls, w, rfl, hcallback, rfl, hstate,
            rfl, hbody⟩))
        · rw [if_neg hcallback]
          split_ifs
          · rw [oauthLogout]
            cases sessionCookie req with
            | none => exact .inl hheld
            | some sid => exact .inl hheld
          · exact .inl hheld

/-- A store full of logins that were opened at `t` or later. -/
theorem length_openedSince {cfg : LoginConfig} {run : List LoginStep} {t : Int}
    (hnow : ∀ req tls w, .request req tls w ∈ run → 0 < w.now)
    (hfull : ∀ j, ((loginAfter X cfg run).pending.e j).expiry ≠ 0 ∧
      t + 600 ≤ ((loginAfter X cfg run).pending.e j).expiry) :
    1024 ≤ (run.filterMap (openedSince t)).length := by
  obtain ⟨hdistinct, hopened⟩ := loginAfter_pending X cfg run hnow
  have hkey : ∀ j, ((loginAfter X cfg run).pending.e j).occupiedKey =
      some ((loginAfter X cfg run).pending.e j).key.bytes := fun j => if_pos (hfull j).1
  have hlen : (kvKeys (loginAfter X cfg run).pending).length = 1024 := by
    rw [kvKeys, List.filterMap_congr fun j _ => hkey j]
    rw [show (fun j => some ((loginAfter X cfg run).pending.e j).key.bytes) =
      some ∘ fun j => ((loginAfter X cfg run).pending.e j).key.bytes from rfl,
      List.filterMap_eq_map, List.length_map, List.length_finRange]
  have hsub : kvKeys (loginAfter X cfg run).pending ⊆ run.filterMap (openedSince t) := by
    intro k hk
    obtain ⟨j, hj⟩ := mem_kvKeys.mp hk
    obtain ⟨before, e, after, now, heq, hopen, hx, -⟩ :=
      hopened k _ _ (kvHeld_eq_some_iff hdistinct hj)
    have ht : t ≤ now := by
      have := (hfull j).2
      omega
    refine List.mem_filterMap.mpr ⟨e, ?_, openedSince_of_opensState hopen ht⟩
    rw [heq]
    exact List.mem_append_right before List.mem_cons_self
  have hle := ((kvKeys_nodup hdistinct).subperm hsub).length_le
  omega

/-- While at most 1024 logins are opened from its second on, a login that is
    not touched stays pending for its ten minutes. -/
theorem loginAfter_kept (X : JwtExt) (cfg : LoginConfig) (before after : List LoginStep)
    (o : LoginStep) {state verifier : Bytes} {t : Int} (hopen : OpensState o state verifier t)
    (hnow : ∀ req tls w, .request req tls w ∈ before ++ o :: after → 0 < w.now)
    (hclock : ∀ req tls w, .request req tls w ∈ after → t ≤ w.now ∧ w.now < t + 600)
    (hfew : ((before ++ o :: after).filterMap (openedSince t)).length ≤ 1024)
    (huntouched : ∀ b e a, after = b ++ e :: a →
      ¬ Touches (loginAfter X cfg (before ++ o :: b)) state e) :
    kvHeld (loginAfter X cfg (before ++ o :: after)).pending state = some (verifier, t + 600) := by
  induction after using List.reverseRecOn with
  | nil =>
      have ht : 0 < t := by
        obtain ⟨req, tls, w, rfl, -, rfl, -⟩ := hopen
        exact hnow req tls w (by simp)
      have hlast : loginAfter X cfg (before ++ [o]) = loginStep X (loginAfter X cfg before) o :=
        List.foldl_concat _ _ _ _
      rw [hlast]
      exact opensState_held (loginAfter_pending X cfg before fun req tls w h =>
        hnow req tls w (List.mem_append_left _ h)).1 hopen ht
  | append_singleton after e ih =>
      have hrun : before ++ o :: (after ++ [e]) = (before ++ o :: after) ++ [e] := by simp
      rw [hrun] at hnow hfew ⊢
      have hnow' : ∀ req tls w, .request req tls w ∈ before ++ o :: after → 0 < w.now :=
        fun req tls w h => hnow req tls w (List.mem_append_left _ h)
      have hfew' : ((before ++ o :: after).filterMap (openedSince t)).length ≤ 1024 := by
        rw [List.filterMap_append, List.length_append] at hfew
        omega
      have hheld := ih hnow' (fun req tls w h => hclock req tls w (List.mem_append_left _ h)) hfew'
        fun b e' a heq => huntouched b e' (a ++ [e]) (by rw [heq, List.append_assoc,
          List.cons_append])
      have hlast : loginAfter X cfg (before ++ o :: after ++ [e]) =
          loginStep X (loginAfter X cfg (before ++ o :: after)) e := List.foldl_concat _ _ _ _
      rw [hlast]
      obtain hkept | ⟨⟨s, v, now, hother⟩, hfull⟩ := loginStep_pending_kept (X := X)
        (loginAfter_pending X cfg _ hnow').1 e hheld (huntouched after e [] rfl) fun req tls w h =>
          ⟨hnow req tls w (by rw [h]; simp), (hclock req tls w (by rw [h]; simp)).2⟩
      · exact hkept
      · -- the login evicted would be one of 1025
        have hlen := length_openedSince hnow' hfull
        have hsince : t ≤ now := by
          obtain ⟨req, tls, w, rfl, -, rfl, -⟩ := hother
          exact (hclock req tls w (by simp)).1
        rw [List.filterMap_append, List.length_append, List.filterMap_cons_some
          (openedSince_of_opensState hother hsince), List.length_cons] at hfew
        omega

/-- A login can be completed for ten minutes, as long as nothing touches it
    and at most 1024 logins are opened from its second on: a callback with its
    state and a code posts the token request, with its verifier. -/
theorem login_completes (X : JwtExt) (cfg : LoginConfig) (before after : List LoginStep)
    (o : LoginStep) {state verifier : Bytes} {t : Int} (hopen : OpensState o state verifier t)
    (hnow : ∀ req tls w, .request req tls w ∈ before ++ o :: after → 0 < w.now)
    (hclock : ∀ req tls w, .request req tls w ∈ after → t ≤ w.now ∧ w.now < t + 600)
    (hfew : ((before ++ o :: after).filterMap (openedSince t)).length ≤ 1024)
    (huntouched : ∀ b e a, after = b ++ e :: a →
      ¬ Touches (loginAfter X cfg (before ++ o :: b)) state e)
    (req : NtcRequest) (tls : Bool) (w : LoginAnswer) (hpath : req.path = lit "/auth/callback")
    (hstate : callbackParam req.query "state" 64 = state)
    (hcode : callbackParam req.query "code" 512 ≠ []) (hlive : w.now < t + 600) :
    SpendsState (loginAfter X cfg (before ++ o :: after)) (.request req tls w) state
      (callbackParam req.query "code" 512)
      (oauthBody (loginAfter X cfg (before ++ o :: after)).cfg.toOauthConfig
        (callbackParam req.query "code" 512) verifier) w.now := by
  have hheld := loginAfter_kept X cfg before after o hopen hnow hclock hfew huntouched
  have hdistinct := (loginAfter_pending X cfg _ hnow).1
  refine ⟨req, tls, w, rfl, hpath, rfl, hstate, rfl, ?_⟩
  obtain ⟨_, _, _, _, _, _, hopenState, hverifier⟩ := id hopen
  obtain ⟨hlen, hnul⟩ := ntcPkceVerifier_some hverifier
  have hne : state ≠ [] := by
    rintro rfl
    exact absurd (ntcRandomToken_some hopenState).1 (by decide)
  obtain ⟨hanswer, -⟩ := ntcKvGet_spec hdistinct state w.now 64
  rw [hheld, Option.bind_some, if_neg (by omega), clip_of_fits hnul (by omega)] at hanswer
  rw [callbackParam] at hstate hcode ⊢
  rw [oauthCallback]
  generalize urlDecode ((queryGet req.query (lit "code") 512).getD []) = code at hcode ⊢
  rw [hstate, if_neg (not_or.mpr ⟨hcode, hne⟩)]
  generalize ntcKvGet (loginAfter X cfg (before ++ o :: after)).pending state w.now 64 = got
    at hanswer ⊢
  obtain ⟨found, pending⟩ := got
  obtain rfl : found = some verifier := hanswer
  rfl

/-- A login that draws another state. -/
def otherLogin : LoginStep :=
  .request { path := lit "/auth/login" } false
    { bookAnswer 2 with state := some ⟨List.replicate 16 1, rfl⟩ }

/-- Someone else logs in, a page is asked for, and the sessions are swept. -/
def meanwhile : List LoginStep :=
  [otherLogin, .request { path := lit "/auth/logout" } false (bookAnswer 3), .sweep 4 true]

theorem meanwhile_untouched (l : Login) : ∀ e ∈ meanwhile, ¬ Touches l bookState e := by
  intro e he
  simp only [meanwhile, List.mem_cons, List.not_mem_nil, or_false] at he
  rintro (⟨verifier, now, req, tls, w, heq, hpath, -, hstate, -⟩ |
    ⟨code, body, now, req, tls, w, heq, hpath, -⟩ | ⟨cfg, heq⟩)
  · obtain rfl | rfl | rfl := he
    · obtain ⟨-, -, rfl⟩ := LoginStep.request.inj heq
      exact absurd hstate (by decide)
    · obtain ⟨rfl, -, -⟩ := LoginStep.request.inj heq
      exact absurd hpath (by decide)
    · cases heq
  · obtain rfl | rfl | rfl := he
    · obtain ⟨rfl, -, -⟩ := LoginStep.request.inj heq
      exact absurd hpath (by decide)
    · obtain ⟨rfl, -, -⟩ := LoginStep.request.inj heq
      exact absurd hpath (by decide)
    · cases heq
  · obtain rfl | rfl | rfl := he <;> cases heq

/-- The callback of a login by the book, after someone else's. -/
theorem login_completes_visit :
    SpendsState (loginAfter noVerifiers bookConfig ([] ++ visitLogin 1 :: meanwhile))
      (.request callbackRequest false (bookAnswer 5)) bookState
      (callbackParam callbackRequest.query "code" 512)
      (oauthBody
        (loginAfter noVerifiers bookConfig ([] ++ visitLogin 1 :: meanwhile)).cfg.toOauthConfig
        (callbackParam callbackRequest.query "code" 512) bookVerifier) 5 := by
  have hopen : OpensState (visitLogin 1) bookState bookVerifier 1 :=
    ⟨{ path := lit "/auth/login" }, false, bookAnswer 1, rfl, rfl, rfl, by decide, by decide⟩
  have hstate : callbackParam callbackRequest.query "state" 64 = bookState := by
    rw [callbackParam, queryGet_eq]
    decide +kernel
  have hcode : callbackParam callbackRequest.query "code" 512 ≠ [] := by
    rw [callbackParam, queryGet_eq]
    decide +kernel
  have hclock : ∀ req tls w, .request req tls w ∈ visitLogin 1 :: meanwhile →
      1 ≤ w.now ∧ w.now < 601 := by
    intro req tls w h
    simp only [meanwhile, visitLogin, otherLogin, List.mem_cons, List.not_mem_nil, or_false,
      LoginStep.request.injEq, reduceCtorEq] at h
    obtain ⟨-, -, rfl⟩ | ⟨-, -, rfl⟩ | ⟨-, -, rfl⟩ := h <;> decide
  refine login_completes noVerifiers bookConfig [] meanwhile (visitLogin 1) hopen ?_ ?_ ?_ ?_
    callbackRequest false (bookAnswer 5) rfl hstate hcode (by decide)
  · intro req tls w h
    have hone := (hclock req tls w h).1
    omega
  · exact fun req tls w h => hclock req tls w (List.mem_cons_of_mem _ h)
  · decide +kernel
  · intro b e a heq
    exact meanwhile_untouched _ e (heq ▸ List.mem_append_right b List.mem_cons_self)

-- ============================================================================
-- The authorization request
-- ============================================================================

/-- The scopes a login asks for. -/
def LoginConfig.scopes (cfg : LoginConfig) : Bytes :=
  if cfg.oauthScopes.bytes = [] then lit "openid" else cfg.oauthScopes.bytes

/-- The fields of the authorization request. -/
def authorizeFields (cfg : LoginConfig) (state challenge : Bytes) : List Bytes :=
  [lit "response_type=code", lit "client_id=" ++ cfg.oauthClientId.bytes,
    lit "redirect_uri=" ++ urlEncode cfg.oauthRedirectUri.bytes 400,
    lit "scope=" ++ urlEncode cfg.scopes 200, lit "state=" ++ state,
    lit "code_challenge=" ++ challenge, lit "code_challenge_method=S256"]

/-- The query of the authorization request. -/
def authorizeQuery (cfg : LoginConfig) (state challenge : Bytes) : Bytes :=
  [38].intercalate (authorizeFields cfg state challenge)

/-- The query of a login: it opens the state and sends the challenge of the
    verifier. -/
def loginQuery (cfg : LoginConfig) (state verifier : Bytes) : Bytes :=
  authorizeQuery cfg state (base64url (ntcSha256 verifier))

theorem authorizeRequest_eq (cfg : LoginConfig) (state challenge : Bytes) :
    authorizeRequest cfg state challenge =
      clip 1000 (cfg.oauthAuthorizeUrl.bytes ++ lit "?" ++ authorizeQuery cfg state challenge) := by
  have h1 : lit "?response_type=code&client_id=" =
      lit "?" ++ (lit "response_type=code" ++ ([38] ++ lit "client_id=")) := by decide
  have h2 : lit "&redirect_uri=" = [38] ++ lit "redirect_uri=" := by decide
  have h3 : lit "&scope=" = [38] ++ lit "scope=" := by decide
  have h4 : lit "&state=" = [38] ++ lit "state=" := by decide
  have h5 : lit "&code_challenge=" = [38] ++ lit "code_challenge=" := by decide
  have h6 : lit "&code_challenge_method=S256" = [38] ++ lit "code_challenge_method=S256" := by
    decide
  rw [authorizeRequest, authorizeQuery, authorizeFields, ← LoginConfig.scopes, h1, h2, h3, h4, h5,
    h6]
  simp only [List.intercalate_cons_cons, List.intercalate_singleton, List.append_assoc]

/-- The fields a provider finds. -/
theorem formField_authorizeQuery {cfg : LoginConfig} (hclient : 38 ∉ cfg.oauthClientId.bytes)
    {state challenge : Bytes} (hstate : 38 ∉ state) (hchallenge : 38 ∉ challenge) (name : Bytes) :
    formField name (authorizeQuery cfg state challenge) =
      (authorizeFields cfg state challenge).findSome? (fieldValue name) := by
  have hfields : ∀ f ∈ authorizeFields cfg state challenge, 38 ∉ f := by
    intro f hf
    simp only [authorizeFields, List.mem_cons, List.not_mem_nil, or_false] at hf
    have happend : ∀ {a b : Bytes}, 38 ∉ a → 38 ∉ b → 38 ∉ a ++ b := fun ha hb h =>
      (List.mem_append.mp h).elim ha hb
    obtain rfl | rfl | rfl | rfl | rfl | rfl | rfl := hf
    · decide
    · exact happend (by decide) hclient
    · exact happend (by decide) (ampersand_notMem_urlEncode _ _)
    · exact happend (by decide) (ampersand_notMem_urlEncode _ _)
    · exact happend (by decide) hstate
    · exact happend (by decide) hchallenge
    · decide
  rw [formField, authorizeQuery, List.splitOn_intercalate _ hfields (List.cons_ne_nil _ _)]

theorem zero_notMem_authorizeQuery (cfg : LoginConfig) {state challenge : Bytes}
    (hstate : 0 ∉ state) (hchallenge : 0 ∉ challenge) :
    0 ∉ authorizeQuery cfg state challenge := by
  simp only [authorizeQuery, authorizeFields, List.intercalate_cons_cons,
    List.intercalate_singleton, List.mem_append, not_or]
  exact ⟨⟨by decide, by decide⟩, ⟨⟨by decide, cfg.oauthClientId.noNul⟩, by decide⟩,
    ⟨⟨by decide, zero_notMem_urlEncode _ _⟩, by decide⟩,
    ⟨⟨by decide, zero_notMem_urlEncode _ _⟩, by decide⟩, ⟨⟨by decide, hstate⟩, by decide⟩,
    ⟨⟨by decide, hchallenge⟩, by decide⟩, by decide⟩

/-- A login sends the browser to the provider with the state it opens, the
    S256 challenge of its verifier, and the scopes and the redirect URI as far
    as their buffers reach, exactly if the line fits the connection's headers. -/
theorem opensState_redirects (X : JwtExt) (l : Login) (req : NtcRequest) (tls : Bool)
    (w : LoginAnswer) {state verifier : Bytes}
    (hopen : OpensState (.request req tls w) state verifier w.now)
    (hclient : 38 ∉ l.cfg.oauthClientId.bytes) :
    formField (lit "state") (loginQuery l.cfg state verifier) = some state ∧
      formField (lit "code_challenge") (loginQuery l.cfg state verifier) =
        some (base64url (ntcSha256 verifier)) ∧
      formField (lit "code_challenge_method") (loginQuery l.cfg state verifier) =
        some (lit "S256") ∧
      ((formField (lit "redirect_uri") (loginQuery l.cfg state verifier)).map formDecode =
          some l.cfg.oauthRedirectUri.bytes ↔
        EncodesWithin 400 l.cfg.oauthRedirectUri.bytes) ∧
      ((formField (lit "scope") (loginQuery l.cfg state verifier)).map formDecode =
          some l.cfg.scopes ↔
        EncodesWithin 200 l.cfg.scopes) ∧
      ((handleOauth X tls w l req).1.headers.map CStr.bytes =
          some (lit "Location: " ++ (l.cfg.oauthAuthorizeUrl.bytes ++ lit "?" ++
            loginQuery l.cfg state verifier) ++ crlf) ↔
        l.cfg.oauthAuthorizeUrl.bytes.length + (loginQuery l.cfg state verifier).length ≤ 498) := by
  obtain ⟨_, _, _, heq, hpath, -, hstate, hverifier⟩ := hopen
  obtain ⟨rfl, rfl, rfl⟩ := LoginStep.request.inj heq
  obtain ⟨-, -, hdigits⟩ := ntcRandomToken_some hstate
  have hstateAmp : 38 ∉ state := fun h => absurd (hdigits 38 h) (by decide)
  have hchallengeAmp : 38 ∉ base64url (ntcSha256 verifier) := fun h =>
    absurd (base64url_mem _ 38 h) (by decide)
  have hscopesNul : 0 ∉ l.cfg.scopes := by
    rw [LoginConfig.scopes]
    split
    · decide
    · exact l.cfg.oauthScopes.noNul
  have hfield := formField_authorizeQuery hclient hstateAmp hchallengeAmp
  rw [loginQuery]
  refine ⟨?_, ?_, ?_, ?_, ?_, ?_⟩
  · rw [hfield]
    rfl
  · rw [hfield]
    rfl
  · rw [hfield]
    rfl
  · rw [hfield, ← decode_urlEncode_iff l.cfg.oauthRedirectUri.noNul]
    exact Option.some_inj
  · rw [hfield, ← decode_urlEncode_iff hscopesNul]
    exact Option.some_inj
  · have hquery := zero_notMem_authorizeQuery l.cfg
      (fun h => absurd (hdigits 0 h) (by decide)) (zero_notMem_base64url (ntcSha256 verifier))
    have hpage : (handleOauth X tls w l req).1.headers.map CStr.bytes = some (clip 512
        (clip 512 (lit "Location: " ++ authorizeRequest l.cfg state
          (base64url (ntcSha256 verifier)) ++ crlf) ++ [])) := by
      rw [handleOauth, if_pos hpath, oauthLogin, hstate, hverifier]
      dsimp only
      rw [ntcPkceChallenge_eq]
      rfl
    rw [hpage, authorizeRequest_eq, List.append_nil]
    generalize authorizeQuery l.cfg state (base64url (ntcSha256 verifier)) = query at hquery ⊢
    have h1 : (lit "Location: ").length = 10 := by decide
    have hlen : (lit "Location: " ++ (l.cfg.oauthAuthorizeUrl.bytes ++ lit "?" ++ query) ++
        crlf).length = l.cfg.oauthAuthorizeUrl.bytes.length + query.length + 13 := by
      simp only [List.length_append, h1]
      show 10 + (_ + 1 + _) + 2 = _
      omega
    constructor
    · intro h
      have hle := clip_length_le 512 (clip 512 (lit "Location: " ++ clip 1000
        (l.cfg.oauthAuthorizeUrl.bytes ++ lit "?" ++ query) ++ crlf))
      rw [Option.some.inj h, hlen] at hle
      omega
    · intro h
      have htext : 0 ∉ l.cfg.oauthAuthorizeUrl.bytes ++ lit "?" ++ query := by
        simp only [List.mem_append, not_or]
        exact ⟨⟨l.cfg.oauthAuthorizeUrl.noNul, by decide⟩, hquery⟩
      have hline : 0 ∉ lit "Location: " ++ (l.cfg.oauthAuthorizeUrl.bytes ++ lit "?" ++ query) ++
          crlf := by
        rw [List.mem_append, List.mem_append, not_or, not_or]
        exact ⟨⟨by decide, htext⟩, by decide⟩
      have hshort : (l.cfg.oauthAuthorizeUrl.bytes ++ lit "?" ++ query).length < 1000 := by
        rw [List.length_append, List.length_append] at hlen ⊢
        show _ + 1 + _ < 1000
        omega
      rw [clip_of_fits htext hshort, clip_of_fits hline (by omega), clip_of_fits hline (by omega)]

/-- The query of the login by the book. -/
def bookQuery : Bytes := loginQuery (loginStart bookConfig).cfg bookState bookVerifier

theorem opensState_redirects_visit :
    formField (lit "state") bookQuery = some bookState ∧
      formField (lit "code_challenge") bookQuery = some (base64url (ntcSha256 bookVerifier)) ∧
      formField (lit "code_challenge_method") bookQuery = some (lit "S256") ∧
      ((formField (lit "redirect_uri") bookQuery).map formDecode =
          some (loginStart bookConfig).cfg.oauthRedirectUri.bytes ↔
        EncodesWithin 400 (loginStart bookConfig).cfg.oauthRedirectUri.bytes) ∧
      ((formField (lit "scope") bookQuery).map formDecode =
          some (loginStart bookConfig).cfg.scopes ↔
        EncodesWithin 200 (loginStart bookConfig).cfg.scopes) ∧
      ((handleOauth noVerifiers false (bookAnswer 1) (loginStart bookConfig)
          { path := lit "/auth/login" }).1.headers.map CStr.bytes =
          some (lit "Location: " ++ ((loginStart bookConfig).cfg.oauthAuthorizeUrl.bytes ++
            lit "?" ++ bookQuery) ++ crlf) ↔
        (loginStart bookConfig).cfg.oauthAuthorizeUrl.bytes.length + bookQuery.length ≤ 498) := by
  rw [bookQuery]
  exact opensState_redirects noVerifiers (loginStart bookConfig) { path := lit "/auth/login" }
    false (bookAnswer 1) ⟨_, _, _, rfl, rfl, rfl, by decide, by decide⟩ (by decide)

end Naitron
