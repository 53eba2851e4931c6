/-
  Naitron.Server.Identity

  The identity of an accepted token on its way to a controller.

  The claims pass through the JSON parser, `char sub[128]` and
  `char scope[256]` on the way from the payload to the connection; nothing
  behind them cuts again, up to the fields a controller reads from the frame.
  Serving a client queues at most one frame with a request (`Forwards`).
-/

import Naitron.JwtClaims
import Naitron.WireRequest
import Naitron.Server.Slots

namespace Naitron

variable (E : Ext)

-- ============================================================================
-- Frames with a request
-- ============================================================================

/-- The frames queued that carry a request. -/
def requestLog (f : Flight) : List QueuedFrame :=
  f.queued.filter fun q => q.type == .request || q.type == .wsOpen

/-- No frame more, or one with a request in `P`. -/
def Forwards (P : NtcRequest → Prop) (f f' : Flight) : Prop :=
  requestLog f' = requestLog f ∨
    ∃ q fr, requestLog f' = requestLog f ++ [q] ∧ P fr ∧
      ntcWireEncodeRequest fr encodeCap = some q.payload

theorem Forwards.after {P : NtcRequest → Prop} {f f₁ f' : Flight}
    (hsame : requestLog f₁ = requestLog f) (h : Forwards P f₁ f') : Forwards P f f' := by
  rw [Forwards, hsame] at h
  exact h

theorem Forwards.before {P : NtcRequest → Prop} {f f₁ f' : Flight} (h : Forwards P f f₁)
    (hsame : requestLog f' = requestLog f₁) : Forwards P f f' := by
  rw [Forwards, hsame]
  exact h

/-- A connection's own moves queue no request. -/
theorem Micro.own_requestLog {f f' : Flight} {k : ConnId} {l : Label} (hm : Micro f l f')
    (hl : Own k l) : requestLog f' = requestLog f := by
  cases hm with
  | relay => simp [requestLog, List.filter_append]
  | notice => simp [requestLog, List.filter_append]
  | alloc => cases hl
  | _ => rfl

theorem Moves.own_requestLog {f f' : Flight} {k : ConnId} (hm : Moves (Own k) f f') :
    requestLog f' = requestLog f :=
  hm.keep (I := fun x => requestLog x = requestLog f) (fun hl hm hs => (hm.own_requestLog hl).trans hs)
    rfl

theorem requestLog_of_queued {f f' : Flight} (h : f'.queued = f.queued) :
    requestLog f' = requestLog f := by
  rw [requestLog, h, requestLog]

theorem reply_forwards (P : NtcRequest → Prop) (g : Gateway) (k : ConnId) (status : Nat)
    (body : Bytes) : Forwards P g.toFlight (respondAndFlush E g k status body).2.toFlight :=
  Or.inl (Moves.own_requestLog (respondAndFlush_moves E g k status body))

theorem pickTarget_queued {g g₁ : Gateway} {svc : Nat} {target : CtrlId}
    (h : pickTarget g svc = some (target, g₁)) : g₁.queued = g.queued := by
  unfold pickTarget at h
  split at h
  · cases h
  · split at h
    · cases h
    · obtain ⟨_, -, heq⟩ := Option.map_eq_some_iff.mp h
      cases heq
      rfl

theorem gwAllocId_queued {g g₁ : Gateway} {k : ConnId} {id : Nat}
    (h : gwAllocId g k = some (id, g₁)) : g₁.queued = g.queued := by
  unfold gwAllocId at h
  split at h
  · cases h
  · cases h
    rfl

/-- The common end of `gw_forward` and `gw_ws_upgrade`. -/
theorem enqueue_forwards {g : Gateway} {k : ConnId} (type : NtcMsgType)
    (htype : type = .request ∨ type = .wsOpen) (target : CtrlId) (fr : NtcRequest)
    (finish : Nat → Gateway → Rc × Gateway)
    (hfinish : ∀ id g, requestLog (finish id g).2.toFlight = requestLog g.toFlight) :
    Forwards (· = fr) g.toFlight
      (match ntcWireEncodeRequest fr encodeCap with
        | none => respondAndFlush E g k 500 (lit "\x7b\"error\":\"encode failed\"\x7d")
        | some enc =>
            match gwAllocId g k with
            | none => respondAndFlush E g k 503 (lit "\x7b\"error\":\"too many in-flight\"\x7d")
            | some (id, g) =>
                match ctrlQueue E g target k type id enc with
                | (.neg, g) =>
                    respondAndFlush E (gwFreeSlot g (idSlot id)) k 503
                      (lit "\x7b\"error\":\"queue full\"\x7d")
                | (.zero, g) => finish id g).2.toFlight := by
  split
  · exact reply_forwards E _ g k _ _
  · rename_i enc henc
    split
    · exact reply_forwards E _ g k _ _
    · rename_i id g₁ halloc
      refine Forwards.after (requestLog_of_queued (gwAllocId_queued halloc)) ?_
      have hcases := ctrlQueue_cases E g₁ target k type id enc
      split
      · rename_i g₂ hq
        rw [hq] at hcases
        obtain ⟨_, _, _, _, hrc, _⟩ | ⟨_, hrc, _⟩ | ⟨_, heq⟩ := hcases
        · cases hrc
        · cases hrc
        · have hsame : (gwFreeSlot g₂ (idSlot id)).queued = g₁.queued := by
            show g₂.queued = g₁.queued
            rw [heq]
          exact Forwards.after (requestLog_of_queued hsame) (reply_forwards E _ _ k _ _)
      · rename_i g₂ hq
        rw [hq] at hcases
        refine Forwards.before ?_ (hfinish id g₂)
        obtain ⟨t, t', -, -, -, heq⟩ | ⟨-, -, heq⟩ | ⟨hrc, -⟩ := hcases
        · right
          refine ⟨⟨target, k, type, id, enc⟩, fr, ?_, rfl, henc⟩
          rw [requestLog, heq, List.filter_append]
          rcases htype with rfl | rfl <;> rfl
        · left
          rw [requestLog, heq, requestLog]
        · cases hrc

theorem gwForward_forwards (g : Gateway) (k : ConnId) (fr : NtcRequest) (svc : Nat) :
    Forwards (· = fr) g.toFlight (gwForward E g k fr svc).2.toFlight := by
  unfold gwForward
  split
  · exact reply_forwards E _ g k _ _
  · rename_i target g₁ hpick
    refine Forwards.after (requestLog_of_queued (pickTarget_queued hpick)) ?_
    dsimp only
    split
    · exact reply_forwards E _ (g₁.ask E).2 k _ _
    · refine enqueue_forwards E (g := (g₁.ask E).2) .request (Or.inl rfl) target fr
        (fun id g => (.zero, g.modConn k fun c => { c with
          state := .csWait, reqId := id, inflight := true, waitCtrl := some target })) ?_
      exact fun id g => requestLog_of_queued (modConn_queued g k _)

theorem gwWsUpgrade_forwards (g : Gateway) (k : ConnId) (fr : NtcRequest) (svc : Nat) :
    Forwards (· = fr) g.toFlight (gwWsUpgrade E g k fr svc).2.toFlight := by
  unfold gwWsUpgrade
  split
  · exact Or.inl rfl
  · split
    · exact reply_forwards E _ g k _ _
    · split
      · exact reply_forwards E _ g k _ _
      · rename_i target g₁ hpick
        refine Forwards.after (requestLog_of_queued (pickTarget_queued hpick)) ?_
        dsimp only
        split
        · exact reply_forwards E _ g₁ k _ _
        · split
          · exact reply_forwards E _ (g₁.ask E).2 k _ _
          · refine enqueue_forwards E (g := (g₁.ask E).2) .wsOpen (Or.inr rfl) target fr
              (fun id g => streamPush E ((g.modConn k fun c => { c with
                reqId := id, inflight := true, waitCtrl := some target
                isWs := true, streaming := true, streamHeadSent := true
                state := .csWs, rbuf := [] }).noteReply k) k
                (upgradeHead (E.wsAcceptKey (ntcHttpHeader fr (lit "sec-websocket-key"))))) ?_
            intro id g
            refine (Moves.own_requestLog (streamPush_moves E _ k _)).trans ?_
            exact requestLog_of_queued (modConn_queued g k _)

-- ============================================================================
-- The identity on the connection
-- ============================================================================

/-- The connection, if it is there, carries this identity. -/
def HasIdentity (g : Gateway) (k : ConnId) (sub : CStr 128) (scope : CStr 256) : Prop :=
  ∀ c, g.conns k = some c → c.authSub = sub ∧ c.authScope = scope

variable {E} {g : Gateway} {k : ConnId} {sub : CStr 128} {scope : CStr 256}

theorem HasIdentity.congr {g' : Gateway} (h : HasIdentity g k sub scope)
    (hsame : g'.conns k = g.conns k) : HasIdentity g' k sub scope :=
  fun c hc => h c (hsame ▸ hc)

theorem HasIdentity.ask (E : Ext) (h : HasIdentity g k sub scope) :
    HasIdentity (g.ask E).2 k sub scope :=
  h.congr rfl

theorem HasIdentity.emit (h : HasIdentity g k sub scope) (out : Bytes) :
    HasIdentity ((g.ask E).2.emit k out) k sub scope :=
  h.congr rfl

theorem HasIdentity.modConn (h : HasIdentity g k sub scope) {F : Conn → Conn}
    (hF : ∀ c, (F c).authSub = c.authSub ∧ (F c).authScope = c.authScope) :
    HasIdentity (g.modConn k F) k sub scope := by
  intro c' hc'
  cases hc : g.conns k with
  | none => simp [Gateway.modConn, hc] at hc'
  | some c =>
      simp only [Gateway.modConn, hc, Function.update_self, Option.some.injEq] at hc'
      rw [← hc', (hF c).1, (hF c).2]
      exact h c hc

theorem connClose_hasIdentity (g : Gateway) : HasIdentity (connClose E g k) k sub scope := by
  intro c hc
  unfold connClose at hc
  split at hc
  · rename_i hnone
    rw [hnone] at hc
    cases hc
  · simp [dropConn] at hc

theorem onWritableAtomic_hasIdentity (h : HasIdentity g k sub scope) (c : Conn) :
    HasIdentity (onWritableAtomic E g k c).2 k sub scope := by
  unfold onWritableAtomic
  dsimp only
  split
  · exact connClose_hasIdentity _
  · exact (h.emit _).modConn fun _ => ⟨rfl, rfl⟩
  · exact connClose_hasIdentity _

theorem onWritableStream_hasIdentity (h : HasIdentity g k sub scope) (c : Conn) :
    HasIdentity (onWritableStream E g k c).2 k sub scope := by
  unfold onWritableStream
  dsimp only
  split
  · exact connClose_hasIdentity _
  · exact (h.emit _).modConn fun _ => ⟨rfl, rfl⟩
  · split
    · exact connClose_hasIdentity _
    · have hdone := (h.emit (E := E) (slicePart c.swbuf c.swsent
          (sendLoop c.swbuf.length (g.ask E).1.sends c.swsent).2)).modConn
        (F := fun c => { c with swbuf := [], swsent := 0 }) fun _ => ⟨rfl, rfl⟩
      split
      · exact hdone.congr rfl
      · exact connClose_hasIdentity _

theorem tlsDriveWrite_hasIdentity (h : HasIdentity g k sub scope) (c : Conn) :
    HasIdentity (tlsDriveWrite E g k c).2 k sub scope := by
  unfold tlsDriveWrite
  dsimp only
  split
  · exact connClose_hasIdentity _
  · refine (h.emit _).modConn fun c => ?_
    split <;> exact ⟨rfl, rfl⟩
  · exact (h.emit _).modConn fun _ => ⟨rfl, rfl⟩

theorem onWritable_hasIdentity (h : HasIdentity g k sub scope) :
    HasIdentity (onWritable E g k).2 k sub scope := by
  unfold onWritable
  split
  · exact h
  · rename_i c hc
    split
    · exact tlsDriveWrite_hasIdentity h c
    · split
      · exact onWritableStream_hasIdentity h c
      · exact onWritableAtomic_hasIdentity h c

theorem connFlush_hasIdentity (h : HasIdentity g k sub scope) :
    HasIdentity (connFlush E g k).2 k sub scope := by
  unfold connFlush
  split
  · exact h
  · rename_i c hc
    split
    · have hdrive := tlsDriveWrite_hasIdentity (E := E) h c
      split
      · rename_i heq
        rw [heq] at hdrive
        exact hdrive
      · rename_i heq
        rw [heq] at hdrive
        unfold tlsSetInterest
        dsimp only
        split
        · exact hdrive.congr rfl
        · exact connClose_hasIdentity _
    · dsimp only
      split
      · exact onWritable_hasIdentity (h.congr rfl)
      · exact connClose_hasIdentity _

theorem respondAndFlush_hasIdentity (h : HasIdentity g k sub scope) (status : Nat)
    (body : Bytes) : HasIdentity (respondAndFlush E g k status body).2 k sub scope := by
  rw [respondAndFlush, sendResp]
  have hrespond : HasIdentity (connRespond E g k status ctJson body).2 k sub scope := by
    unfold connRespond
    dsimp only
    split
    · exact h.congr rfl
    · rename_i c hc
      have hextra := ((h.ask E).ask E).modConn
        (F := fun d => { d with
          extraHeaders := (gzipBody E c (g.ask E).1.ok ctJson body).2 }) fun _ => ⟨rfl, rfl⟩
      split
      · exact hextra
      · rename_i resp _
        have hresp := hextra.modConn
          (F := fun d => { d with wbuf := resp, wsent := 0, state := .csWrite }) fun _ => ⟨rfl, rfl⟩
        split
        · exact hresp.congr rfl
        · exact hextra
  split
  · exact connClose_hasIdentity _
  · rename_i heq
    rw [heq] at hrespond
    exact connFlush_hasIdentity hrespond

-- ============================================================================
-- Dispatch
-- ============================================================================

/-- A request that carries this identity. -/
def Carries (sub : CStr 128) (scope : CStr 256) (fr : NtcRequest) : Prop :=
  fr.authSub = sub.bytes ∧ fr.authScope = scope.bytes

theorem dispatchForward_forwards (h : HasIdentity g k sub scope) (req : NtcRequest)
    (params : List NtcHeader) (svc : Nat) :
    Forwards (Carries sub scope) g.toFlight (dispatchForward E g k req params svc).2.toFlight := by
  have hvalidate : HasIdentity (gwValidateBody E g k req).2 k sub scope := by
    unfold gwValidateBody
    dsimp only
    split
    · exact h.congr rfl
    · exact respondAndFlush_hasIdentity (h.ask E) _ _
  have hlog := Moves.own_requestLog (gwValidateBody_moves E g k req)
  unfold dispatchForward
  split
  · rename_i heq
    rw [heq] at hlog
    exact Or.inl hlog
  · rename_i g₁ heq
    rw [heq] at hlog hvalidate
    split
    · exact Or.inl hlog
    · rename_i c hc
      obtain ⟨hsub, hscope⟩ := hvalidate c hc
      have hcarries : Carries sub scope (enrichRequest c req params) :=
        ⟨congrArg CStr.bytes hsub, congrArg CStr.bytes hscope⟩
      have hmono : ∀ {f f' : Flight}, Forwards (· = enrichRequest c req params) f f' →
          Forwards (Carries sub scope) f f' := by
        rintro f f' (hsame | ⟨q, fr, hq, rfl, henc⟩)
        · exact Or.inl hsame
        · exact Or.inr ⟨q, _, hq, hcarries, henc⟩
      refine Forwards.after hlog (hmono ?_)
      dsimp only
      split
      · exact gwWsUpgrade_forwards E g₁ k _ svc
      · exact gwForward_forwards E g₁ k _ svc

theorem gwDispatch_forwards (h : HasIdentity g k sub scope) (req : NtcRequest) :
    Forwards (Carries sub scope) g.toFlight (gwDispatch E g k req).2.toFlight := by
  unfold gwDispatch
  split
  · exact Or.inl (Moves.own_requestLog (sendPage_moves E g k _))
  · split
    · exact Or.inl (Moves.own_requestLog (serveReserved_moves E g k req))
    · split
      · exact Or.inl (Moves.own_requestLog (serveUnrouted_moves E g k req))
      · exact reply_forwards E _ g k _ _
      · split
        · exact dispatchForward_forwards h req _ _
        · dsimp only
          split
          · exact reply_forwards E _ (g.ask E).2 k _ _
          · exact Or.inl (Moves.own_requestLog (sendResp_moves E (g.ask E).2 k _ _ _))

/-- What the middleware passes on of a token it accepted. -/
theorem ntcMwBefore_identity {J : JwtOps} {w : MwWorld} {m : NtcMw Float} {req : NtcRequest}
    {ip : Bytes} {now : Int} (hver : (mwAuth J w m req false).1 = .verified sub scope)
    (hpass : (ntcMwBefore J w m req ip now false).1 = false) :
    (ntcMwBefore J w m req ip now false).2.1.authSub = sub ∧
      (ntcMwBefore J w m req ip now false).2.1.authScope = scope := by
  rw [ntcMwBefore] at hpass ⊢
  by_cases hpre : isPreflight m.cfg req
  · simp [hpre] at hpass
  · simp only [hpre, if_false] at hpass ⊢
    rcases hauth : mwAuth J w m req false with ⟨out, m'⟩
    rw [hauth] at hver hpass
    obtain rfl : out = .verified sub scope := hver
    rcases hrate : mwRateLimit m' ip now with ⟨_ | _, m''⟩
    · simp [hrate]
    · simp [hrate] at hpass

/-- The request of an accepted token is forwarded with its identity, if it is
    forwarded at all. -/
theorem processRequest_forwards {c : Conn} {eof : Bool} {req : NtcRequest} {mw : NtcMw Float}
    (hc : g.conns k = some c) (hadmin : c.isAdmin = false)
    (hready : frameRequest g.maxBody c.rbuf eof = .ready req) (hmw : g.mw = some mw)
    (hsess : sessionOf g req (E.io g.tick) = none)
    (hver : (mwAuth E.jwt (E.io (g.tick + 1)).mw mw req false).1 = .verified sub scope) :
    Forwards (Carries sub scope) g.toFlight (processRequest E g k eof).2.toFlight := by
  obtain ⟨g₁, hg₁⟩ : ∃ g₁, g₁ = g.modConn k fun c =>
      { c with acceptGzip := sliceHas (ntcHttpHeader req (lit "accept-encoding")) (lit "gzip") } :=
    ⟨_, rfl⟩
  have hlog₁ : requestLog g₁.toFlight = requestLog g.toFlight := by
    rw [hg₁]
    exact requestLog_of_queued (modConn_queued g k _)
  have hfields : g₁.mw = some mw ∧ g₁.tick = g.tick ∧ g₁.hasSessions = g.hasSessions := by
    rw [hg₁, Gateway.modConn, hc]
    exact ⟨hmw, rfl, rfl⟩
  obtain ⟨hmw₁, htick, hhas⟩ := hfields
  have hsess₁ : sessionOf (g₁.ask E).2 req (g₁.ask E).1 = none := by
    show (if g₁.hasSessions && _ then (E.io g₁.tick).session else none) = none
    rw [hhas, htick]
    exact hsess
  have hprocess : ∀ o g', runMiddleware E g₁ k c req = (o, g') →
      processRequest E g k eof =
        o.elim (gwDispatch E g' k req) fun r => sendResp E g' k r.status r.contentType r.body := by
    intro o g' hmid
    rw [processRequest, hc]
    dsimp only
    rw [hready]
    dsimp only
    rw [← hg₁, hadmin, if_neg Bool.false_ne_true, hmid]
    cases o with
    | none => rfl
    | some r => rfl
  obtain ⟨b, hb⟩ : ∃ b, b = ntcMwBefore E.jwt (E.io (g₁.tick + 1)).mw mw req c.clientIp.bytes
      (E.io (g₁.tick + 1)).now false := ⟨_, rfl⟩
  obtain ⟨g₂, hg₂⟩ : ∃ g₂, g₂ = Gateway.modConn
      { g₁ with tick := g₁.tick + 1 + 1, mw := some b.2.2 } k fun c =>
        { c with
          extraHeaders := b.2.1.extraHeaders, requestId := b.2.1.requestId
          authSub := b.2.1.authSub, authScope := b.2.1.authScope } := ⟨_, rfl⟩
  have hrun : runMiddleware E g₁ k c req = (if b.1 then some b.2.1 else none, g₂) := by
    rw [hg₂, hb, runMiddleware]
    dsimp only
    rw [hsess₁]
    rw [show (g₁.ask E).2.mw = some mw from hmw₁]
    rfl
  have hlog₂ : requestLog g₂.toFlight = requestLog g.toFlight := by
    rw [hg₂]
    exact (requestLog_of_queued (modConn_queued _ k _)).trans hlog₁
  rw [hprocess _ _ hrun]
  refine Forwards.after hlog₂ ?_
  cases hpass : b.1 with
  | true => exact Or.inl (Moves.own_requestLog (sendResp_moves E g₂ k _ _ _))
  | false =>
      rw [← htick] at hver
      rw [hb] at hpass
      obtain ⟨hsub, hscope⟩ := ntcMwBefore_identity hver hpass
      rw [← hb] at hsub hscope
      refine gwDispatch_forwards ?_ req
      intro c' hc'
      rw [hg₂] at hc'
      simp only [Gateway.modConn] at hc'
      split at hc'
      · rename_i hnone
        rw [hnone] at hc'
        cases hc'
      · simp only [Function.update_self, Option.some.injEq] at hc'
        rw [← hc']
        exact ⟨hsub, hscope⟩

-- ============================================================================
-- What is left of the claims
-- ============================================================================

/-- The payload of a token begins with an object of these members, whose `sub`
    and `scope` are these strings. -/
structure TokenClaims (token : Bytes) (ms : List (List StrPiece × JsonDoc)) (sub scope : Bytes) :
    Prop where
  payload : ∃ jp buf n keys vals, jwtSplit token = some jp ∧ DecodesTo jp.p buf ∧
    BeginsWith n buf (.obj keys vals) ∧ ms = keys.zip vals
  sub : IsClaim ms (lit "sub") sub
  scope : IsClaim ms (lit "scope") scope

/-- Connection `k` has a request with this token ready, and the middleware
    accepts the token. -/
structure Presents (X : JwtExt) (E : Ext) (g : Gateway) (k : ConnId) (eof : Bool)
    (token : Bytes) : Prop where
  jwt : E.jwt = jwtOps X
  accepted : ∃ c mw req, g.conns k = some c ∧ c.isAdmin = false ∧
    frameRequest g.maxBody c.rbuf eof = .ready req ∧ g.mw = some mw ∧
    mw.cfg.authMode.bytes = lit "jwt" ∧ sessionOf g req (E.io g.tick) = none ∧
    ntcHttpHeader req (lit "authorization") = bearer token ∧
    credentialVerified E.jwt (E.io (g.tick + 1)).mw mw req false

/-- The identity a controller reads is that of the claims: the same subject,
    and no item of scope that the token does not have. -/
structure IdentityKept (sub scope : Bytes) (r : NtcRequest) : Prop where
  sub : r.authSub = sub
  scope : ∀ item ∈ Lib.parts chSpace r.authScope, item ∈ Lib.parts chSpace scope

/-- What a controller reads from a frame with a request. -/
def frameCarries (q : QueuedFrame) (P : NtcRequest → Prop) : Prop :=
  ∃ r n, RBuf.decodeRequest q.payload = some (r, n) ∧ P (r.bytes q.payload)

/-- A controller reads the claims as the two buffers hold them. -/
theorem frameCarries_claims {X : JwtExt} {eof : Bool} {token : Bytes} {jp : JwtParts}
    {pj : NtcJson} {q : QueuedFrame} (sub scope : Bytes) (h : Presents X E g k eof token)
    (hjp : jwtSplit token = some jp) (hpay : jwtPayload jp.p = some pj)
    (hq : requestLog (processRequest E g k eof).2.toFlight = requestLog g.toFlight ++ [q]) :
    frameCarries q (IdentityKept sub scope) ↔
      clip 128 (jsonStrField pj "sub") = sub ∧
      ∀ w ∈ Lib.parts chSpace (clip 256 (jsonStrField pj "scope")), w ∈ Lib.parts chSpace scope := by
  obtain ⟨c, mw, req, hc, hadmin, hready, hmw, hmode, hsess, hauth, sub', scope', hver⟩ := h.accepted
  have hforward := processRequest_forwards hc hadmin hready hmw hsess hver
  rw [h.jwt] at hver
  obtain ⟨token', jp', cl, htoken, hjp', hverified, rfl, rfl⟩ := mwAuth_verified hmode hver
  obtain rfl : token' = token := List.append_cancel_left (htoken.symm.trans hauth)
  obtain rfl : jp' = jp := Option.some.inj (hjp'.symm.trans hjp)
  obtain ⟨pj', hpj, hsub, hscope⟩ := hverified.claims
  obtain rfl : pj' = pj := Option.some.inj (hpj.symm.trans hpay)
  -- the frame is the one this request was forwarded in
  obtain ⟨fr, ⟨hfsub, hfscope⟩, henc⟩ : ∃ fr, Carries cl.sub cl.scope fr ∧
      ntcWireEncodeRequest fr encodeCap = some q.payload := by
    obtain hsame | ⟨q', fr, hq', hcarries, henc⟩ := hforward
    · rw [hq] at hsame
      simp at hsame
    · rw [hq] at hq'
      obtain rfl : q = q' := by simpa using hq'
      exact ⟨fr, hcarries, henc⟩
  obtain ⟨r, n, hdec, hr⟩ := decodeRequest_of_encode (by decide) henc
  have hread : frameCarries q (IdentityKept sub scope) ↔
      IdentityKept sub scope fr.capped.overWire := by
    constructor
    · rintro ⟨r', n', hdec', hkept⟩
      rw [hdec] at hdec'
      cases hdec'
      rw [← hr]
      exact hkept
    · intro hkept
      exact ⟨r, n, hdec, hr ▸ hkept⟩
  have hsubbytes : fr.capped.overWire.authSub = clip 128 (jsonStrField pj' "sub") := by
    show fr.authSub = _
    rw [hfsub, hsub]
    rfl
  have hscopebytes : fr.capped.overWire.authScope = clip 256 (jsonStrField pj' "scope") := by
    show fr.authScope = _
    rw [hfscope, hscope]
    rfl
  rw [hread]
  constructor
  · rintro ⟨h₁, h₂⟩
    exact ⟨hsubbytes ▸ h₁, hscopebytes ▸ h₂⟩
  · rintro ⟨h₁, h₂⟩
    exact ⟨hsubbytes ▸ h₁, hscopebytes ▸ h₂⟩

/-- The payload of an accepted token is an object. -/
theorem Presents.payload {X : JwtExt} {eof : Bool} {token : Bytes}
    (h : Presents X E g k eof token) :
    ∃ jp pj, jwtSplit token = some jp ∧ jwtPayload jp.p = some pj := by
  obtain ⟨_, _, _, -, -, -, -, hmode, -, hauth, sub, scope, hver⟩ := h.accepted
  rw [h.jwt] at hver
  obtain ⟨token', jp, cl, htoken, hjp, hverified, -, -⟩ := mwAuth_verified hmode hver
  obtain rfl : token' = token := List.append_cancel_left (htoken.symm.trans hauth)
  obtain ⟨pj, hpj, -, -⟩ := hverified.claims
  exact ⟨jp, pj, hjp, hpj⟩

/-- The identity of an accepted token arrives unaltered exactly when its
    subject is among the members that the parser keeps, has no surrogates and
    fits `char sub[128]`, and each item of its scope that begins before the cut
    is whole there or what is left of it is an item itself. -/
theorem forwarded_identity_iff (X : JwtExt) (E : Ext) (g : Gateway) (k : ConnId) (eof : Bool)
    {token sub scope : Bytes} {ms : List (List StrPiece × JsonDoc)} {q : QueuedFrame}
    (h : Presents X E g k eof token) (hclaims : TokenClaims token ms sub scope)
    (hq : requestLog (processRequest E g k eof).2.toFlight = requestLog g.toFlight ++ [q]) :
    frameCarries q (IdentityKept sub scope) ↔ SubjectFits ms sub ∧ ScopeFits ms scope := by
  obtain ⟨jp', buf, n, keys, vals, hjp, hdec, htext, rfl⟩ := hclaims.payload
  obtain ⟨jp, pj, hjp', hpay⟩ := h.payload
  obtain rfl : jp' = jp := Option.some.inj (hjp.symm.trans hjp')
  obtain rfl := jwtPayload_code hdec htext hpay
  rw [frameCarries_claims sub scope h hjp hpay hq,
    jsonStrField_claim htext (ascii_of_all (by decide : (lit "sub").all _ = true)),
    jsonStrField_claim htext (ascii_of_all (by decide : (lit "scope").all _ = true)),
    subjectFits_iff hclaims.sub.text, scopeFits_iff hclaims.scope.text]

/-- jwt mode with a shared secret, on the gateway of the hello run. -/
def identityExt : Ext := { quietExt with jwt := jwtOps noVerifiers }

/-- What a client sends with a token. -/
def identityBytes (token : Bytes) : Bytes :=
  lit "GET /hello HTTP/1.1\r\nAuthorization: Bearer " ++ token ++ crlf ++ crlf

/-- A client has sent `GET /hello` with a token. -/
def identityGateway (token : Bytes) : Gateway :=
  { helloConnected identityExt with
    conns := Function.update (fun _ => none) 0 (some { rbuf := identityBytes token })
    mw := some jwtMw
    hasSessions := false
    maxBody := ntcConnRbuf }

theorem presents_of {token : Bytes}
    (hready : frameRequest ntcConnRbuf (identityBytes token) false =
      .ready (jwtRequest token))
    (hver : credentialVerified (jwtOps noVerifiers) mwWorldZero jwtMw (jwtRequest token) false) :
    Presents noVerifiers identityExt (identityGateway token) 0 false token where
  jwt := rfl
  accepted := ⟨{ rbuf := identityBytes token }, jwtMw, jwtRequest token,
    by simp [identityGateway], rfl, hready, rfl, by decide, rfl, rfl, hver⟩

/-- The frames the gateway queues for a token. -/
def identityLog (token : Bytes) : List QueuedFrame :=
  requestLog (processRequest identityExt (identityGateway token) 0 false).2.toFlight

/-- The answers of the hello run, with the outcome of the HS256 check given. -/
def checkedExt (r : Option NtcJwtClaims) : Ext := { quietExt with jwt := hsAnswers r }

/-- The gateway when it asks the middleware. -/
def askingGateway (token : Bytes) : Gateway :=
  (identityGateway token).modConn 0 fun c => { c with
    acceptGzip :=
      sliceHas (ntcHttpHeader (jwtRequest token) (lit "accept-encoding")) (lit "gzip") }

/-- Whether one frame is queued and none before, given the outcome of the
    check. -/
def forwardsOne (token : Bytes) (r : Option NtcJwtClaims) : Bool :=
  let mid := runMiddleware (checkedExt r) (askingGateway token) 0
    { rbuf := identityBytes token } (jwtRequest token)
  mid.1.isNone && (requestLog (identityGateway token).toFlight).isEmpty &&
    (requestLog (gwDispatch identityExt mid.2 0 (jwtRequest token)).2.toFlight).length == 1

theorem ntcMwBefore_congr {J J' : JwtOps} {w : MwWorld} {m : NtcMw Float} {req : NtcRequest}
    {ip : Bytes} {now : Int} {pre : Bool} (h : mwAuth J w m req pre = mwAuth J' w m req pre) :
    ntcMwBefore J w m req ip now pre = ntcMwBefore J' w m req ip now pre := by
  rw [ntcMwBefore, ntcMwBefore, h]

theorem runMiddleware_checkedExt {token kid : Bytes} {r : Option NtcJwtClaims}
    (hpeek : ntcJwtPeekHeader token = some (lit "HS256", kid))
    (hr : ntcJwtVerifyHs256 noVerifiers token (lit "s3cret") 0 = r) :
    runMiddleware identityExt (askingGateway token) 0 { rbuf := identityBytes token }
      (jwtRequest token) = runMiddleware (checkedExt r) (askingGateway token) 0
        { rbuf := identityBytes token } (jwtRequest token) := by
  have hbefore : ∀ ip now, ntcMwBefore identityExt.jwt mwWorldZero jwtMw (jwtRequest token)
      ip now false = ntcMwBefore (checkedExt r).jwt mwWorldZero jwtMw (jwtRequest token) ip now
        false :=
    fun ip now => ntcMwBefore_congr (mwAuth_hsAnswers hpeek hr)
  have hmw : (askingGateway token).mw = some jwtMw := rfl
  have hhas : (askingGateway token).hasSessions = false := rfl
  have hworld : ∀ n, (identityExt.io n).mw = mwWorldZero ∧ (checkedExt r).io n = identityExt.io n :=
    fun _ => ⟨rfl, rfl⟩
  simp only [runMiddleware, Gateway.ask, sessionOf, hmw, hhas, (hworld _).1, (hworld _).2,
    Bool.false_and, Bool.false_eq_true, if_false, Option.isSome_none, hbefore]

theorem forwardsOne_log {token kid : Bytes} {r : Option NtcJwtClaims}
    (hpeek : ntcJwtPeekHeader token = some (lit "HS256", kid))
    (hr : ntcJwtVerifyHs256 noVerifiers token (lit "s3cret") 0 = r)
    (hready : frameRequest ntcConnRbuf (identityBytes token) false = .ready (jwtRequest token))
    (h : forwardsOne token r = true) :
    ∃ q, identityLog token = requestLog (identityGateway token).toFlight ++ [q] := by
  have hprocess : ∀ g, runMiddleware identityExt (askingGateway token) 0
      { rbuf := identityBytes token } (jwtRequest token) = (none, g) →
        processRequest identityExt (identityGateway token) 0 false =
          gwDispatch identityExt g 0 (jwtRequest token) := by
    intro g hg
    have hc : (identityGateway token).conns 0 = some { rbuf := identityBytes token } := rfl
    rw [askingGateway] at hg
    rw [processRequest, hc]
    dsimp only
    rw [show (identityGateway token).maxBody = ntcConnRbuf from rfl, hready]
    dsimp only
    rw [hg]
    rfl
  rw [forwardsOne, Bool.and_eq_true, Bool.and_eq_true, List.isEmpty_iff, beq_iff_eq,
    Option.isNone_iff_eq_none, ← runMiddleware_checkedExt hpeek hr] at h
  obtain ⟨⟨hnone, hempty⟩, hone⟩ := h
  obtain ⟨q, hq⟩ := List.length_eq_one_iff.mp hone
  refine ⟨q, ?_⟩
  rw [hempty, List.nil_append, ← hq, identityLog, hprocess _ (Prod.ext hnone rfl)]

/-- A token whose signature holds, and what is checked of its way through the
    gateway. -/
structure TokenRun (token payload : Bytes) (r : NtcJwtClaims) : Prop where
  peek : ntcJwtPeekHeader token = some (lit "HS256", [])
  check : ntcJwtVerifyHs256 noVerifiers token (lit "s3cret") 0 = some r
  auth : (mwAuth (hsAnswers (some r)) mwWorldZero jwtMw (jwtRequest token) false).1 =
    .verified r.sub r.scope
  ready : frameRequest ntcConnRbuf (identityBytes token) false = .ready (jwtRequest token)
  forwards : forwardsOne token (some r) = true
  decode : (jwtSplit token).bind (fun jp => ntcBase64urlDecode jp.p 4096) = some payload

theorem TokenRun.presents {token payload : Bytes} {r : NtcJwtClaims}
    (h : TokenRun token payload r) :
    Presents noVerifiers identityExt (identityGateway token) 0 false token := by
  refine presents_of h.ready ⟨r.sub, r.scope, ?_⟩
  rw [mwAuth_hsAnswers h.peek h.check]
  exact h.auth

theorem TokenRun.log {token payload : Bytes} {r : NtcJwtClaims} (h : TokenRun token payload r) :
    ∃ q, identityLog token = requestLog (identityGateway token).toFlight ++ [q] :=
  forwardsOne_log h.peek h.check h.ready h.forwards

/-- The claims of a token whose payload is the text of an object. -/
theorem TokenRun.claims {token payload : Bytes} {r : NtcJwtClaims} (h : TokenRun token payload r)
    {keys : List (List StrPiece)} {vals : List JsonDoc}
    (hobj : Derives 2 payload (.obj keys vals)) :
    ∃ jp buf n keys' vals', jwtSplit token = some jp ∧
      (∃ cap, ntcBase64urlDecode jp.p cap = some buf) ∧
      BeginsWith n buf (.obj keys' vals') ∧ keys.zip vals = keys'.zip vals' := by
  obtain ⟨jp, hjp, hdec⟩ := Option.bind_eq_some_iff.mp h.decode
  exact ⟨jp, _, 2, _, _, hjp, ⟨4096, hdec⟩, (TextOf.of_derives hobj).beginsWith, rfl⟩

/-- `{"sub":"ann","scope":"read write"}` signed with HS256. -/
def tokenScope : Bytes :=
  lit "eyJhbGciOiJIUzI1NiJ9.eyJzdWIiOiJhbm4iLCJzY29wZSI6InJlYWQgd3JpdGUifQ" ++
    lit ".PPh8MgZ2mvIpNv5ZgN01cGZ7Ig6V8SEle259FrAya6E"

def scopeFields : List (String × String) := [("sub", "ann"), ("scope", "read write")]

theorem tokenScope_run : TokenRun tokenScope (strObject scopeFields)
    ⟨.set 128 (lit "ann"), .set 256 (lit "read write"), 0, 0⟩ :=
  ⟨by decide +kernel, by decide +kernel, by decide +kernel, by decide +kernel,
    by decide +kernel, by decide +kernel⟩

theorem tokenClaims_scope :
    TokenClaims tokenScope (strFields scopeFields) (lit "ann") (lit "read write") :=
  ⟨tokenScope_run.claims (strObject_derives (List.cons_ne_nil _ _) (by decide)),
    ⟨by decide, by decide⟩, ⟨by decide, by decide⟩⟩

/-- `{"sub":"ann\u0000x"}` signed with HS256. -/
def tokenNul : Bytes :=
  lit "eyJhbGciOiJIUzI1NiJ9.eyJzdWIiOiJhbm5cdTAwMDB4In0" ++
    lit ".7zuqb-0igUD2uCIklfCtwxAAYRsBgfbDdigUW4vMAOc"

theorem tokenNul_run : TokenRun tokenNul (lit "\x7b\"sub\":\"ann\\u0000x\"\x7d")
    ⟨.set 128 (lit "ann"), .empty 256, 0, 0⟩ :=
  ⟨by decide +kernel, by decide +kernel, by decide +kernel, by decide +kernel,
    by decide +kernel, by decide +kernel⟩

/-- The identity `ann` arrives, with both items of its scope. -/
theorem forwarded_identity_scope :
    Presents noVerifiers identityExt (identityGateway tokenScope) 0 false tokenScope ∧
    TokenClaims tokenScope (strFields scopeFields) (lit "ann") (lit "read write") ∧
    ∃ q, identityLog tokenScope = requestLog (identityGateway tokenScope).toFlight ++ [q] ∧
      frameCarries q (IdentityKept (lit "ann") (lit "read write")) := by
  obtain ⟨q, hq⟩ := tokenScope_run.log
  refine ⟨tokenScope_run.presents, tokenClaims_scope, q, hq, ?_⟩
  refine (forwarded_identity_iff noVerifiers identityExt (identityGateway tokenScope) 0 false
    tokenScope_run.presents tokenClaims_scope hq).mpr
    ⟨.inr ⟨by decide, by decide, by decide, by decide⟩, ?_⟩
  refine .inr fun before qs after hitem _ => .inl ⟨?_, fun p hp => ?_⟩
  · have hlen : (codeString (before ++ qs)).length + (codeString after).length = 10 := by
      rw [← List.length_append, ← codeString_append, List.append_assoc, ← hitem.split]
      rfl
    have hcut : scopeCut (codeString (claimPieces (strFields scopeFields) (lit "scope"))) = 10 := by
      decide
    omega
  · have hmem : p ∈ plain "read write" := by
      rw [show plain "read write" = before ++ (qs ++ after) from hitem.split]
      exact List.mem_append_right _ (List.mem_append_left _ hp)
    obtain ⟨b, -, rfl⟩ := List.mem_map.mp hmem
    rfl

def nulSubject : List StrPiece := plain "ann" ++ [.unit 48 48 48 48, .raw 120]

def nulMembers : List (List StrPiece × JsonDoc) := [(plain "sub", .str nulSubject)]

theorem tokenClaims_nul : TokenClaims tokenNul nulMembers (lit "ann\x00x") [] := by
  refine ⟨?_, ⟨by decide, by decide⟩, ⟨by decide, by decide⟩⟩
  have hvalue : ∀ p ∈ nulSubject, p.Valid := by
    intro p hp
    rcases List.mem_append.mp hp with hp | hp
    · exact plain_valid (by decide) p hp
    · simp only [List.mem_cons, List.not_mem_nil, or_false] at hp
      rcases hp with rfl | rfl
      · exact rfl
      · exact ⟨by decide, by decide⟩
  have hkey := plain_valid (s := "sub") (by decide)
  have hobj : Derives 2 (lit "\x7b\"sub\":\"ann\\u0000x\"\x7d")
      (.obj [plain "sub"] [.str nulSubject]) :=
    ⟨rfl, _, rfl, .full (.one (strMember hkey hvalue))⟩
  exact tokenNul_run.claims hobj

/-- The subject `ann\0x` does not arrive. -/
theorem nul_in_subject_is_cut :
    Presents noVerifiers identityExt (identityGateway tokenNul) 0 false tokenNul ∧
    TokenClaims tokenNul nulMembers (lit "ann\x00x") [] ∧
    ∃ q, identityLog tokenNul = requestLog (identityGateway tokenNul).toFlight ++ [q] ∧
      ¬ frameCarries q (IdentityKept (lit "ann\x00x") []) := by
  obtain ⟨q, hq⟩ := tokenNul_run.log
  refine ⟨tokenNul_run.presents, tokenClaims_nul, q, hq, ?_⟩
  obtain ⟨jp, pj, hjp, hpay⟩ := tokenNul_run.presents.payload
  obtain ⟨jp', buf, n, keys, vals, hjp', hdec, htext, hms⟩ := tokenClaims_nul.payload
  obtain rfl : jp = jp' := Option.some.inj (hjp.symm.trans hjp')
  obtain rfl := jwtPayload_code hdec htext hpay
  rw [frameCarries_claims _ _ tokenNul_run.presents hjp hpay hq,
    jsonStrField_claim htext (ascii_of_all (by decide : (lit "sub").all _ = true)), ← hms,
    subjectFits_iff tokenClaims_nul.sub.text]
  rintro ⟨hnil | ⟨-, -, hfits⟩, -⟩
  · exact absurd hnil (by decide)
  · exact hfits.2 (by decide)

end Naitron
