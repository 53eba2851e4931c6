/-
  Naitron.Server.Validation

  What follows a failed body validation.

  `gw_validate_body` answers 400 and returns what `respond_and_flush` returns;
  `gw_dispatch` stops only when that is negative.  It is negative when the
  reply went out or failed, since both close the connection, and zero when
  the client's socket would block (`flushStalls`): then the rejected request
  is forwarded, or answered a second time.
-/

import Naitron.Server.Batch

namespace Naitron

variable (E : Ext)

-- ============================================================================
-- Flushing a reply
-- ============================================================================

/-- A stream that a send loop left so is still open: it blocked, or it is
    drained and goes on, with the poller told. -/
def streamStalls (ended ok : Bool) : SendEnd → Bool
  | .failed => false
  | .blocked => true
  | .done => !ended && ok

/-- The client's side stops taking bytes before the write buffer is through:
    what the answers from `tick` on make of a flush. -/
def flushStalls (c : Conn) (tick : Nat) : Bool :=
  if c.tls then
    (tlsLoop c.streaming c.streamEnded (if c.streaming then c.swbuf else c.wbuf).length
        (E.io tick).rounds (if c.streaming then c.swsent else c.wsent)).1 != .closed
      && (E.io (tick + 1)).ok
  else if !(E.io tick).ok then false
  else if c.streaming then
    streamStalls c.streamEnded (E.io (tick + 2)).ok
      (sendLoop c.swbuf.length (E.io (tick + 1)).sends c.swsent).1
  else (sendLoop c.wbuf.length (E.io (tick + 1)).sends c.wsent).1 == .blocked

/-- Responses and controller connections are as before. -/
structure Untold (f f' : Flight) : Prop where
  replies : f'.replies = f.replies
  ctrls : f'.ctrls = f.ctrls

theorem Untold.refl (f : Flight) : Untold f f := ⟨rfl, rfl⟩

theorem Untold.trans {f f' f'' : Flight} (h : Untold f f') (h' : Untold f' f'') : Untold f f'' :=
  ⟨h'.replies.trans h.replies, h'.ctrls.trans h.ctrls⟩

theorem ask_fst (g : Gateway) : (g.ask E).1 = E.io g.tick := rfl

theorem modConn_untold (g : Gateway) (k : ConnId) (F : Conn → Conn) :
    Untold g.toFlight (g.modConn k F).toFlight := by
  unfold Gateway.modConn
  split <;> exact ⟨rfl, rfl⟩

theorem emit_untold (g : Gateway) (k : ConnId) (out : Bytes) :
    Untold g.toFlight (g.emit k out).toFlight := ⟨rfl, rfl⟩

/-- Closing a connection that is not in flight tells no controller. -/
theorem connClose_untold {g : Gateway} {k : ConnId} (h : NotInflight g.toFlight k) :
    Untold g.toFlight (connClose E g k).toFlight := by
  unfold connClose
  split
  · exact .refl _
  · rename_i c hc
    have hin : c.inflight = false := h c hc
    have hnotify : notifyWsClose E g k c = g := by
      unfold notifyWsClose
      split <;> simp [hin]
    rw [hnotify, hin]
    exact ⟨rfl, rfl⟩

theorem onWritableAtomic_spec {g : Gateway} {k : ConnId} (h : NotInflight g.toFlight k) (c : Conn) :
    Untold g.toFlight (onWritableAtomic E g k c).2.toFlight ∧
      ((onWritableAtomic E g k c).1 = .zero ↔
        (sendLoop c.wbuf.length (g.ask E).1.sends c.wsent).1 = .blocked) := by
  unfold onWritableAtomic
  dsimp only
  split
  · rename_i hend
    exact ⟨(emit_untold (g.ask E).2 k _).trans (connClose_untold E h), by simp [hend]⟩
  · rename_i hend
    exact ⟨(emit_untold (g.ask E).2 k _).trans (modConn_untold _ k _), by simp [hend]⟩
  · rename_i hend
    exact ⟨(emit_untold (g.ask E).2 k _).trans (connClose_untold E h), by simp [hend]⟩

theorem onWritableStream_spec {g : Gateway} {k : ConnId} (h : NotInflight g.toFlight k) (c : Conn) :
    Untold g.toFlight (onWritableStream E g k c).2.toFlight ∧
      ((onWritableStream E g k c).1 = .zero ↔
        streamStalls c.streamEnded (E.io (g.tick + 1)).ok
          (sendLoop c.swbuf.length (g.ask E).1.sends c.swsent).1 = true) := by
  unfold onWritableStream
  dsimp only
  split
  · rename_i hend
    exact ⟨(emit_untold (g.ask E).2 k _).trans (connClose_untold E h), by simp [hend, streamStalls]⟩
  · rename_i hend
    exact ⟨(emit_untold (g.ask E).2 k _).trans (modConn_untold _ k _), by simp [hend, streamStalls]⟩
  · rename_i hend
    have hdrain := (emit_untold (g.ask E).2 k (slicePart c.swbuf c.swsent
      (sendLoop c.swbuf.length (g.ask E).1.sends c.swsent).2)).trans
        (modConn_untold _ k fun c => { c with swbuf := [], swsent := 0 })
    have hfree : NotInflight (((g.ask E).2.emit k (slicePart c.swbuf c.swsent
        (sendLoop c.swbuf.length (g.ask E).1.sends c.swsent).2)).modConn k
          fun c => { c with swbuf := [], swsent := 0 }).toFlight k :=
      Moves.own_notInflight (modConn_moves' fun c => .of_state rfl rfl rfl rfl rfl)
        (Moves.own_notInflight (emit_moves (g.ask E).2 k _) h)
    have htick : (((g.ask E).2.emit k (slicePart c.swbuf c.swsent
        (sendLoop c.swbuf.length (g.ask E).1.sends c.swsent).2)).modConn k
          fun c => { c with swbuf := [], swsent := 0 }).tick = g.tick + 1 := modConn_tick _ k _
    split
    · rename_i hended
      exact ⟨hdrain.trans (connClose_untold E hfree), by simp [hend, streamStalls, hended]⟩
    · rename_i hended
      split
      · rename_i hok
        rw [ask_fst, htick] at hok
        exact ⟨hdrain, by simp [hend, streamStalls, hended, hok]⟩
      · rename_i hok
        rw [ask_fst, htick] at hok
        exact ⟨hdrain.trans (connClose_untold E (g := (Gateway.ask E _).2) hfree),
          by simp [hend, streamStalls, hok]⟩

theorem tlsDriveWrite_spec {g : Gateway} {k : ConnId} (h : NotInflight g.toFlight k) (c : Conn) :
    Untold g.toFlight (tlsDriveWrite E g k c).2.toFlight ∧
      ((tlsDriveWrite E g k c).1 = .zero ↔
        (tlsLoop c.streaming c.streamEnded (if c.streaming then c.swbuf else c.wbuf).length
          (g.ask E).1.rounds (if c.streaming then c.swsent else c.wsent)).1 ≠ .closed) := by
  unfold tlsDriveWrite
  dsimp only
  split
  · rename_i hend
    exact ⟨(emit_untold (g.ask E).2 k _).trans (connClose_untold E h), by simp [hend]⟩
  · rename_i hend
    exact ⟨(emit_untold (g.ask E).2 k _).trans (modConn_untold _ k _), by simp [hend]⟩
  · rename_i hend
    exact ⟨(emit_untold (g.ask E).2 k _).trans (modConn_untold _ k _), by simp [hend]⟩

/-- The tick of a gateway after a TLS write that kept the connection. -/
theorem tlsDriveWrite_tick {g g' : Gateway} {k : ConnId} {c : Conn}
    (h : tlsDriveWrite E g k c = (.zero, g')) : g'.tick = g.tick + 1 := by
  unfold tlsDriveWrite at h
  dsimp only at h
  split at h
  · cases h
  · cases h
    exact modConn_tick _ k _
  · cases h
    exact modConn_tick _ k _

/-- A flush starts no response, tells no controller, and returns zero exactly
    when the client's side stalls. -/
theorem connFlush_spec {g : Gateway} {k : ConnId} {c : Conn} (hc : g.conns k = some c)
    (h : NotInflight g.toFlight k) :
    Untold g.toFlight (connFlush E g k).2.toFlight ∧
      ((connFlush E g k).1 = .zero ↔ flushStalls E c g.tick = true) := by
  unfold connFlush flushStalls
  simp only [hc]
  cases htls : c.tls with
  | true =>
      obtain ⟨hun, hzero⟩ := tlsDriveWrite_spec E h c
      have hfree := Moves.own_notInflight (tlsDriveWrite_moves E g k c) h
      simp only [if_true]
      split
      · rename_i g' hres
        rw [hres] at hun hzero
        refine ⟨hun, ?_⟩
        have hclosed := not_not.mp (mt hzero.mpr (by simp))
        rw [show (E.io g.tick).rounds = (g.ask E).1.rounds from rfl, hclosed]
        simp
      · rename_i g' hres
        rw [hres] at hun hzero hfree
        have hopen := hzero.mp rfl
        rw [show (E.io g.tick).rounds = (g.ask E).1.rounds from rfl, bne_iff_ne.mpr hopen,
          ← tlsDriveWrite_tick E hres]
        unfold tlsSetInterest
        dsimp only
        split
        · rename_i hok
          exact ⟨hun, by simpa [Gateway.ask] using hok⟩
        · rename_i hok
          exact ⟨hun.trans (connClose_untold E (g := (g'.ask E).2) hfree),
            by simpa [Gateway.ask] using hok⟩
  | false =>
      simp only [Bool.false_eq_true, if_false]
      cases hok : (E.io g.tick).ok with
      | false =>
          simp only [Gateway.ask, hok, Bool.false_eq_true, if_false]
          exact ⟨connClose_untold E (g := (g.ask E).2) h, by simp⟩
      | true =>
          simp only [Gateway.ask, hok, if_true]
          unfold onWritable
          rw [show ({ g with tick := g.tick + 1 } : Gateway).conns k = some c from hc]
          simp only [htls, Bool.false_eq_true, if_false]
          cases hstream : c.streaming with
          | true =>
              simp only [if_true]
              exact onWritableStream_spec E (g := (g.ask E).2) h c
          | false =>
              simp only [Bool.not_true, Bool.false_eq_true, if_false, beq_iff_eq]
              exact onWritableAtomic_spec E (g := (g.ask E).2) h c

/-! ### A zero return leaves the connection there -/

theorem modConn_isSome (g : Gateway) (k : ConnId) (F : Conn → Conn) :
    ((g.modConn k F).conns k).isSome = (g.conns k).isSome := by
  unfold Gateway.modConn
  split
  · rfl
  · rename_i c hc
    simp [hc]

theorem onWritableAtomic_open {g : Gateway} {k : ConnId} (c : Conn) (h : (g.conns k).isSome) :
    (onWritableAtomic E g k c).1 = .zero → ((onWritableAtomic E g k c).2.conns k).isSome := by
  unfold onWritableAtomic
  dsimp only
  split
  · intro hz
    cases hz
  · exact fun _ => (modConn_isSome ((g.ask E).2.emit k _) k _).trans h
  · intro hz
    cases hz

theorem onWritableStream_open {g : Gateway} {k : ConnId} (c : Conn) (h : (g.conns k).isSome) :
    (onWritableStream E g k c).1 = .zero → ((onWritableStream E g k c).2.conns k).isSome := by
  unfold onWritableStream
  dsimp only
  split
  · intro hz
    cases hz
  · exact fun _ => (modConn_isSome ((g.ask E).2.emit k _) k _).trans h
  · split
    · intro hz
      cases hz
    · split
      · exact fun _ => (modConn_isSome ((g.ask E).2.emit k _) k _).trans h
      · intro hz
        cases hz

theorem tlsDriveWrite_open {g : Gateway} {k : ConnId} (c : Conn) (h : (g.conns k).isSome) :
    (tlsDriveWrite E g k c).1 = .zero → ((tlsDriveWrite E g k c).2.conns k).isSome := by
  unfold tlsDriveWrite
  dsimp only
  split
  · intro hz
    cases hz
  · exact fun _ => (modConn_isSome ((g.ask E).2.emit k _) k _).trans h
  · exact fun _ => (modConn_isSome ((g.ask E).2.emit k _) k _).trans h

theorem onWritable_open {g : Gateway} {k : ConnId} (h : (g.conns k).isSome) :
    (onWritable E g k).1 = .zero → ((onWritable E g k).2.conns k).isSome := by
  unfold onWritable
  split
  · intro hz
    cases hz
  · split
    · exact tlsDriveWrite_open E _ h
    · split
      · exact onWritableStream_open E _ h
      · exact onWritableAtomic_open E _ h

theorem connFlush_open {g : Gateway} {k : ConnId} (h : (g.conns k).isSome) :
    (connFlush E g k).1 = .zero → ((connFlush E g k).2.conns k).isSome := by
  unfold connFlush
  split
  · intro hz
    cases hz
  · rename_i c _
    split
    · have hdrive := tlsDriveWrite_open E c h
      split
      · intro hz
        cases hz
      · rename_i hres
        rw [hres] at hdrive
        unfold tlsSetInterest
        dsimp only
        split
        · exact fun _ => hdrive rfl
        · intro hz
          cases hz
    · dsimp only
      split
      · exact onWritable_open E (g := (g.ask E).2) h
      · intro hz
        cases hz

/-- The bytes of a reply, `none` when it cannot be produced: what the answers
    at `tick` and after it make of `conn_respond`. -/
def replyBytes (c : Conn) (tick status : Nat) (body : Bytes) : Option Bytes :=
  let z := gzipBody E c (E.io tick).ok ctJson body
  if (E.io (tick + 1)).ok then ntcHttpFormatResponseEx status ctJson z.2.bytes z.1 else none

/-- A reply that is produced counts once, tells no controller, and returns
    zero exactly when the client's side stalls, with the connection still
    there. -/
theorem respondAndFlush_spec {g : Gateway} {k : ConnId} {c : Conn} (hc : g.conns k = some c)
    (hfree : c.inflight = false) {status : Nat} {body resp : Bytes}
    (hresp : replyBytes E c g.tick status body = some resp) :
    (respondAndFlush E g k status body).2.ctrls = g.ctrls ∧
      (respondAndFlush E g k status body).2.replies k = g.replies k + 1 ∧
      ((respondAndFlush E g k status body).1 = .zero ↔
        flushStalls E { c with wbuf := resp, wsent := 0 } (g.tick + 2) = true) ∧
      ((respondAndFlush E g k status body).1 = .zero →
        ((respondAndFlush E g k status body).2.conns k).isSome) := by
  unfold replyBytes at hresp
  dsimp only at hresp
  split at hresp
  · rename_i hok
    have hrespond : (connRespond E g k status ctJson body).1 = .zero ∧
        (connRespond E g k status ctJson body).2.ctrls = g.ctrls ∧
        (connRespond E g k status ctJson body).2.replies k = g.replies k + 1 ∧
        (connRespond E g k status ctJson body).2.tick = g.tick + 2 ∧
        ∃ hdrs, (connRespond E g k status ctJson body).2.conns k = some { c with
          extraHeaders := hdrs, wbuf := resp, wsent := 0, state := .csWrite } := by
      simp [connRespond, Gateway.ask, hc, hresp, hok, Gateway.modConn, Gateway.noteReply]
    rcases hres : connRespond E g k status ctJson body with ⟨rc, g'⟩
    rw [hres] at hrespond
    obtain ⟨rfl, hctrls, hreplies, htick, hdrs, hconn⟩ := hrespond
    have hnot : NotInflight g'.toFlight k := by
      intro d hd
      rw [hconn] at hd
      cases hd
      exact hfree
    obtain ⟨hun, hzero⟩ := connFlush_spec E hconn hnot
    rw [respondAndFlush, sendResp, hres]
    dsimp only
    rw [htick] at hzero
    exact ⟨hun.ctrls.trans hctrls, by rw [hun.replies, hreplies], hzero,
      connFlush_open E (by rw [hconn]; rfl)⟩
  · cases hresp

-- ============================================================================
-- After a reply that stalled
-- ============================================================================

theorem Micro.own_issued {f f' : Flight} {k : ConnId} {l : Label} (hm : Micro f l f')
    (h : Own k l) : f'.issued = f.issued := by
  cases hm with
  | alloc | bounce => cases h
  | _ => rfl

theorem Moves.own_issued {f f' : Flight} {k : ConnId} (hm : Moves (Own k) f f') :
    f'.issued = f.issued :=
  hm.keep (I := fun x => x.issued = f.issued) (fun hl hm hs => (hm.own_issued hl).trans hs) rfl

/-- The head of a short JSON reply of the gateway fits its buffer. -/
theorem ntcHttpFormatResponseEx_short {status : Nat}
    (hs : status = 400 ∨ status = 500 ∨ status = 503) (hdrs : CStr 512) {body : Bytes}
    (hbody : body.length < 100) :
    ∃ resp, ntcHttpFormatResponseEx status ctJson hdrs.bytes body = some resp := by
  have hlines : (statusLines status).length ≤ 100 := by
    rcases hs with rfl | rfl | rfl <;> decide +kernel
  have hctype : (cstr ctJson).length = 16 := by decide +kernel
  have hdec : ∀ n < 100, (decimal n).length ≤ 2 := by decide +kernel
  have hlits : (lit "Content-Type: ").length = 14 ∧ (lit "Content-Length: ").length = 16 ∧
      (lit "Connection: close\r\n").length = 19 ∧ crlf.length = 2 := by decide +kernel
  have hfits : (responseHead status ctJson hdrs.bytes body.length).length < httpHeadCap := by
    have hext := hdrs.fits
    have hlen := hdec body.length hbody
    simp only [responseHead, List.length_append, hctype, hlits.1, hlits.2.1, hlits.2.2.1,
      hlits.2.2.2, httpHeadCap]
    omega
  rw [ntcHttpFormatResponseEx, if_neg (not_le.mpr hfits)]
  exact ⟨_, rfl⟩

theorem replyBytes_short (hok : ∀ n, (E.io n).ok = true) (c : Conn) (tick : Nat) {status : Nat}
    (hs : status = 400 ∨ status = 500 ∨ status = 503) {body : Bytes} (hbody : body.length < 100) :
    ∃ resp, replyBytes E c tick status body = some resp := by
  have hplain : gzipBody E c (E.io tick).ok ctJson body = (body, c.extraHeaders) := by
    have hmin : ¬ ntcGzipMin ≤ body.length := by
      rw [ntcGzipMin]
      omega
    simp [gzipBody, hmin]
  unfold replyBytes
  rw [hplain, if_pos (hok _)]
  exact ntcHttpFormatResponseEx_short hs c.extraHeaders hbody

/-- With memory to spare, such a reply counts as a response. -/
theorem respondAndFlush_counts {g : Gateway} {k : ConnId} {c : Conn} (hc : g.conns k = some c)
    (hfree : c.inflight = false) (hok : ∀ n, (E.io n).ok = true) {status : Nat}
    (hs : status = 400 ∨ status = 500 ∨ status = 503) {body : Bytes} (hbody : body.length < 100) :
    (respondAndFlush E g k status body).2.replies k = g.replies k + 1 := by
  obtain ⟨resp, hresp⟩ := replyBytes_short E hok c g.tick hs hbody
  exact (respondAndFlush_spec E hc hfree hresp).2.1

/-- An id was issued, or a response started. -/
def Told (k : ConnId) (f f' : Flight) : Prop :=
  f'.issued ≠ f.issued ∨ f'.replies k = f.replies k + 1

theorem pickTarget_eq {g g₁ : Gateway} {svc : Nat} {target : CtrlId}
    (h : pickTarget g svc = some (target, g₁)) :
    g₁.conns = g.conns ∧ g₁.replies = g.replies ∧ g₁.issued = g.issued := by
  unfold pickTarget at h
  split at h
  · cases h
  · split at h
    · cases h
    · obtain ⟨_, -, heq⟩ := Option.map_eq_some_iff.mp h
      cases heq
      exact ⟨rfl, rfl, rfl⟩

theorem gwAllocId_issued {g g₁ : Gateway} {k : ConnId} {id : Nat}
    (h : gwAllocId g k = some (id, g₁)) : ∃ e, g₁.issued = e :: g.issued := by
  unfold gwAllocId at h
  split at h
  · cases h
  · cases h
    exact ⟨_, rfl⟩

theorem told_of_cons {k : ConnId} {f f' : Flight} {e : Issue} (h : f'.issued = e :: f.issued) :
    Told k f f' := by
  left
  rw [h]
  exact List.cons_ne_self e f.issued

theorem ctrlQueue_ok (hok : ∀ n, (E.io n).ok = true) (g : Gateway) (ct : CtrlId) (k : ConnId)
    (type : NtcMsgType) (rid : Nat) (payload : Bytes) :
    (ctrlQueue E g ct k type rid payload).1 = .zero := by
  simp [ctrlQueue, Gateway.ask, hok]

theorem ctrlQueue_issued (g : Gateway) (ct : CtrlId) (k : ConnId) (type : NtcMsgType) (rid : Nat)
    (payload : Bytes) : (ctrlQueue E g ct k type rid payload).2.issued = g.issued := by
  rcases ctrlQueue_cases E g ct k type rid payload with ⟨_, _, _, _, _, heq⟩ | ⟨_, _, heq⟩ | ⟨_, heq⟩
  all_goals rw [heq]

/-- The common end of `gw_forward` and `gw_ws_upgrade`: with memory to spare
    an id is issued or the request is refused. -/
theorem forward_tells {g : Gateway} {k : ConnId} {c : Conn} (hc : g.conns k = some c)
    (hfree : c.inflight = false) (hok : ∀ n, (E.io n).ok = true) (type : NtcMsgType)
    (target : CtrlId) (enc? : Option Bytes) (finish : Nat → Gateway → Rc × Gateway)
    (hfinish : ∀ id g, (finish id g).2.issued = g.issued) :
    Told k g.toFlight
      (match enc? with
        | none => respondAndFlush E g k 500 (lit "\x7b\"error\":\"encode failed\"\x7d")
        | some enc =>
            match gwAllocId g k with
            | none => respondAndFlush E g k 503 (lit "\x7b\"error\":\"too many in-flight\"\x7d")
            | some (id, g) =>
                match ctrlQueue E g target k type id enc with
                | (.neg, g) =>
                    respondAndFlush E (gwFreeSlot g (idSlot id)) k 503
                      (lit "\x7b\"error\":\"queue full\"\x7d")
                | (.zero, g) => finish id g).2.toFlight := by
  split
  · exact Or.inr (respondAndFlush_counts E hc hfree hok (Or.inr (Or.inl rfl)) (by decide +kernel))
  · rename_i enc
    split
    · exact Or.inr (respondAndFlush_counts E hc hfree hok (Or.inr (Or.inr rfl)) (by decide +kernel))
    · rename_i id g₁ halloc
      obtain ⟨e, he⟩ := gwAllocId_issued halloc
      split
      · rename_i hq
        have hzero := ctrlQueue_ok E hok g₁ target k type id enc
        rw [hq] at hzero
        cases hzero
      · rename_i g₂ hq
        have hkeep : g₂.issued = g₁.issued := by
          have := ctrlQueue_issued E g₁ target k type id enc
          rw [hq] at this
          exact this
        refine told_of_cons (e := e) ?_
        rw [hfinish, hkeep, he]

theorem modConn_issued (g : Gateway) (k : ConnId) (F : Conn → Conn) :
    (g.modConn k F).issued = g.issued := by
  unfold Gateway.modConn
  split <;> rfl

theorem gwForward_tells {g : Gateway} {k : ConnId} {c : Conn} (hc : g.conns k = some c)
    (hfree : c.inflight = false) (hok : ∀ n, (E.io n).ok = true) (req : NtcRequest) (svc : Nat) :
    Told k g.toFlight (gwForward E g k req svc).2.toFlight := by
  unfold gwForward
  split
  · exact Or.inr (respondAndFlush_counts E hc hfree hok (Or.inr (Or.inr rfl)) (by decide +kernel))
  · rename_i target g₁ hpick
    obtain ⟨hconns, hreplies, hissued⟩ := pickTarget_eq hpick
    rw [← hconns] at hc
    have htell := forward_tells E (g := (g₁.ask E).2) hc hfree hok .request target
      (ntcWireEncodeRequest req encodeCap) (fun id g => (.zero, g.modConn k fun c =>
        { c with state := .csWait, reqId := id, inflight := true, waitCtrl := some target }))
      fun id g => modConn_issued g k _
    have hmem : (g₁.ask E).1.ok = true := hok _
    unfold Told at htell ⊢
    simp only [hmem, Bool.not_true, Bool.false_eq_true, if_false]
    rw [← hreplies, ← hissued]
    exact htell

theorem gwWsUpgrade_tells {g : Gateway} {k : ConnId} {c : Conn} (hc : g.conns k = some c)
    (hfree : c.inflight = false) (hok : ∀ n, (E.io n).ok = true) (req : NtcRequest) (svc : Nat) :
    Told k g.toFlight (gwWsUpgrade E g k req svc).2.toFlight := by
  unfold gwWsUpgrade
  simp only [hc]
  split
  · exact Or.inr (respondAndFlush_counts E hc hfree hok (Or.inl rfl) (by decide +kernel))
  · split
    · exact Or.inr
        (respondAndFlush_counts E hc hfree hok (Or.inr (Or.inr rfl)) (by decide +kernel))
    · rename_i target g₁ hpick
      obtain ⟨hconns, hreplies, hissued⟩ := pickTarget_eq hpick
      rw [← hconns] at hc
      unfold Told
      rw [← hreplies, ← hissued]
      split
      · exact Or.inr (respondAndFlush_counts E hc hfree hok (Or.inl rfl) (by decide +kernel))
      · have hmem : (g₁.ask E).1.ok = true := hok _
        simp only [hmem, Bool.not_true, Bool.false_eq_true, if_false]
        refine forward_tells E (g := (g₁.ask E).2) hc hfree hok .wsOpen target
          (ntcWireEncodeRequest req encodeCap) (fun id g => streamPush E
            ((g.modConn k fun c =>
              { c with
                reqId := id, inflight := true, waitCtrl := some target
                isWs := true, streaming := true, streamHeadSent := true
                state := .csWs, rbuf := [] }).noteReply k) k
            (upgradeHead (E.wsAcceptKey (ntcHttpHeader req (lit "sec-websocket-key"))))) ?_
        intro id g
        rw [Moves.own_issued (streamPush_moves E _ k _)]
        exact modConn_issued g k _

-- ============================================================================
-- Rejected requests
-- ============================================================================

/-- No id issued, nothing handed to a controller, and one response. -/
structure RejectedOnly (k : ConnId) (f f' : Flight) : Prop where
  issued : f'.issued = f.issued
  ctrls : f'.ctrls = f.ctrls
  replies : f'.replies k = f.replies k + 1

/-- The request resolves to a forward route, and its body fails validation
    with the given 400 reply. -/
structure FailsValidation (g : Gateway) (req : NtcRequest) (body : Bytes) : Prop where
  notAuth : (g.oauthEnabled && ntcSliceStartsWith req.path (lit "/auth/")) = false
  notReserved : ntcSliceStartsWith req.path (lit "/_ntc/") = false
  route : ∃ rt params svc, ntcRouterMatch g.router req.method req.path = .found rt params ∧
    rt.handler = .forward svc
  invalid : validationReply g.schemaRoot req (E.io g.tick).ok = some body

theorem gwDispatch_forward {g : Gateway} {k : ConnId} {req : NtcRequest} {body : Bytes}
    (h : FailsValidation E g req body) :
    ∃ params svc, gwDispatch E g k req = dispatchForward E g k req params svc := by
  obtain ⟨rt, params, svc, hmatch, hfwd⟩ := h.route
  refine ⟨params, svc, ?_⟩
  rw [gwDispatch, h.notAuth, h.notReserved]
  simp only [Bool.false_eq_true, if_false, hmatch, hfwd]

theorem gwValidateBody_fails {g : Gateway} {k : ConnId} {req : NtcRequest} {body : Bytes}
    (h : FailsValidation E g req body) :
    gwValidateBody E g k req = respondAndFlush E (g.ask E).2 k 400 body := by
  have hinv : validationReply (g.ask E).2.schemaRoot req (g.ask E).1.ok = some body := h.invalid
  unfold gwValidateBody
  dsimp only
  rw [hinv]

/-- A request that fails validation, with its 400 reply produced, is dropped
    after that one reply if the client's side does not stall during it; and
    with memory to spare, only then. -/
theorem failed_validation_stops_iff {g : Gateway} {k : ConnId} {c : Conn}
    (hc : g.conns k = some c) (hfree : c.inflight = false) {req : NtcRequest} {body resp : Bytes}
    (hfail : FailsValidation E g req body)
    (hresp : replyBytes E c (g.tick + 1) 400 body = some resp) :
    (flushStalls E { c with wbuf := resp, wsent := 0 } (g.tick + 3) = false →
      RejectedOnly k g.toFlight (gwDispatch E g k req).2.toFlight) ∧
    ((∀ n, (E.io n).ok = true) →
      (RejectedOnly k g.toFlight (gwDispatch E g k req).2.toFlight ↔
        flushStalls E { c with wbuf := resp, wsent := 0 } (g.tick + 3) = false)) := by
  obtain ⟨params, svc, hdispatch⟩ := gwDispatch_forward E (k := k) hfail
  have hvalidate := gwValidateBody_fails E (k := k) hfail
  obtain ⟨hctrls, hreplies, hzero, hopen⟩ :=
    respondAndFlush_spec E (g := (g.ask E).2) hc hfree hresp
  rw [show (g.ask E).2.tick + 2 = g.tick + 3 from rfl] at hzero
  have hmoves := respondAndFlush_moves E (g.ask E).2 k 400 body
  have hissued := Moves.own_issued hmoves
  have hstill := Moves.own_notInflight hmoves
    (fun d hd => by cases hc.symm.trans hd; exact hfree)
  have hrun : (gwDispatch E g k req).2 = _ := congrArg Prod.snd (hdispatch.trans rfl)
  unfold dispatchForward at hrun
  rw [hvalidate] at hrun
  rcases hres : respondAndFlush E (g.ask E).2 k 400 body with ⟨rc, g₁⟩
  rw [hres] at hctrls hreplies hzero hopen hissued hstill hrun
  have hstop : flushStalls E { c with wbuf := resp, wsent := 0 } (g.tick + 3) = false →
      RejectedOnly k g.toFlight (gwDispatch E g k req).2.toFlight := by
    intro hgo
    cases rc with
    | zero => exact absurd (hzero.mp rfl) (by rw [hgo]; simp)
    | neg =>
        rw [hrun]
        exact ⟨hissued, hctrls, hreplies⟩
  refine ⟨hstop, fun hok => ⟨fun hrej => ?_, hstop⟩⟩
  -- a stalled reply lets the request go on, to an id or to a second response
  by_contra hstall
  obtain rfl : rc = .zero := hzero.mpr (Bool.eq_true_of_not_eq_false hstall)
  obtain ⟨c₁, hat⟩ := Option.isSome_iff_exists.mp (hopen rfl)
  have hc₁ : g₁.conns k = some c₁ := hat
  have htell : Told k g₁.toFlight (gwDispatch E g k req).2.toFlight := by
    rw [hrun]
    simp only [hc₁]
    split
    · exact gwWsUpgrade_tells E hc₁ (hstill c₁ hc₁) hok _ _
    · exact gwForward_tells E hc₁ (hstill c₁ hc₁) hok _ _
  rcases htell with hnew | hsecond
  · exact hnew (hrej.issued.trans hissued.symm)
  · rw [hrej.replies, hreplies] at hsecond
    simp [Gateway.ask] at hsecond

/-! ## A body that is not JSON -/

/-- The services of the run above behind a route with a schema, and a client
    connected. -/
def usersConnected (E : Ext) : Gateway :=
  step E (startServices E { bootGateway helloServices [usersRoute] (.set 65 (lit "secret")) with
    schemaRoot := some [(lit "POST /users", fun _ => .badJson)] }) helloConnect

/-- The client's request. -/
def usersRequest : NtcRequest :=
  { method := lit "POST", target := lit "/users", path := lit "/users", minorVersion := 1
    headers := [⟨lit "Content-Length", lit "8"⟩]
    hasContentLength := true, contentLength := 8, body := lit "not json" }

/-- What it is answered. -/
def usersReply : Bytes := lit "\x7b\"error\":\"invalid JSON body\"\x7d"

/-- A connection as it is accepted. -/
def acceptedConn : Conn := { isAdmin := false, tls := false, clientIp := .empty 46 }

theorem Fresh.withSchemas {g : Gateway} (h : Fresh g)
    (root : Option (List (Bytes × (Bytes → Verdict)))) : Fresh { g with schemaRoot := root } :=
  ⟨h.conns, h.ctrls, h.noReplica, h.slots, h.issued, h.received, h.delivered, h.queued⟩

theorem usersRequest_fails
    (hauth : (usersConnected E).oauthEnabled = false)
    (hmatch : ntcRouterMatch (usersConnected E).router usersRequest.method usersRequest.path =
      .found usersRoute [])
    (hreply : validationReply (usersConnected E).schemaRoot usersRequest
      (E.io (usersConnected E).tick).ok = some usersReply) :
    FailsValidation E (usersConnected E) usersRequest usersReply where
  notAuth := by rw [hauth, Bool.false_and]
  notReserved := by decide +kernel
  route := ⟨usersRoute, [], 0, hmatch, rfl⟩
  invalid := hreply

/-- A client that takes its 400 ends the request there. -/
theorem failed_validation_stops_users :
    (replyBytes eagerExt acceptedConn ((usersConnected eagerExt).tick + 1) 400 usersReply).isSome ∧
      RejectedOnly 0 (usersConnected eagerExt).toFlight
        (gwDispatch eagerExt (usersConnected eagerExt) 0 usersRequest).2.toFlight := by
  have hsome : (replyBytes eagerExt acceptedConn ((usersConnected eagerExt).tick + 1) 400
      usersReply).isSome := by decide +kernel
  refine ⟨hsome, ?_⟩
  obtain ⟨resp, hresp⟩ := Option.isSome_iff_exists.mp hsome
  have hgo : (replyBytes eagerExt acceptedConn ((usersConnected eagerExt).tick + 1) 400
      usersReply).all (fun resp => flushStalls eagerExt
        { acceptedConn with wbuf := resp, wsent := 0 }
        ((usersConnected eagerExt).tick + 3) == false) := by decide +kernel
  rw [hresp, Option.all_some, beq_iff_eq] at hgo
  exact (failed_validation_stops_iff eagerExt (k := 0) (c := acceptedConn) (by decide +kernel) rfl
    (usersRequest_fails eagerExt (by decide +kernel) (by decide +kernel) (by decide +kernel))
    hresp).1 hgo

/-- A client whose socket would block has its rejected request forwarded. -/
theorem gwDispatch_forwards_rejected :
    ¬ ∀ (E : Ext) (g : Gateway), Reachable E g → ∀ (k : ConnId) (c : Conn) (req : NtcRequest)
      (body resp : Bytes), g.conns k = some c → c.state = .csRead → FailsValidation E g req body →
      replyBytes E c (g.tick + 1) 400 body = some resp →
      RejectedOnly k g.toFlight (gwDispatch E g k req).2.toFlight := by
  intro h
  have hreach : Reachable quietExt (usersConnected quietExt) :=
    .step _ _ (.start _ ((bootGateway_fresh helloServices_idle _ _).withSchemas _)) trivial
  have hsome : (replyBytes quietExt acceptedConn ((usersConnected quietExt).tick + 1) 400
      usersReply).isSome := by decide +kernel
  obtain ⟨resp, hresp⟩ := Option.isSome_iff_exists.mp hsome
  have hrej := h quietExt (usersConnected quietExt) hreach 0 acceptedConn usersRequest usersReply
    resp (by decide +kernel) rfl
    (usersRequest_fails quietExt (by decide +kernel) (by decide +kernel) (by decide +kernel)) hresp
  have hnew : (gwDispatch quietExt (usersConnected quietExt) 0 usersRequest).2.issued ≠
      (usersConnected quietExt).issued := by decide +kernel
  exact hnew hrej.issued

end Naitron
