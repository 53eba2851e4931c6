/-
  Naitron.Server.Failure

  Frames in an environment that fails.

  A frame with an effect on a connection can end it: without memory for what
  the frame makes the gateway write (`Ext.starved`), or, for a WebSocket
  message, with a client socket that reports an error (`Ext.broken`).  So
  whether a frame touches a connection is not only enough to leave it alone,
  it is needed, once every behaviour of the environment counts.
-/

import Naitron.Server.Waiting

namespace Naitron

variable (E : Ext)

/-- The environment with other answers of the operating system. -/
def Ext.withIo (io : Nat → Answer) : Ext := { E with io := io }

/-- No call for memory and no call of the poller succeeds. -/
def Ext.starved : Ext := E.withIo fun n => { E.io n with ok := false }

/-- Those calls succeed, and every client socket reports an error. -/
def Ext.broken : Ext :=
  E.withIo fun n =>
    { E.io n with ok := true, sends := [.error], rounds := [⟨[], false, false, false⟩] }

-- ============================================================================
-- Closed connections
-- ============================================================================

/-- A connection that is gone stays gone. -/
theorem Moves.conn_gone {P : Label → Prop} {f f' : Flight} (h : Moves P f f')
    (hP : ∀ l, P l → l.shrinks) {k : ConnId} (hk : f.conns k = none) : f'.conns k = none := by
  by_contra hsome
  obtain ⟨c', hc'⟩ := Option.ne_none_iff_exists'.mp hsome
  obtain ⟨c, hc, -⟩ := Moves.waitCtrl_shrinks h hP hc'
  rw [hk] at hc
  cases hc

-- ============================================================================
-- Without memory
-- ============================================================================

theorem starved_ok (g : Gateway) : (g.ask E.starved).1.ok = false := rfl

theorem sendResp_starved (g : Gateway) (k : ConnId) (status : Nat) (ctype body : Bytes) :
    (sendResp E.starved g k status ctype body).2.conns k = none := by
  have hneg : (connRespond E.starved g k status ctype body).1 = .neg := by
    unfold connRespond
    dsimp only
    split
    · rfl
    · split
      · rfl
      · rw [starved_ok]
        rfl
  unfold sendResp
  split
  · exact connClose_gone E.starved _ k
  · rename_i hres
    rw [hres] at hneg
    cases hneg

theorem connFlush_starved (g : Gateway) (k : ConnId) :
    (connFlush E.starved g k).2.conns k = none := by
  unfold connFlush
  split
  · rename_i hc
    exact hc
  · rename_i c hc
    split
    · have hdrive : ∀ g', tlsDriveWrite E.starved g k c = (.neg, g') → g'.conns k = none := by
        intro g' h
        unfold tlsDriveWrite at h
        dsimp only at h
        split at h
        · cases h
          exact connClose_gone E.starved _ k
        · cases h
        · cases h
      split
      · rename_i hres
        exact hdrive _ hres
      · unfold tlsSetInterest
        dsimp only
        rw [starved_ok]
        exact connClose_gone E.starved _ k
    · dsimp only
      rw [starved_ok]
      exact connClose_gone E.starved _ k

theorem streamPush_starved (g : Gateway) (k : ConnId) (data : Bytes) :
    (streamPush E.starved g k data).2.conns k = none := by
  unfold streamPush
  split
  · rename_i hc
    exact hc
  · split
    · exact connFlush_starved E g k
    · dsimp only
      split
      · exact connClose_gone E.starved _ k
      · rw [starved_ok]
        exact connClose_gone E.starved _ k

theorem pushChunk_starved (g : Gateway) (k : ConnId) (data : Bytes) :
    (pushChunk E.starved g k data).conns k = none := by
  have hfirst := streamPush_starved E g k (hex data.length ++ crlf)
  unfold pushChunk
  split
  · rename_i hres
    rw [hres] at hfirst
    exact hfirst
  · rename_i g₁ _
    have hsecond := streamPush_starved E g₁ k data
    split
    · rename_i hres
      rw [hres] at hsecond
      exact hsecond
    · exact streamPush_starved E _ k crlf

theorem gwDeliverBegin_starved {g : Gateway} {id : Nat} {k : ConnId}
    (hk : gwConnForId g.toFlight id = some k) (payload : Bytes) :
    (gwDeliverBegin E.starved g id payload).conns k = none := by
  unfold gwDeliverBegin
  rw [hk]
  dsimp only
  split
  · exact sendResp_starved E _ k _ _ _
  · split
    · rename_i hc
      exact hc
    · split
      · exact connClose_gone E.starved _ k
      · rw [starved_ok]
        exact connClose_gone E.starved _ k

theorem gwDeliverEnd_starved {g : Gateway} {id : Nat} {k : ConnId}
    (hk : gwConnForId g.toFlight id = some k) : (gwDeliverEnd E.starved g id).conns k = none := by
  unfold gwDeliverEnd
  rw [hk]
  dsimp only
  split
  · rename_i hc
    exact hc
  · split
    · exact connClose_gone E.starved _ k
    · split
      · exact streamPush_starved E _ k _
      · exact streamPush_starved E _ k _

theorem gwDeliverChunk_starved {g : Gateway} {id : Nat} {k : ConnId} {c : Conn}
    (hk : gwConnForId g.toFlight id = some k) (hc : g.conns k = some c) {payload : Bytes}
    (hreach : (c.streaming && (ntcWireDecodeChunk payload).any fun d => !d.isEmpty) = true) :
    (gwDeliverChunk E.starved g id payload).conns k = none := by
  obtain ⟨hstream, hany⟩ := Bool.and_eq_true_iff.mp hreach
  unfold gwDeliverChunk
  simp only [hk, hc, hstream, Bool.not_true, Bool.false_eq_true, if_false]
  cases hdata : ntcWireDecodeChunk payload with
  | none =>
      rw [hdata] at hany
      cases hany
  | some data =>
      rw [hdata, Option.any_some, Bool.not_eq_true'] at hany
      simp only [hany, Bool.false_eq_true, if_false]
      split
      · exact streamPush_starved E g k data
      · exact pushChunk_starved E g k data

/-- Without memory, a frame ends the connection it has an effect on, unless it
    is a WebSocket message, which is dropped. -/
theorem dispatchFrame_starved {g : Gateway} {x : WireFrame} {k : ConnId} {c : Conn}
    (hk : gwConnForId g.toFlight x.hdr.requestId = some k) (hc : g.conns k = some c)
    (hreach : frameReaches c x = true) (htype : NtcMsgType.ofCode x.hdr.type ≠ some .wsMsg) :
    (dispatchFrame E.starved g x).conns k = none := by
  unfold frameReaches at hreach
  unfold dispatchFrame
  cases hcode : NtcMsgType.ofCode x.hdr.type with
  | none =>
      rw [hcode] at hreach
      cases hreach
  | some type =>
      rw [hcode] at hreach htype
      cases type with
      | response =>
          simp only [gwDeliver, hk]
          split
          · exact sendResp_starved E _ k _ _ _
          · exact sendResp_starved E _ k _ _ _
      | responseBegin => exact gwDeliverBegin_starved E hk _
      | responseChunk => exact gwDeliverChunk_starved E hk hc hreach
      | responseEnd => exact gwDeliverEnd_starved E hk
      | wsMsg => exact absurd rfl htype
      | wsClose =>
          simp only [gwWsDeliverClose, hk]
          split
          · exact connClose_gone E.starved _ k
          · exact streamPush_starved E _ k _
      | hello | welcome | request | ping | pong | wsOpen => cases hreach

-- ============================================================================
-- With broken client sockets
-- ============================================================================

/-- With something to write, a socket that reports an error fails the loop. -/
theorem sendLoop_error {len sent : Nat} (h : sent < len) :
    (sendLoop len [.error] sent).1 = .failed := by
  rw [sendLoop, if_neg (Nat.not_le.mpr h)]

theorem onWritable_broken {g : Gateway} {k : ConnId} {c : Conn} (hc : g.conns k = some c)
    (hplain : c.tls = false) (hmore : c.streaming = true → c.swsent < c.swbuf.length) :
    (onWritable E.broken g k).2.conns k = none := by
  unfold onWritable
  simp only [hc, hplain, Bool.false_eq_true, if_false]
  split
  · rename_i hstream
    unfold onWritableStream
    dsimp only
    rw [show (g.ask E.broken).1.sends = [.error] from rfl, sendLoop_error (hmore hstream)]
    exact connClose_gone E.broken _ k
  · unfold onWritableAtomic
    dsimp only
    rw [show (g.ask E.broken).1.sends = [.error] from rfl]
    -- an atomic write ends the connection also when nothing is left to send
    by_cases hsent : c.wsent < c.wbuf.length
    · rw [sendLoop_error hsent]
      exact connClose_gone E.broken _ k
    · have hdone : (sendLoop c.wbuf.length [.error] c.wsent).1 = .done := by
        rw [sendLoop, if_pos (Nat.not_lt.mp hsent)]
      rw [hdone]
      exact connClose_gone E.broken _ k

theorem connFlush_broken {g : Gateway} {k : ConnId} {c : Conn} (hc : g.conns k = some c)
    (hmore : c.streaming = true → c.swsent < c.swbuf.length) :
    (connFlush E.broken g k).2.conns k = none := by
  unfold connFlush
  simp only [hc]
  cases htls : c.tls with
  | true =>
      have hclosed : tlsDriveWrite E.broken g k c =
          (.neg, (tlsDriveWrite E.broken g k c).2) ∧
          (tlsDriveWrite E.broken g k c).2.conns k = none := by
        unfold tlsDriveWrite
        dsimp only
        rw [show (g.ask E.broken).1.rounds = [⟨[], false, false, false⟩] from rfl, tlsLoop]
        exact ⟨rfl, connClose_gone E.broken _ k⟩
      rw [if_pos rfl, hclosed.1]
      exact hclosed.2
  | false =>
      exact onWritable_broken E (g := (g.ask E.broken).2) hc htls hmore

theorem streamPush_broken {g : Gateway} {k : ConnId} {c : Conn} (hc : g.conns k = some c)
    {data : Bytes} (hdata : data ≠ []) : (streamPush E.broken g k data).2.conns k = none := by
  have hne : data.isEmpty = false := by simpa using hdata
  unfold streamPush
  simp only [hc, hne, Bool.false_eq_true, if_false]
  split
  · exact connClose_gone E.broken _ k
  · refine connFlush_broken E (c := { c with swbuf := c.swbuf.drop c.swsent ++ data, swsent := 0 })
      (by simp [Gateway.modConn, Gateway.ask, hc]) fun _ => ?_
    have hpos := List.length_pos_of_ne_nil hdata
    simp only [List.length_append]
    omega

/-- A WebSocket frame always fits the buffer made for it. -/
theorem ntcWsEncode_fits (opcode : NtcWsOpcode) (data : Bytes) :
    ∃ frame, ntcWsEncode opcode data (data.length + 16) = some frame ∧ frame ≠ [] := by
  unfold ntcWsEncode
  dsimp only
  split
  · rw [if_neg (by simp [putU32])]
    exact ⟨_, rfl, by simp⟩
  · split
    · rw [if_neg (by simp [putU16])]
      exact ⟨_, rfl, by simp⟩
    · rw [if_neg (by simp)]
      exact ⟨_, rfl, by simp⟩

/-- On a broken socket a WebSocket message ends its connection. -/
theorem dispatchFrame_broken {g : Gateway} {x : WireFrame} {k : ConnId} {c : Conn}
    (hk : gwConnForId g.toFlight x.hdr.requestId = some k) (hc : g.conns k = some c)
    (hreach : frameReaches c x = true) (htype : NtcMsgType.ofCode x.hdr.type = some .wsMsg) :
    (dispatchFrame E.broken g x).conns k = none := by
  rw [frameReaches, htype] at hreach
  obtain ⟨hws, hmsg⟩ := Bool.and_eq_true_iff.mp hreach
  obtain ⟨⟨opcode, data⟩, hdata⟩ := Option.isSome_iff_exists.mp hmsg
  obtain ⟨frame, hframe, hne⟩ := ntcWsEncode_fits
    (if opcode = NtcWsOpcode.bin.code then NtcWsOpcode.bin else .text) data
  have hok : (g.ask E.broken).1.ok = true := rfl
  simp only [dispatchFrame, htype, gwWsDeliver, hk, hc, hws, hdata, hframe, hok, Bool.not_true,
    Bool.false_eq_true, if_false]
  exact streamPush_broken E (g := (g.ask E.broken).2) hc hne

-- ============================================================================
-- The frame loop
-- ============================================================================

/-- While a connection stays as it is, its id resolves to it. -/
theorem gwConnForId_same {f f' : Flight} (h : SlotInv f) (h' : SlotInv f') {k : ConnId} {id : Nat}
    (hsame : f'.conns k = f.conns k) (hk : gwConnForId f id = some k) :
    gwConnForId f' id = some k := by
  obtain ⟨hpend, hgen⟩ := gwConnForId_some hk
  obtain ⟨c, hc, hin, hid⟩ := h.pending _ k hpend
  have hlt := h.wf.lt_of_pending hpend
  have hslot : idSlot c.reqId = idSlot id := by rw [hid, idSlot_encodeId hlt]
  have hpend' : f'.slots.pending (idSlot id) = some k := by
    rw [← hslot]
    exact h'.inflight k c (hsame.trans hc) hin
  obtain ⟨c', hc', -, hid'⟩ := h'.pending _ k hpend'
  rw [hsame, hc] at hc'
  cases hc'
  have hgen' : f'.slots.gen (idSlot id) % ntcGenSpan = idGen id := by
    rw [← idGen_encodeId hlt, ← hid', hid, idGen_encodeId hlt]
    exact hgen
  rw [gwConnForId, hpend']
  simp only [hgen', if_true]

/-- The loop ends a connection when the first of its frames that has an effect
    there does. -/
theorem frameLoop_ends {g : Gateway} (h : Inv g.toFlight) (ct : CtrlId) {k : ConnId} {c : Conn}
    (hc : g.conns k = some c) {pre post : List WireFrame} {x : WireFrame}
    (hk : gwConnForId g.toFlight x.hdr.requestId = some k)
    (hpre : ¬ framesTouch g.toFlight pre k)
    (hends : ∀ g' : Gateway, gwConnForId g'.toFlight x.hdr.requestId = some k →
      g'.conns k = some c → (dispatchFrame E g' x).conns k = none) :
    ((pre ++ x :: post).foldl (deliverFrame E ct) g).conns k = none := by
  have hloop := frameLoop_moves E h ct pre
  have hinv := Moves.inv hloop h
  have hsame : SameConn k g.toFlight (pre.foldl (deliverFrame E ct) g).toFlight := by
    refine Moves.sameConn hloop ?_
    rintro l (rfl | ⟨j, hj, hl⟩) hconn
    · cases hconn
    · exact hpre (hl.conn_eq hconn ▸ hj)
  rw [List.foldl_append, List.foldl_cons]
  have hgone : (deliverFrame E ct (pre.foldl (deliverFrame E ct) g) x).conns k = none :=
    hends _ (gwConnForId_same h.slots hinv.slots hsame.1 hk) (hsame.1.trans hc)
  have hstep := deliverFrame_moves E hinv.slots ct x
  exact Moves.conn_gone (frameLoop_moves E (Moves.inv hstep hinv) ct post)
    (fun l hl => hl.shrinks) hgone

/-- A connection that some of the frames touch can be ended by them. -/
theorem frameLoop_can_end {g : Gateway} (h : Inv g.toFlight) (ct : CtrlId) {fs : List WireFrame}
    {k : ConnId} (htouch : framesTouch g.toFlight fs k) :
    ∃ io, (fs.foldl (deliverFrame (E.withIo io) ct) g).conns k = none := by
  classical
  obtain ⟨x, hx, hk, c, hc, hreach⟩ := htouch
  -- the first frame that touches the connection decides the environment
  obtain ⟨y, hy⟩ := Option.isSome_iff_exists.mp (List.find?_isSome
    (p := fun y => decide (framesTouch g.toFlight [y] k)).mpr
      ⟨x, hx, decide_eq_true ⟨x, List.mem_singleton_self x, hk, c, hc, hreach⟩⟩)
  obtain ⟨hyk, pre, post, rfl, hpre⟩ := List.find?_eq_some_iff_append.mp hy
  obtain ⟨y', hy', hyid, d, hd, hyreach⟩ := of_decide_eq_true hyk
  obtain rfl := List.mem_singleton.mp hy'
  rw [hc] at hd
  cases hd
  have hnone : ¬ framesTouch g.toFlight pre k := by
    rintro ⟨z, hz, hzk⟩
    have hno := hpre z hz
    rw [Bool.not_eq_true', decide_eq_false_iff_not] at hno
    exact hno ⟨z, List.mem_singleton_self z, hzk⟩
  by_cases htype : NtcMsgType.ofCode y'.hdr.type = some .wsMsg
  · exact ⟨_, frameLoop_ends E.broken h ct hc hyid hnone
      fun g' hk' hc' => dispatchFrame_broken E hk' hc' hyreach htype⟩
  · exact ⟨_, frameLoop_ends E.starved h ct hc hyid hnone
      fun g' hk' hc' => dispatchFrame_starved E hk' hc' hyreach htype⟩

/-- Reading frames that touch a connection can end it. -/
theorem onCtrlReadable_can_end {g : Gateway} (h : Inv g.toFlight) {ct : CtrlId} {t : Ctrl}
    (ht : g.ctrls ct = some t) {rs : List RecvResult} {k : ConnId}
    (htouch : framesTouch g.toFlight (framesRead t rs) k) :
    ∃ io, (onCtrlReadable (E.withIo io) g ct rs).2.conns k = none := by
  have hopen : (ctrlRecv rs t.rbuf).1 = false := by
    obtain ⟨x, hx, -⟩ := htouch
    by_contra hgave
    rw [framesRead, if_pos (Bool.eq_true_of_not_eq_false hgave)] at hx
    cases hx
  have hfill := fillCtrl_moves g ct t (ctrlRecv rs t.rbuf).2
  have hinv := Moves.inv hfill h
  have hsame : (fillCtrl g ct t (ctrlRecv rs t.rbuf).2).conns = g.conns ∧
      (fillCtrl g ct t (ctrlRecv rs t.rbuf).2).slots = g.slots := by
    simp [fillCtrl, Gateway.modCtrl, ht]
  have htouch' : framesTouch (fillCtrl g ct t (ctrlRecv rs t.rbuf).2).toFlight
      (framesIn (ctrlRecv rs t.rbuf).2) k := by
    simpa [framesTouch, framesRead, gwConnForId, hopen, hsame] using htouch
  obtain ⟨io, hgone⟩ := frameLoop_can_end E hinv ct htouch'
  refine ⟨io, ?_⟩
  unfold onCtrlReadable
  simp only [ht, hopen, Bool.false_eq_true, if_false]
  have hloop := frameLoop_moves (E.withIo io) hinv ct (framesIn (ctrlRecv rs t.rbuf).2)
  unfold readFrames
  dsimp only
  split
  · refine Moves.conn_gone (controllerDied_moves (E.withIo io) (Moves.inv hloop hinv) ct) ?_ hgone
    rintro l (⟨j, -, hl⟩ | rfl)
    · exact hl.shrinks
    · trivial
  · refine Moves.conn_gone (modCtrl_rbuf_moves _ ct _) ?_ hgone
    rintro l rfl
    trivial

end Naitron
