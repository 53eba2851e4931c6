/-
  Naitron.Server.Relay

  A WebSocket as its controller sees it: `on_ws_readable` cuts what the client
  sends into frames and queues one `WS_MSG` for each data frame, however the
  bytes are grouped, until an event fills the receive buffer.
-/

import Naitron.Server.DeliverFlow
import Naitron.Server.Ipc
import Naitron.Server.Sessions
import Naitron.WsStream

namespace Naitron

variable (E : Ext)

-- ============================================================================
-- Writing to a WebSocket
-- ============================================================================

/-- A plaintext stream that has not ended. -/
structure PlainStream (c : Conn) : Prop where
  tls : c.tls = false
  streaming : c.streaming = true
  streamEnded : c.streamEnded = false
  bounds : c.InBounds

theorem PlainStream.drains {c c' : Conn} (h : PlainStream c) (hd : Drains c c')
    (hb : c'.InBounds) : PlainStream c' := by
  obtain ⟨hstreaming, hended, htls, -⟩ := hd.fields
  exact ⟨htls.trans h.tls, hstreaming.trans h.streaming, hended.trans h.streamEnded, hb⟩

/-- A write has left the connection open, with at most `n` bytes pending, and
    touched no controller. -/
structure Pushed (g : Gateway) (k : ConnId) (c : Conn) (n : Nat) (r : Rc × Gateway) : Prop where
  rc : r.1 = .zero
  conn : ∃ c', r.2.conns k = some c' ∧ Drains c c' ∧ c'.InBounds ∧ c'.pending.length ≤ n
  ctrls : r.2.ctrls = g.ctrls
  queued : r.2.queued = g.queued

theorem Pushed.le {g : Gateway} {k : ConnId} {c : Conn} {n m : Nat} {r : Rc × Gateway}
    (h : Pushed g k c n r) (hnm : n ≤ m) : Pushed g k c m r := by
  obtain ⟨c', hc', hd, hb, hn⟩ := h.conn
  exact ⟨h.rc, ⟨c', hc', hd, hb, hn.trans hnm⟩, h.ctrls, h.queued⟩

/-- The output of a connection that is still there is changed. -/
theorem Pushed.mod {g g' : Gateway} {k : ConnId} {c : Conn} {n : Nat} (hc : g'.conns k = some c)
    (hctrls : g'.ctrls = g.ctrls) (hqueued : g'.queued = g.queued) {F : Conn → Conn}
    (hd : Drains c (F c)) (hb : (F c).InBounds) (hn : (F c).pending.length ≤ n) :
    Pushed g k c n (.zero, g'.modConn k F) where
  rc := rfl
  conn := ⟨F c, modConn_conn hc F, hd, hb, hn⟩
  ctrls := (modConn_ctrls g' k F).trans hctrls
  queued := (modConn_queued g' k F).trans hqueued

/-- The calls between two ticks that did not fail. -/
theorem ok_of_calls {n m i : Nat} (h : ¬ CallFailed E n m) (hn : n ≤ i) (hm : i < m) :
    (E.io i).ok = true ∧ SendResult.error ∉ (E.io i).sends := by
  constructor
  · by_contra hok
    exact h ⟨i, hn, hm, Or.inl (Bool.eq_false_iff.mpr hok)⟩
  · exact fun herr => h ⟨i, hn, hm, Or.inr herr⟩

theorem onWritableStream_pushed {g : Gateway} {k : ConnId} {c : Conn} (hc : g.conns k = some c)
    (hp : PlainStream c) (hcalls : ¬ CallFailed E g.tick (onWritableStream E g k c).2.tick) :
    Pushed g k c c.pending.length (onWritableStream E g k c) := by
  obtain ⟨hge, hle, hdone⟩ := sendLoop_sent (g.ask E).1.sends hp.bounds.stream
  have hpend : c.pending.length = c.swbuf.length - c.swsent := by
    rw [Conn.pending, if_pos hp.streaming, List.length_drop]
  have hfailed := @sendLoop_failed c.swbuf.length (g.ask E).1.sends c.swsent
  rw [onWritableStream] at hcalls ⊢
  dsimp only at hcalls ⊢
  have hconn : ((g.ask E).2.emit k (slicePart c.swbuf c.swsent
    (sendLoop c.swbuf.length (g.ask E).1.sends c.swsent).2)).conns k = some c := hc
  have hctrls : ((g.ask E).2.emit k (slicePart c.swbuf c.swsent
    (sendLoop c.swbuf.length (g.ask E).1.sends c.swsent).2)).ctrls = g.ctrls := rfl
  have hqueued : ((g.ask E).2.emit k (slicePart c.swbuf c.swsent
    (sendLoop c.swbuf.length (g.ask E).1.sends c.swsent).2)).queued = g.queued := rfl
  have htick : ((g.ask E).2.emit k (slicePart c.swbuf c.swsent
    (sendLoop c.swbuf.length (g.ask E).1.sends c.swsent).2)).tick = g.tick + 1 := rfl
  generalize (g.ask E).2.emit k (slicePart c.swbuf c.swsent
    (sendLoop c.swbuf.length (g.ask E).1.sends c.swsent).2) = g' at *
  generalize sendLoop c.swbuf.length (g.ask E).1.sends c.swsent = r at *
  obtain ⟨res, j⟩ := r
  cases res with
  | failed =>
      have hlt : g.tick < (connClose E g' k).tick := by
        have hle := connClose_tick E g' k
        omega
      exact absurd (CallFailed.here hlt (Or.inr (hfailed rfl))) hcalls
  | blocked =>
      refine Pushed.mod hconn hctrls hqueued rfl ⟨hle, hp.bounds.atomic⟩ ?_
      rw [Conn.pending, if_pos hp.streaming, List.length_drop]
      dsimp only at hge ⊢
      omega
  | done =>
      dsimp only at hcalls ⊢
      rw [if_neg (by rw [hp.streamEnded]; exact Bool.false_ne_true)] at hcalls ⊢
      have hset : Pushed g k c c.pending.length
          (.zero, g'.modConn k fun c => { c with swbuf := [], swsent := 0 }) := by
        refine Pushed.mod hconn hctrls hqueued rfl ⟨le_rfl, hp.bounds.atomic⟩ ?_
        rw [Conn.pending, if_pos hp.streaming]
        exact Nat.zero_le _
      have htick' := modConn_tick g' k fun c => { c with swbuf := [], swsent := 0 }
      generalize g'.modConn k (fun c => { c with swbuf := [], swsent := 0 }) = g₂ at *
      by_cases hok : (g₂.ask E).1.ok = true
      · rw [if_pos hok]
        exact ⟨rfl, hset.conn, hset.ctrls, hset.queued⟩
      · rw [if_neg hok] at hcalls
        refine absurd ⟨g₂.tick, by omega, ?_, Or.inl (Bool.eq_false_iff.mpr hok)⟩ hcalls
        exact (Nat.lt_succ_self g₂.tick).trans_le (connClose_tick E (g₂.ask E).2 k)

theorem onWritable_pushed {g : Gateway} {k : ConnId} {c : Conn} (hc : g.conns k = some c)
    (hp : PlainStream c) (hcalls : ¬ CallFailed E g.tick (onWritable E g k).2.tick) :
    Pushed g k c c.pending.length (onWritable E g k) := by
  have heq : onWritable E g k = onWritableStream E g k c := by
    rw [onWritable, hc]
    dsimp only
    rw [hp.tls, if_neg Bool.false_ne_true, if_pos hp.streaming]
  rw [heq] at hcalls ⊢
  exact onWritableStream_pushed E hc hp hcalls

theorem connFlush_pushed {g : Gateway} {k : ConnId} {c : Conn} (hc : g.conns k = some c)
    (hp : PlainStream c) (hcalls : ¬ CallFailed E g.tick (connFlush E g k).2.tick) :
    Pushed g k c c.pending.length (connFlush E g k) := by
  have heq : connFlush E g k =
      if (g.ask E).1.ok then onWritable E (g.ask E).2 k
      else (.neg, connClose E (g.ask E).2 k) := by
    rw [connFlush, hc]
    dsimp only
    rw [hp.tls, if_neg Bool.false_ne_true]
  rw [heq] at hcalls ⊢
  by_cases hok : (g.ask E).1.ok = true
  · rw [if_pos hok] at hcalls ⊢
    have hpush := onWritable_pushed E (g := (g.ask E).2) hc hp
      fun h => hcalls (h.mono (Nat.le_succ g.tick) le_rfl)
    exact ⟨hpush.rc, hpush.conn, hpush.ctrls, hpush.queued⟩
  · rw [if_neg hok] at hcalls
    refine absurd (CallFailed.here ?_ (Or.inl (Bool.eq_false_iff.mpr hok))) hcalls
    exact (Nat.lt_succ_self g.tick).trans_le (connClose_tick E (g.ask E).2 k)

/-- A push that fits the buffer. -/
theorem streamPush_pushed {g : Gateway} {k : ConnId} {c : Conn} (hc : g.conns k = some c)
    (hp : PlainStream c) {data : Bytes}
    (hroom : c.pending.length + data.length ≤ ntcStreamMaxBuf)
    (hcalls : ¬ CallFailed E g.tick (streamPush E g k data).2.tick) :
    Pushed g k c (c.pending.length + data.length) (streamPush E g k data) := by
  have hpend : c.pending = c.swbuf.drop c.swsent := by rw [Conn.pending, if_pos hp.streaming]
  rw [streamPush, hc] at hcalls ⊢
  dsimp only at hcalls ⊢
  by_cases hempty : data.isEmpty = true
  · rw [if_pos hempty] at hcalls ⊢
    exact (connFlush_pushed E hc hp hcalls).le (Nat.le_add_right _ _)
  rw [if_neg hempty] at hcalls ⊢
  have hconn := modConn_conn hc fun d => { d with swbuf := c.swbuf.drop c.swsent, swsent := 0 }
  have hctrls := modConn_ctrls g k fun d => { d with swbuf := c.swbuf.drop c.swsent, swsent := 0 }
  have hqueued := modConn_queued g k fun d => { d with swbuf := c.swbuf.drop c.swsent, swsent := 0 }
  have htick := modConn_tick g k fun d => { d with swbuf := c.swbuf.drop c.swsent, swsent := 0 }
  generalize g.modConn k (fun d => { d with swbuf := c.swbuf.drop c.swsent, swsent := 0 }) = g'
    at hconn hctrls hqueued htick hcalls ⊢
  rw [if_neg (by rw [← hpend]; omega)] at hcalls ⊢
  by_cases hok : (g'.ask E).1.ok = true
  · rw [if_pos hok] at hcalls ⊢
    -- the bytes are appended, and the stream drained as far as it goes
    have hconn' : ((g'.ask E).2.modConn k
        fun d => { d with swbuf := c.swbuf.drop c.swsent ++ data }).conns k =
          some { c with swbuf := c.swbuf.drop c.swsent ++ data, swsent := 0 } :=
      modConn_conn (g := (g'.ask E).2) hconn _
    have hctrls' := modConn_ctrls (g'.ask E).2 k
      fun d => { d with swbuf := c.swbuf.drop c.swsent ++ data }
    have hqueued' := modConn_queued (g'.ask E).2 k
      fun d => { d with swbuf := c.swbuf.drop c.swsent ++ data }
    have htick' := modConn_tick (g'.ask E).2 k
      fun d => { d with swbuf := c.swbuf.drop c.swsent ++ data }
    have hask : (g'.ask E).2.tick = g'.tick + 1 := rfl
    generalize (g'.ask E).2.modConn k
      (fun d => { d with swbuf := c.swbuf.drop c.swsent ++ data }) = g₂ at *
    have hp' : PlainStream { c with swbuf := c.swbuf.drop c.swsent ++ data, swsent := 0 } :=
      hp.drains rfl ⟨Nat.zero_le _, hp.bounds.atomic⟩
    have hpush := connFlush_pushed E hconn' hp' fun h => hcalls (h.mono (by omega) le_rfl)
    obtain ⟨c', hc', hd, hb, hn⟩ := hpush.conn
    have hdrains : Drains c { c with swbuf := c.swbuf.drop c.swsent ++ data, swsent := 0 } := rfl
    refine ⟨hpush.rc, ⟨c', hc', hdrains.trans hd, hb, hn.trans ?_⟩,
      hpush.ctrls.trans (hctrls'.trans hctrls), hpush.queued.trans (hqueued'.trans hqueued)⟩
    rw [Conn.pending, if_pos hp.streaming, List.drop_zero, List.length_append, hpend]
  · rw [if_neg hok] at hcalls
    refine absurd ⟨g'.tick, htick.ge, ?_, Or.inl (Bool.eq_false_iff.mpr hok)⟩ hcalls
    exact (Nat.lt_succ_self g'.tick).trans_le (connClose_tick E (g'.ask E).2 k)

-- ============================================================================
-- An upgraded connection
-- ============================================================================

/-- An upgraded connection whose controller is there. -/
structure WsOpen (f : Flight) (k : ConnId) (ct : CtrlId) (id : Nat) (c : Conn) : Prop where
  conn : f.conns k = some c
  plain : PlainStream c
  state : c.state = .csWs
  isWs : c.isWs = true
  inflight : c.inflight = true
  waitCtrl : c.waitCtrl = some ct
  reqId : c.reqId = id
  live : (f.ctrls ct).isSome = true

/-- The `WS_MSG` for a frame of the client. -/
def wsMsgOf (k : ConnId) (ct : CtrlId) (id : Nat) (f : WsClientFrame) : QueuedFrame :=
  ⟨ct, k, .wsMsg, id, UInt8.ofNat f.opcode.code :: (putU32 f.payload.length ++ f.payload)⟩

/-- What is queued for a frame: a `WS_MSG` for text and binary, nothing for
    PING and PONG. -/
def relayed (k : ConnId) (ct : CtrlId) (id : Nat) (f : WsClientFrame) : List QueuedFrame :=
  if f.opcode = .text ∨ f.opcode = .bin then [wsMsgOf k ct id f] else []

/-- The bytes of the PONG a frame asks for. -/
def pongLength (f : WsFrame) : Nat :=
  if f.opcode = NtcWsOpcode.ping.code then
    2 + (if 125 < f.payload.length then 0 else f.payload.length)
  else 0

/-- The complete frames in a buffer. -/
def wsFrames : Nat → Bytes → List WsFrame
  | 0, _ => []
  | fuel + 1, buf =>
      match ntcWsDecode buf with
      | .frame f consumed => f :: wsFrames fuel (buf.drop consumed)
      | _ => []

/-- The bytes of the PONGs that the frames in a buffer ask for. -/
def pongsDue (buf : Bytes) : Nat := ((wsFrames buf.length buf).map pongLength).sum

/-- A step on the connection that has worked: it is open as before, with `n`
    more bytes of output at most, and `log` was queued. -/
structure Kept (g g' : Gateway) (k : ConnId) (ct : CtrlId) (id : Nat) (c : Conn) (n : Nat)
    (log : List QueuedFrame) (c' : Conn) : Prop where
  opened : WsOpen g'.toFlight k ct id c'
  drains : Drains c c'
  pending : c'.pending.length ≤ c.pending.length + n
  queued : g'.queued = g.queued ++ log

theorem WsOpen.of_pushed {g : Gateway} {k : ConnId} {ct : CtrlId} {id : Nat} {c : Conn} {n : Nat}
    {r : Rc × Gateway} (h : WsOpen g.toFlight k ct id c)
    (hpush : Pushed g k c (c.pending.length + n) r) : ∃ c', Kept g r.2 k ct id c n [] c' := by
  obtain ⟨c', hc', hd, hb, hn⟩ := hpush.conn
  have hwait : c'.waitCtrl = c.waitCtrl := by rw [hd]
  obtain ⟨-, -, -, hws, -, hin, hid, hstate, -⟩ := hd.fields
  refine ⟨c', ⟨hc', h.plain.drains hd hb, hstate.trans h.state, hws.trans h.isWs,
    hin.trans h.inflight, hwait.trans h.waitCtrl, hid.trans h.reqId, ?_⟩, hd, hn, ?_⟩
  · rw [show r.2.ctrls ct = g.ctrls ct by rw [hpush.ctrls]]
    exact h.live
  · rw [hpush.queued, List.append_nil]

/-- A frame is queued to a controller that is there. -/
theorem ctrlQueue_kept {g : Gateway} {k : ConnId} {ct : CtrlId} {id : Nat} {c : Conn}
    (h : WsOpen g.toFlight k ct id c) (type : NtcMsgType) (payload : Bytes)
    (hok : (E.io g.tick).ok = true) :
    Kept g (ctrlQueue E g ct k type id payload).2 k ct id c 0 [⟨ct, k, type, id, payload⟩] c := by
  obtain ⟨t, ht⟩ := Option.isSome_iff_exists.mp h.live
  have heq : (ctrlQueue E g ct k type id payload).2 =
      { (g.ask E).2 with
        ctrls := Function.update g.ctrls ct
          (some { t with wbuf := t.wbuf ++ QueuedFrame.bytes ⟨ct, k, type, id, payload⟩ })
        queued := g.queued ++ [⟨ct, k, type, id, payload⟩] } := by
    have hok' : (g.ask E).1.ok = true := hok
    have ht' : (g.ask E).2.ctrls ct = some t := ht
    rw [ctrlQueue]
    dsimp only
    rw [if_pos hok', Gateway.enqueue]
    dsimp only
    rw [ht']
    rfl
  rw [heq]
  refine ⟨⟨h.conn, h.plain, h.state, h.isWs, h.inflight, h.waitCtrl, h.reqId, ?_⟩, .refl c,
    le_rfl, rfl⟩
  show (Function.update g.ctrls ct _ ct).isSome = true
  rw [Function.update_self]
  rfl

theorem ntcWireEncodeWsMsg_some (opcode : Nat) (data : Bytes) :
    ntcWireEncodeWsMsg opcode data (data.length + 16) =
      some (UInt8.ofNat opcode :: (putU32 data.length ++ data)) := by
  rw [ntcWireEncodeWsMsg, if_neg]
  · rfl
  · simp only [List.length_append, List.length_singleton, length_putU32]
    omega

/-- A data frame is queued. -/
theorem onWsFrame_data {g : Gateway} {k : ConnId} {ct : CtrlId} {id : Nat} {c : Conn}
    (h : WsOpen g.toFlight k ct id c) {f : WsClientFrame} (hop : f.opcode = .text ∨ f.opcode = .bin)
    (hcalls : ¬ CallFailed E g.tick (onWsFrame E g k f.frame).2.tick) :
    (onWsFrame E g k f.frame).1 = .zero ∧
      Kept g (onWsFrame E g k f.frame).2 k ct id c 0 [wsMsgOf k ct id f] c := by
  have hcode : f.frame.opcode ≠ NtcWsOpcode.close.code ∧ f.frame.opcode ≠ NtcWsOpcode.ping.code ∧
      f.frame.opcode ≠ NtcWsOpcode.pong.code ∧
      (if f.frame.opcode = NtcWsOpcode.bin.code then NtcWsOpcode.bin else .text) = f.opcode := by
    rw [show f.frame.opcode = f.opcode.code from rfl]
    rcases hop with hop | hop <;> rw [hop] <;> decide
  have hin : (!c.inflight) = false := by rw [h.inflight]; rfl
  have heq : onWsFrame E g k f.frame =
      if !(g.ask E).1.ok then (.zero, (g.ask E).2)
      else (.zero, (ctrlQueue E (g.ask E).2 ct k .wsMsg id
        (UInt8.ofNat f.opcode.code :: (putU32 f.payload.length ++ f.payload))).2) := by
    rw [onWsFrame, if_neg hcode.1, if_neg hcode.2.1, if_neg hcode.2.2.1, h.conn]
    dsimp only
    rw [h.waitCtrl]
    dsimp only
    rw [hin, if_neg Bool.false_ne_true, hcode.2.2.2, ntcWireEncodeWsMsg_some, h.reqId]
    rfl
  rw [heq] at hcalls ⊢
  by_cases hok : (g.ask E).1.ok = true
  · rw [hok, Bool.not_true, if_neg Bool.false_ne_true] at hcalls ⊢
    have htick := ctrlQueue_tick E (g.ask E).2 ct k .wsMsg id
      (UInt8.ofNat f.opcode.code :: (putU32 f.payload.length ++ f.payload))
    have hok' := (ok_of_calls E hcalls (Nat.le_succ g.tick)
      (by rw [htick]; exact Nat.lt_succ_self _)).1
    have hopen : WsOpen (g.ask E).2.toFlight k ct id c := h
    have hkept := ctrlQueue_kept E hopen .wsMsg
      (UInt8.ofNat f.opcode.code :: (putU32 f.payload.length ++ f.payload)) hok'
    exact ⟨rfl, hkept.opened, hkept.drains, hkept.pending, hkept.queued⟩
  · rw [Bool.eq_false_iff.mpr hok, Bool.not_false, if_pos rfl] at hcalls
    exact absurd (CallFailed.here (Nat.lt_succ_self g.tick)
      (Or.inl (Bool.eq_false_iff.mpr hok))) hcalls

/-- A PING is answered if there is room for the PONG, a PONG is passed over. -/
theorem onWsFrame_control {g : Gateway} {k : ConnId} {ct : CtrlId} {id : Nat} {c : Conn}
    (h : WsOpen g.toFlight k ct id c) {f : WsClientFrame}
    (hop : f.opcode = .ping ∨ f.opcode = .pong)
    (hroom : c.pending.length + pongLength f.frame ≤ ntcStreamMaxBuf)
    (hcalls : ¬ CallFailed E g.tick (onWsFrame E g k f.frame).2.tick) :
    (onWsFrame E g k f.frame).1 = .zero ∧
      ∃ c', Kept g (onWsFrame E g k f.frame).2 k ct id c (pongLength f.frame) [] c' := by
  have hcode : f.frame.opcode = f.opcode.code := rfl
  rcases hop with hop | hop
  · rw [hop] at hcode
    have hshort : ¬ 125 < f.payload.length := not_lt.mpr (f.control_le (Or.inl hop))
    have hpong : pongLength f.frame = 2 + f.payload.length := by
      rw [pongLength, if_pos hcode]
      exact congrArg (2 + ·) (if_neg hshort)
    have henc : ntcWsEncode .pong f.payload 160 =
        some ([UInt8.ofNat (128 + NtcWsOpcode.pong.code), UInt8.ofNat f.payload.length]
          ++ f.payload) := by
      have hlong : ¬ 0xffff < f.payload.length := by omega
      simp only [ntcWsEncode, if_neg hlong, if_neg hshort]
      rw [if_neg]
      simp only [List.length_append, List.length_cons, List.length_nil]
      omega
    have heq : onWsFrame E g k f.frame = streamPush E g k
        ([UInt8.ofNat (128 + NtcWsOpcode.pong.code), UInt8.ofNat f.payload.length]
          ++ f.payload) := by
      have hne : NtcWsOpcode.ping.code ≠ NtcWsOpcode.close.code := by decide
      rw [onWsFrame, hcode, if_neg hne, if_pos rfl, WsClientFrame.frame]
      dsimp only
      rw [if_neg hshort, henc]
    have hlen : ([UInt8.ofNat (128 + NtcWsOpcode.pong.code), UInt8.ofNat f.payload.length]
        ++ f.payload).length = pongLength f.frame := by
      rw [hpong, List.length_append]
      rfl
    rw [heq] at hcalls ⊢
    have hpush := streamPush_pushed E h.conn h.plain (by rw [hlen]; exact hroom) hcalls
    rw [hlen] at hpush
    exact ⟨hpush.rc, h.of_pushed hpush⟩
  · rw [hop] at hcode
    have heq : onWsFrame E g k f.frame = (.zero, g) := by
      have hclose : NtcWsOpcode.pong.code ≠ NtcWsOpcode.close.code := by decide
      have hping : NtcWsOpcode.pong.code ≠ NtcWsOpcode.ping.code := by decide
      rw [onWsFrame, hcode, if_neg hclose, if_neg hping, if_pos rfl]
    rw [heq]
    exact ⟨rfl, c, h, .refl c, Nat.le_add_right _ _, (List.append_nil _).symm⟩

/-- One frame of the client. -/
theorem onWsFrame_kept {g : Gateway} {k : ConnId} {ct : CtrlId} {id : Nat} {c : Conn}
    (h : WsOpen g.toFlight k ct id c) (f : WsClientFrame)
    (hroom : c.pending.length + pongLength f.frame ≤ ntcStreamMaxBuf)
    (hcalls : ¬ CallFailed E g.tick (onWsFrame E g k f.frame).2.tick) :
    (onWsFrame E g k f.frame).1 = .zero ∧
      ∃ c', Kept g (onWsFrame E g k f.frame).2 k ct id c (pongLength f.frame)
        (relayed k ct id f) c' := by
  rw [relayed]
  by_cases hop : f.opcode = .text ∨ f.opcode = .bin
  · rw [if_pos hop]
    obtain ⟨hrc, hkept⟩ := onWsFrame_data E h hop hcalls
    exact ⟨hrc, c, hkept.opened, hkept.drains, Nat.le_add_right _ _, hkept.queued⟩
  · rw [if_neg hop]
    refine onWsFrame_control E h ?_ hroom hcalls
    rcases f.kept with hkept | hkept | hkept
    · exact absurd (Or.inl hkept) hop
    · exact absurd (Or.inr hkept) hop
    · exact hkept

-- ============================================================================
-- The decode loop
-- ============================================================================

theorem tick_onWsFrame {n : Nat} {g : Gateway} {k : ConnId} {f : WsFrame} (h : n ≤ g.tick) :
    n ≤ (onWsFrame E g k f).2.tick := by
  unfold onWsFrame
  split
  · exact tick_connClose h
  · split
    · dsimp only
      split
      · exact h
      · exact tick_streamPush h
    · split
      · exact h
      · split
        · exact h
        · split
          · exact h
          · split
            · exact h
            · dsimp only
              split
              · exact tick_ask E h
              · split
                · exact tick_ask E h
                · rw [ctrlQueue_tick]
                  exact (tick_ask E h).trans (Nat.le_succ _)

theorem tick_wsLoop (k : ConnId) : ∀ (fuel : Nat) {n : Nat} {g : Gateway} {buf : Bytes},
    n ≤ g.tick → n ≤ (wsLoop E k fuel g buf).2.tick := by
  intro fuel
  induction fuel with
  | zero => exact fun h => tick_modConn h
  | succ fuel ih =>
      intro n g buf h
      rw [wsLoop]
      split
      · exact tick_modConn h
      · exact tick_connClose h
      · rename_i f consumed _
        have hframe := tick_onWsFrame E (k := k) (f := f) h
        split
        · rename_i hres
          rw [hres] at hframe
          exact hframe
        · rename_i hres
          rw [hres] at hframe
          exact ih hframe

/-- What is left in the buffer holds no complete frame. -/
theorem ntcWsDecode_rest {more : List WsClientFrame} {rest : Bytes}
    (hrest : Lib.Unfinished WsClientFrame.bytes more rest) : ntcWsDecode rest = .needMore := by
  cases more with
  | nil =>
      rw [show rest = [] from hrest]
      rfl
  | cons f more => exact WsClientFrame.ntcWsDecode_unfinished hrest.1 hrest.2

/-- Whole frames, and the beginning of the next. -/
theorem wsFrames_stream {more : List WsClientFrame} {rest : Bytes}
    (hrest : Lib.Unfinished WsClientFrame.bytes more rest) :
    ∀ (fs : List WsClientFrame) (fuel : Nat),
      (fs.flatMap WsClientFrame.bytes ++ rest).length ≤ fuel →
      wsFrames fuel (fs.flatMap WsClientFrame.bytes ++ rest) = fs.map WsClientFrame.frame := by
  intro fs
  induction fs with
  | nil =>
      intro fuel _
      cases fuel with
      | zero => rfl
      | succ fuel =>
          rw [List.flatMap_nil, List.nil_append, wsFrames, ntcWsDecode_rest hrest]
          rfl
  | cons f fs ih =>
      intro fuel hfuel
      have htwo := f.two_le_length
      rw [List.flatMap_cons, List.append_assoc] at hfuel ⊢
      rw [List.length_append] at hfuel
      obtain ⟨fuel, rfl⟩ := Nat.exists_eq_succ_of_ne_zero (show fuel ≠ 0 by omega)
      rw [wsFrames, f.ntcWsDecode_bytes]
      dsimp only
      rw [List.drop_left, ih fuel (by omega), List.map_cons]

/-- The loop over whole frames and the beginning of the next. -/
theorem wsLoop_kept {k : ConnId} {ct : CtrlId} {id : Nat} {more : List WsClientFrame}
    {rest : Bytes} (hrest : Lib.Unfinished WsClientFrame.bytes more rest) :
    ∀ (fs : List WsClientFrame) (fuel : Nat) {g : Gateway} {c : Conn},
      (fs.flatMap WsClientFrame.bytes ++ rest).length ≤ fuel → WsOpen g.toFlight k ct id c →
      c.pending.length + (fs.map fun f => pongLength f.frame).sum ≤ ntcStreamMaxBuf →
      ¬ CallFailed E g.tick
        (wsLoop E k fuel g (fs.flatMap WsClientFrame.bytes ++ rest)).2.tick →
      (wsLoop E k fuel g (fs.flatMap WsClientFrame.bytes ++ rest)).1 = .zero ∧
        ∃ c', WsOpen (wsLoop E k fuel g (fs.flatMap WsClientFrame.bytes ++ rest)).2.toFlight
            k ct id c' ∧ c'.rbuf = rest ∧
          (wsLoop E k fuel g (fs.flatMap WsClientFrame.bytes ++ rest)).2.queued =
            g.queued ++ fs.flatMap (relayed k ct id) := by
  intro fs
  induction fs with
  | nil =>
      intro fuel g c _ h _ _
      have heq : wsLoop E k fuel g rest =
          (.zero, g.modConn k fun c => { c with rbuf := rest }) := by
        cases fuel with
        | zero => rfl
        | succ fuel => rw [wsLoop, ntcWsDecode_rest hrest]
      rw [List.flatMap_nil, List.nil_append, heq, List.flatMap_nil, List.append_nil]
      refine ⟨rfl, { c with rbuf := rest }, ⟨modConn_conn h.conn _, ?_, h.state, h.isWs, h.inflight,
        h.waitCtrl, h.reqId, ?_⟩, rfl, modConn_queued g k _⟩
      · exact ⟨h.plain.tls, h.plain.streaming, h.plain.streamEnded, h.plain.bounds.stream,
          h.plain.bounds.atomic⟩
      · rw [show (g.modConn k fun c => { c with rbuf := rest }).ctrls ct = g.ctrls ct by
          rw [modConn_ctrls]]
        exact h.live
  | cons f fs ih =>
      intro fuel g c hfuel h hroom hcalls
      have htwo := f.two_le_length
      rw [List.map_cons, List.sum_cons] at hroom
      rw [List.flatMap_cons, List.append_assoc] at hfuel hcalls ⊢
      rw [List.length_append] at hfuel
      obtain ⟨fuel, rfl⟩ := Nat.exists_eq_succ_of_ne_zero (show fuel ≠ 0 by omega)
      have heq : wsLoop E k (fuel + 1) g (f.bytes ++ (fs.flatMap WsClientFrame.bytes ++ rest)) =
          pushThen (onWsFrame E g k f.frame) fun g =>
            wsLoop E k fuel g (fs.flatMap WsClientFrame.bytes ++ rest) := by
        rw [wsLoop, f.ntcWsDecode_bytes]
        dsimp only
        rw [List.drop_left]
        rfl
      rw [heq] at hcalls ⊢
      have hframe : ¬ CallFailed E g.tick (onWsFrame E g k f.frame).2.tick := by
        refine fun hfail => hcalls (hfail.mono le_rfl ?_)
        cases hres : onWsFrame E g k f.frame with
        | mk rc g' =>
            cases rc with
            | neg => exact le_rfl
            | zero => exact tick_wsLoop E k fuel le_rfl
      obtain ⟨hrc, c', hkept⟩ := onWsFrame_kept E h f (by omega) hframe
      have htick := tick_onWsFrame E (k := k) (f := f.frame) (le_refl g.tick)
      cases hres : onWsFrame E g k f.frame with
      | mk rc g' =>
          rw [hres] at hrc hkept hcalls htick
          dsimp only at hrc hkept htick
          subst hrc
          rw [pushThen_zero] at hcalls ⊢
          have hpend := hkept.pending
          obtain ⟨hrc, c'', hopen, hrbuf, hqueued⟩ := ih fuel (by omega) hkept.opened (by omega)
            fun hfail => hcalls (hfail.mono htick le_rfl)
          refine ⟨hrc, c'', hopen, hrbuf, ?_⟩
          rw [hqueued, hkept.queued, List.flatMap_cons, List.append_assoc]

-- ============================================================================
-- Readable events
-- ============================================================================

/-- The `recv` loop on a buffer that is full. -/
theorem wsRecv_stop {rs : List RecvResult} {buf : Bytes} (h : ntcConnRbuf ≤ buf.length) :
    wsRecv rs buf = none := by
  rw [wsRecv.eq_def]
  exact if_pos h

/-- The `recv` loop on a buffer with room. -/
theorem wsRecv_next {r : RecvResult} {rs : List RecvResult} {buf : Bytes}
    (h : ¬ ntcConnRbuf ≤ buf.length) : wsRecv (r :: rs) buf =
      match r with
      | .data b bs => wsRecv rs (buf ++ (b :: bs).take (ntcConnRbuf - buf.length))
      | .eintr => wsRecv rs buf
      | .eagain => some buf
      | .eof | .error => none := by
  rw [wsRecv.eq_def]
  dsimp only
  rw [if_neg h]
  cases r <;> rfl

theorem wsRecv_nil {buf : Bytes} (h : ¬ ntcConnRbuf ≤ buf.length) : wsRecv [] buf = some buf := by
  rw [wsRecv.eq_def]
  exact if_neg h

/-- The `recv` loop takes what there is, if it fits. -/
theorem wsRecv_data :
    ∀ (rs : List RecvResult) (buf : Bytes), recvEnds rs = false →
      buf.length + (recvBytes rs).length < ntcConnRbuf →
      wsRecv rs buf = some (buf ++ recvBytes rs) := by
  intro rs
  induction rs with
  | nil =>
      intro buf _ hlen
      rw [show recvBytes [] = [] from rfl, List.length_nil] at hlen
      rw [wsRecv_nil (by omega), show recvBytes [] = [] from rfl, List.append_nil]
  | cons r rs ih =>
      intro buf hends hlen
      rw [wsRecv_next (by omega)]
      cases r with
      | data b bs =>
          rw [recvBytes, List.length_append] at hlen
          dsimp only
          rw [List.take_of_length_le (by omega), ih (buf ++ b :: bs) hends
            (by rw [List.length_append]; omega), recvBytes, List.append_assoc]
      | eintr => exact ih buf hends hlen
      | eof | error => cases hends
      | eagain =>
          dsimp only
          rw [show recvBytes (.eagain :: rs) = [] from rfl, List.append_nil]

/-- A buffer that is full counts as a frame too big. -/
theorem wsRecv_full :
    ∀ (rs : List RecvResult) (buf : Bytes), recvEnds rs = false →
      ntcConnRbuf ≤ buf.length + (recvBytes rs).length → wsRecv rs buf = none := by
  intro rs
  induction rs with
  | nil =>
      intro buf _ hlen
      rw [show recvBytes [] = [] from rfl, List.length_nil] at hlen
      exact wsRecv_stop (by omega)
  | cons r rs ih =>
      intro buf hends hlen
      by_cases hfull : ntcConnRbuf ≤ buf.length
      · exact wsRecv_stop hfull
      rw [wsRecv_next hfull]
      cases r with
      | data b bs =>
          refine ih _ hends ?_
          rw [recvBytes, List.length_append] at hlen
          rw [List.length_append, List.length_take]
          omega
      | eintr => exact ih buf hends hlen
      | eof | error => cases hends
      | eagain =>
          rw [show recvBytes (.eagain :: rs) = [] from rfl, List.length_nil] at hlen
          omega

theorem tick_onWsReadable {n : Nat} {g : Gateway} {k : ConnId} {rs : List RecvResult}
    (h : n ≤ g.tick) : n ≤ (onWsReadable E g k rs).2.tick := by
  unfold onWsReadable
  split
  · exact h
  · split
    · exact tick_connClose h
    · exact tick_wsLoop E k _ h

/-- A readable event of the client that leaves room in the receive buffer, and
    whose PONGs fit the output buffer. -/
structure RoomyEvent (c : Conn) (rs : List RecvResult) : Prop where
  goes_on : recvEnds rs = false
  room : c.rbuf.length + (recvBytes rs).length < ntcConnRbuf
  pongs : c.pending.length + pongsDue (c.rbuf ++ recvBytes rs) ≤ ntcStreamMaxBuf

/-- What the client of a connection sends in a step. -/
def wsBytesOf (k : ConnId) : Input → Bytes
  | .event (.client j read _ i) => if j = k ∧ read = true then recvBytes i.recvs else []
  | _ => []

/-- Where a WebSocket stands in the stream of frames its client sends: of the
    bytes `got` the first `n` frames have been relayed, and what has arrived of
    the next is in the buffer. -/
structure RelayAt (k : ConnId) (ct : CtrlId) (id : Nat) (fs : List WsClientFrame)
    (log : List QueuedFrame) (got : Bytes) (f : Flight) (n : Nat) (c : Conn) : Prop where
  opened : WsOpen f k ct id c
  received : got = (fs.take n).flatMap WsClientFrame.bytes ++ c.rbuf
  unfinished : Lib.Unfinished WsClientFrame.bytes (fs.drop n) c.rbuf
  relayed : sessionLog f k = log ++ (fs.take n).flatMap (relayed k ct id)

/-- Everything relayed is logged under the connection. -/
theorem sessionLog_relayed {f f' : Flight} {k : ConnId} {ct : CtrlId} {id : Nat}
    {fs : List WsClientFrame} (h : f'.queued = f.queued ++ fs.flatMap (relayed k ct id)) :
    sessionLog f' k = sessionLog f k ++ fs.flatMap (relayed k ct id) := by
  have hall : (fs.flatMap (relayed k ct id)).filter (·.conn == k) =
      fs.flatMap (relayed k ct id) := by
    refine List.filter_eq_self.mpr ?_
    intro q hq
    obtain ⟨f, -, hq⟩ := List.mem_flatMap.mp hq
    rw [Naitron.relayed] at hq
    split at hq
    · rw [List.mem_singleton.mp hq]
      exact beq_self_eq_true k
    · cases hq
  rw [sessionLog, sessionLog, h, List.filter_append, hall]

/-- Reading from the client. -/
theorem onWsReadable_relay {g : Gateway} {k : ConnId} {ct : CtrlId} {id n : Nat} {c : Conn}
    {fs : List WsClientFrame} {log : List QueuedFrame} {got : Bytes}
    (h : RelayAt k ct id fs log got g.toFlight n c) {rs : List RecvResult} (hroom : RoomyEvent c rs)
    (hbytes : got ++ recvBytes rs <+: fs.flatMap WsClientFrame.bytes)
    (hcalls : ¬ CallFailed E g.tick (onWsReadable E g k rs).2.tick) :
    ∃ m c', RelayAt k ct id fs log (got ++ recvBytes rs)
      (onWsReadable E g k rs).2.toFlight m c' := by
  have heq : onWsReadable E g k rs =
      wsLoop E k (c.rbuf ++ recvBytes rs).length g (c.rbuf ++ recvBytes rs) := by
    rw [onWsReadable, h.opened.conn]
    dsimp only
    rw [wsRecv_data rs c.rbuf hroom.goes_on hroom.room]
  -- what is in the buffer now, cut at the last frame boundary
  have hsplit : fs.flatMap WsClientFrame.bytes = (fs.take n).flatMap WsClientFrame.bytes ++
      (fs.drop n).flatMap WsClientFrame.bytes := by
    rw [← List.flatMap_append, List.take_append_drop]
  have hpre : c.rbuf ++ recvBytes rs <+: (fs.drop n).flatMap WsClientFrame.bytes := by
    rw [hsplit, h.received, List.append_assoc] at hbytes
    exact (List.prefix_append_right_inj _).mp hbytes
  obtain ⟨m, rest, hcut, hrest⟩ := Lib.Framing.exists_cut _ _ hpre
  have hpongs := hroom.pongs
  rw [pongsDue, hcut, wsFrames_stream hrest _ _ le_rfl, List.map_map] at hpongs
  rw [heq, hcut] at hcalls ⊢
  obtain ⟨-, c', hopen, hrbuf, hqueued⟩ :=
    wsLoop_kept E hrest _ _ le_rfl h.opened hpongs hcalls
  have htake : fs.take (n + m) = fs.take n ++ (fs.drop n).take m := List.take_add
  refine ⟨n + m, c', hopen, ?_, ?_, ?_⟩
  · rw [h.received, List.append_assoc, hcut, htake, List.flatMap_append, hrbuf, List.append_assoc]
  · rw [← List.drop_drop, hrbuf]
    exact hrest
  · rw [sessionLog_relayed hqueued, h.relayed, htake, List.flatMap_append, List.append_assoc]

/-- A readable event that leaves no room closes the connection. -/
theorem onWsReadable_full {g : Gateway} {k : ConnId} {c : Conn} (hc : g.conns k = some c)
    {rs : List RecvResult} (hends : recvEnds rs = false)
    (hfull : ntcConnRbuf ≤ c.rbuf.length + (recvBytes rs).length) :
    (onWsReadable E g k rs).2.conns k = none := by
  rw [onWsReadable, hc]
  dsimp only
  rw [wsRecv_full rs c.rbuf hends hfull]
  exact connClose_gone E g k

-- ============================================================================
-- Runs
-- ============================================================================

/-- A step while the client of a WebSocket sends: a quiet event of that client
    with room for what it brings, or a step that at most drains the
    connection's output, relays nothing for it and leaves its controller. -/
inductive RelayStep (k : ConnId) (ct : CtrlId) (g : Gateway) : Input → Prop
  | client (c : Conn) (read write : Bool) (i : ClientInput) (conn : g.conns k = some c)
      (room : read = true → RoomyEvent c i.recvs)
      (calls : ¬ CallFailed E g.tick (step E g (.event (.client k read write i))).tick) :
      RelayStep k ct g (.event (.client k read write i))
  | other (i : Input) (c c' : Conn) (silent : wsBytesOf k i = []) (conn : g.conns k = some c)
      (conn' : (step E g i).conns k = some c') (drains : Drains c c') (bounds : c'.InBounds)
      (log : sessionLog (step E g i).toFlight k = sessionLog g.toFlight k)
      (live : ((step E g i).ctrls ct).isSome = true) : RelayStep k ct g i

section Runs

variable {k : ConnId} {ct : CtrlId} {id n : Nat} {c c' : Conn} {fs : List WsClientFrame}
  {log : List QueuedFrame} {got : Bytes}

/-- The output of the connection drains. -/
theorem RelayAt.drains {f f' : Flight} (h : RelayAt k ct id fs log got f n c)
    (hc : f'.conns k = some c') (hd : Drains c c') (hb : c'.InBounds)
    (hlog : sessionLog f' k = sessionLog f k) (hlive : (f'.ctrls ct).isSome = true) :
    RelayAt k ct id fs log got f' n c' := by
  obtain ⟨-, -, -, hws, -, hin, hid, hstate, -⟩ := hd.fields
  have hwait : c'.waitCtrl = c.waitCtrl := by rw [hd]
  have hrbuf : c'.rbuf = c.rbuf := by rw [hd]
  have ho := h.opened
  exact ⟨⟨hc, ho.plain.drains hd hb, hstate.trans ho.state, hws.trans ho.isWs,
    hin.trans ho.inflight, hwait.trans ho.waitCtrl, hid.trans ho.reqId, hlive⟩,
    hrbuf ▸ h.received, hrbuf ▸ h.unfinished, hlog.trans h.relayed⟩

/-- An event of the client. -/
theorem onClientEvent_relay {g : Gateway} (h : RelayAt k ct id fs log got g.toFlight n c)
    {read write : Bool} {i : ClientInput} (hroom : read = true → RoomyEvent c i.recvs)
    (hbytes : got ++ wsBytesOf k (.event (.client k read write i)) <+:
      fs.flatMap WsClientFrame.bytes)
    (hcalls : ¬ CallFailed E g.tick (onClientEvent E g k read write i).tick) :
    ∃ m c', RelayAt k ct id fs log (got ++ wsBytesOf k (.event (.client k read write i)))
      (onClientEvent E g k read write i).toFlight m c' := by
  have heq : onClientEvent E g k read write i =
      (pushThen (if write then onWritable E g k else (.zero, g)) fun g =>
        (.zero, if read then (onWsReadable E g k i.recvs).2 else g)).2 := by
    rw [onClientEvent, h.opened.conn]
    dsimp only
    rw [h.opened.plain.tls, if_neg Bool.false_ne_true, h.opened.state]
    dsimp only
    rcases (if write then onWritable E g k else (.zero, g)) with ⟨rc, g'⟩
    cases rc with
    | neg => rfl
    | zero => rfl
  -- the read, from the state that the write leaves
  have hread : ∀ {g' : Gateway} {c' : Conn}, RelayAt k ct id fs log got g'.toFlight n c' →
      (read = true → RoomyEvent c' i.recvs) →
      ¬ CallFailed E g'.tick (if read then (onWsReadable E g' k i.recvs).2 else g').tick →
      ∃ m c', RelayAt k ct id fs log (got ++ wsBytesOf k (.event (.client k read write i)))
        (if read then (onWsReadable E g' k i.recvs).2 else g').toFlight m c' := by
    intro g' c' h' hroom' hcalls'
    cases hr : read with
    | false =>
        rw [if_neg Bool.false_ne_true, wsBytesOf, if_neg fun hr => Bool.false_ne_true hr.2,
          List.append_nil]
        exact ⟨n, c', h'⟩
    | true =>
        rw [hr] at hcalls' hbytes
        rw [wsBytesOf, if_pos ⟨rfl, rfl⟩] at hbytes ⊢
        exact onWsReadable_relay E h' (hroom' hr) hbytes hcalls'
  rw [heq] at hcalls ⊢
  cases hw : write with
  | false =>
      rw [hw] at hcalls
      exact hread h hroom hcalls
  | true =>
      rw [hw, if_pos rfl] at hcalls
      rw [if_pos rfl]
      have hpush := onWritable_pushed E h.opened.conn h.opened.plain
      have htick := tick_onWritable (E := E) (k := k) (le_refl g.tick)
      generalize onWritable E g k = r at hcalls hpush htick ⊢
      obtain ⟨rc, g'⟩ := r
      cases rc with
      | neg => exact absurd (hpush hcalls).rc (by simp)
      | zero =>
          dsimp only at hcalls hpush ⊢
          have hle : g'.tick ≤ (if read then (onWsReadable E g' k i.recvs).2 else g').tick := by
            split
            · exact tick_onWsReadable E le_rfl
            · exact le_rfl
          have hpush := hpush fun hfail => hcalls (hfail.mono le_rfl hle)
          obtain ⟨c', hc', hd, hb, hpend⟩ := hpush.conn
          have hrbuf : c'.rbuf = c.rbuf := by rw [hd]
          have hlog : sessionLog g'.toFlight k = sessionLog g.toFlight k :=
            congrArg (List.filter _) hpush.queued
          have hlive : (g'.ctrls ct).isSome = true := by
            rw [show g'.ctrls ct = g.ctrls ct by rw [hpush.ctrls]]
            exact h.opened.live
          refine hread (h.drains hc' hd hb hlog hlive) (fun hr => ?_) ?_
          · have hroom := hroom hr
            have hpongs := hroom.pongs
            refine ⟨hroom.goes_on, hrbuf ▸ hroom.room, ?_⟩
            rw [hrbuf]
            omega
          · exact fun hfail => hcalls (hfail.mono htick le_rfl)

/-- One step. -/
theorem step_relay {g : Gateway} (h : RelayAt k ct id fs log got g.toFlight n c) {i : Input}
    (hi : RelayStep E k ct g i) (hbytes : got ++ wsBytesOf k i <+: fs.flatMap WsClientFrame.bytes) :
    ∃ m c', RelayAt k ct id fs log (got ++ wsBytesOf k i) (step E g i).toFlight m c' := by
  cases hi with
  | client c₀ read write i conn room calls =>
      rw [h.opened.conn] at conn
      cases conn
      exact onClientEvent_relay E h room hbytes calls
  | other _ c₀ c' silent conn conn' drains bounds hlog live =>
      rw [h.opened.conn] at conn
      cases conn
      rw [silent, List.append_nil]
      exact ⟨n, c', h.drains conn' drains bounds hlog live⟩

/-- A whole run. -/
theorem run_relay :
    ∀ {is : List Input} {g : Gateway} {c : Conn} {n : Nat} {got : Bytes},
      RelayAt k ct id fs log got g.toFlight n c → Lib.Along (step E) (RelayStep E k ct) g is →
      got ++ is.flatMap (wsBytesOf k) <+: fs.flatMap WsClientFrame.bytes →
      ∃ m c', RelayAt k ct id fs log (got ++ is.flatMap (wsBytesOf k))
        (is.foldl (step E) g).toFlight m c' := by
  intro is
  induction is with
  | nil =>
      intro g c n got h _ _
      rw [List.flatMap_nil, List.append_nil]
      exact ⟨n, c, h⟩
  | cons i is ih =>
      intro g c n got h hrun hbytes
      rw [List.flatMap_cons, ← List.append_assoc] at hbytes ⊢
      obtain ⟨m, c', h'⟩ := step_relay E h hrun.1 ((List.prefix_append _ _).trans hbytes)
      exact ih h' hrun.2 hbytes

/-- An event that fills the receive buffer. -/
theorem onClientEvent_full {g : Gateway} (h : WsOpen g.toFlight k ct id c) {i : ClientInput}
    (write : Bool) (hends : recvEnds i.recvs = false)
    (hfull : ntcConnRbuf ≤ c.rbuf.length + (recvBytes i.recvs).length) :
    (onClientEvent E g k true write i).conns k = none := by
  have heq : onClientEvent E g k true write i =
      (pushThen (if write then onWritable E g k else (.zero, g)) fun g =>
        (.zero, (onWsReadable E g k i.recvs).2)).2 := by
    rw [onClientEvent, h.conn]
    dsimp only
    rw [h.plain.tls, if_neg Bool.false_ne_true, h.state]
    dsimp only
    rcases (if write then onWritable E g k else (.zero, g)) with ⟨rc, g'⟩
    cases rc with
    | neg => rfl
    | zero => rfl
  rw [heq]
  cases write with
  | false => exact onWsReadable_full E h.conn hends hfull
  | true =>
      rw [if_pos rfl]
      have hflow := onWritable_flow E h.conn h.plain.bounds
      generalize onWritable E g k = r at hflow ⊢
      obtain ⟨rc, g'⟩ := r
      cases hflow with
      | live c' hrc hc' hd =>
          cases hrc
          have hrbuf : c'.rbuf = c.rbuf := by rw [hd]
          exact onWsReadable_full E hc' hends (hrbuf ▸ hfull)
      | done hrc hgone | failed hrc hgone =>
          cases hrc
          exact hgone

end Runs

/-- The relay loses nothing of what the client sends in events with room.

    If every readable event leaves the receive buffer short of `NTC_CONN_RBUF`
    and the PONGs it asks for fit the output buffer, the WebSocket stays open
    and what is queued for it is one `WS_MSG` for each whole data frame so far,
    in order; all of them when all bytes are there.  An event that fills the
    buffer closes the connection, whatever the frames in it. -/
theorem ws_relay_with_room (k : ConnId) (ct : CtrlId) (id : Nat) :
    (∀ (g : Gateway) (c : Conn) (fs : List WsClientFrame) (is : List Input),
      WsOpen g.toFlight k ct id c → c.rbuf = [] → Lib.Along (step E) (RelayStep E k ct) g is →
      is.flatMap (wsBytesOf k) <+: fs.flatMap WsClientFrame.bytes →
      (∃ n c', WsOpen (is.foldl (step E) g).toFlight k ct id c' ∧
        is.flatMap (wsBytesOf k) = (fs.take n).flatMap WsClientFrame.bytes ++ c'.rbuf ∧
        Lib.Unfinished WsClientFrame.bytes (fs.drop n) c'.rbuf ∧
        sessionLog (is.foldl (step E) g).toFlight k =
          sessionLog g.toFlight k ++ (fs.take n).flatMap (relayed k ct id)) ∧
      (is.flatMap (wsBytesOf k) = fs.flatMap WsClientFrame.bytes →
        sessionLog (is.foldl (step E) g).toFlight k =
          sessionLog g.toFlight k ++ fs.flatMap (relayed k ct id))) ∧
    (∀ (g : Gateway) (c : Conn) (i : ClientInput) (write : Bool), WsOpen g.toFlight k ct id c →
      recvEnds i.recvs = false → ntcConnRbuf ≤ c.rbuf.length + (recvBytes i.recvs).length →
      (step E g (.event (.client k true write i))).conns k = none) := by
  constructor
  · intro g c fs is h hempty hrun hbytes
    have hstart : RelayAt k ct id fs (sessionLog g.toFlight k) [] g.toFlight 0 c := by
      refine ⟨h, by rw [hempty]; rfl, ?_, (List.append_nil _).symm⟩
      rw [hempty, List.drop_zero]
      cases fs with
      | nil => rfl
      | cons f fs => exact ⟨List.nil_prefix, (Nat.zero_lt_two).trans_le f.two_le_length⟩
    obtain ⟨n, c', hat⟩ := run_relay E hstart hrun hbytes
    rw [List.nil_append] at hat
    refine ⟨⟨n, c', hat.opened, hat.received, hat.unfinished, hat.relayed⟩, fun hall => ?_⟩
    have hwhole := (Lib.Framing.cut_whole (hall.symm.trans hat.received) hat.unfinished).1
    rw [hat.relayed, hwhole]
  · intro g c i write h hends hfull
    exact onClientEvent_full E h write hends hfull

/-! ## Whole frames, and one that is too big -/

/-- A text message, a PING and a binary message. -/
def helloTalk : List WsClientFrame :=
  [⟨.text, true, [1, 2, 3, 4], lit "hi", Or.inl rfl, rfl, by decide +kernel, by decide⟩,
    ⟨.ping, true, [9, 8, 7, 6], lit "p", Or.inr (Or.inr (Or.inl rfl)), rfl, by decide +kernel,
      by decide⟩,
    ⟨.bin, true, [0, 0, 0, 0], [0, 255], Or.inr (Or.inl rfl), rfl, by decide +kernel, by decide⟩]

/-- They arrive in two pieces, cut inside the PING. -/
def helloPieceOf (n : Bool) : List RecvResult :=
  if n then .eintr :: recvOf ((helloTalk.flatMap WsClientFrame.bytes).drop 11)
  else recvOf ((helloTalk.flatMap WsClientFrame.bytes).take 11)

def helloTalkEvent (n : Bool) : Input := .event (.client 0 true n { recvs := helloPieceOf n })

theorem quietExt_calls (n m : Nat) : ¬ CallFailed quietExt n m := by
  rintro ⟨i, -, -, hok | herr⟩
  · cases hok
  · cases herr

/-- The session is open, and nothing has arrived. -/
theorem helloUpgraded_open : ∃ c, WsOpen (helloUpgraded quietExt).toFlight 0 0 4095 c ∧
    c.rbuf = [] ∧ c.pending.length = 101 := by
  -- one evaluation of the run for all of its facts
  have hfacts :
      ((helloUpgraded quietExt).conns 0).map (fun c =>
        (c.tls, c.streaming, c.streamEnded, c.isWs, c.inflight)) =
          some (false, true, false, true, true) ∧
      ((helloUpgraded quietExt).conns 0).map (fun c => (c.state, c.waitCtrl, c.reqId)) =
        some (.csWs, some 0, 4095) ∧
      ((helloUpgraded quietExt).conns 0).map (fun c => (c.rbuf, c.pending.length,
        decide (c.swsent ≤ c.swbuf.length), decide (c.wsent ≤ c.wbuf.length))) =
          some ([], 101, true, true) ∧
      ((helloUpgraded quietExt).ctrls 0).isSome = true := by
    decide +kernel
  obtain ⟨hmode, hstate, hbufs, hlive⟩ := hfacts
  generalize helloUpgraded quietExt = g at *
  obtain ⟨c, hc, hstate⟩ := Option.map_eq_some_iff.mp hstate
  rw [hc, Option.map_some, Option.some.injEq] at hmode hbufs
  simp only [Prod.mk.injEq, decide_eq_true_eq] at hmode hstate hbufs
  obtain ⟨htls, hstream, hended, hws, hin⟩ := hmode
  obtain ⟨hstate, hwait, hid⟩ := hstate
  obtain ⟨hrbuf, hpend, hswb, hwb⟩ := hbufs
  exact ⟨c, ⟨hc, ⟨htls, hstream, hended, ⟨hswb, hwb⟩⟩, hstate, hws, hin, hwait, hid, hlive⟩, hrbuf,
    hpend⟩

/-- A readable event of the run. -/
theorem helloTalkEvent_step {g : Gateway} {n : Bool} {buf : Bytes} {len : Nat}
    (hbuf : (g.conns 0).map (fun c => (c.rbuf, c.pending.length)) = some (buf, len))
    (hends : recvEnds (helloPieceOf n) = false)
    (hroom : buf.length + (recvBytes (helloPieceOf n)).length < ntcConnRbuf)
    (hpongs : len + pongsDue (buf ++ recvBytes (helloPieceOf n)) ≤ ntcStreamMaxBuf) :
    RelayStep quietExt 0 0 g (helloTalkEvent n) := by
  obtain ⟨c, hc, heq⟩ := Option.map_eq_some_iff.mp hbuf
  obtain ⟨rfl, rfl⟩ := Prod.mk.inj heq
  exact .client c true n _ hc (fun _ => ⟨hends, hroom, hpongs⟩) (quietExt_calls _ _)

theorem ws_relay_with_room_hello :
    sessionLog ([helloTalkEvent false, helloTalkEvent true].foldl (step quietExt)
        (helloUpgraded quietExt)).toFlight 0 =
      sessionLog (helloUpgraded quietExt).toFlight 0 ++ helloTalk.flatMap (relayed 0 0 4095) := by
  obtain ⟨c, hopen, hrbuf, -⟩ := helloUpgraded_open
  have hfacts :
      ((helloUpgraded quietExt).conns 0).map (fun c => (c.rbuf, c.pending.length)) =
        some ([], 101) ∧
      ((step quietExt (helloUpgraded quietExt) (helloTalkEvent false)).conns 0).map
        (fun c => (c.rbuf, c.pending.length)) =
          some (((helloTalk.flatMap WsClientFrame.bytes).drop 8).take 3, 101) := by
    decide +kernel
  obtain ⟨hfirst, hsecond⟩ := hfacts
  have hall : [helloTalkEvent false, helloTalkEvent true].flatMap (wsBytesOf 0) =
      helloTalk.flatMap WsClientFrame.bytes := by
    decide +kernel
  generalize helloUpgraded quietExt = g at *
  obtain ⟨hrun, -⟩ := ws_relay_with_room quietExt 0 0 4095
  refine (hrun g c helloTalk [helloTalkEvent false, helloTalkEvent true] hopen hrbuf
    ⟨?_, ?_, trivial⟩ (hall ▸ List.prefix_rfl)).2 hall
  · exact helloTalkEvent_step hfirst (by decide) (by decide +kernel) (by decide +kernel)
  · exact helloTalkEvent_step hsecond (by decide) (by decide +kernel) (by decide +kernel)

/-- A binary message of `n` bytes. -/
def bigMessage (n : Nat) (hn : n ≤ ntcWsMaxPayload) : WsClientFrame :=
  ⟨.bin, true, [0, 0, 0, 0], List.replicate n 7, Or.inr (Or.inl rfl), rfl,
    List.length_replicate.le.trans hn, by rintro (h | h) <;> cases h⟩

/-- The client sends the first `m` bytes of it. -/
def bigEvent (n : Nat) (hn : n ≤ ntcWsMaxPayload) (m : Nat) : ClientInput :=
  { recvs := recvOf ((bigMessage n hn).bytes.take m) }

theorem recvBytes_recvOf (bs : Bytes) :
    recvBytes (recvOf bs) = bs ∧ recvEnds (recvOf bs) = false := by
  cases bs with
  | nil => exact ⟨rfl, rfl⟩
  | cons b bs => exact ⟨List.append_nil _, rfl⟩

/-- What the event brings. -/
theorem bigEvent_recv (n : Nat) (hn : n ≤ ntcWsMaxPayload) (m : Nat) :
    recvBytes (bigEvent n hn m).recvs = (bigMessage n hn).bytes.take m ∧
      recvEnds (bigEvent n hn m).recvs = false :=
  recvBytes_recvOf _

theorem bigEvent_bytes (n : Nat) (hn : n ≤ ntcWsMaxPayload) (m : Nat) :
    wsBytesOf 0 (.event (.client 0 true false (bigEvent n hn m))) <+:
      [bigMessage n hn].flatMap WsClientFrame.bytes := by
  rw [List.flatMap_singleton, wsBytesOf, if_pos ⟨rfl, rfl⟩, (bigEvent_recv n hn m).1]
  exact List.take_prefix _ _

/-- As much of it as fills the receive buffer closes the connection. -/
theorem bigEvent_closes {g : Gateway} {ct : CtrlId} {id : Nat} {c : Conn}
    (h : WsOpen g.toFlight 0 ct id c) {n : Nat} (hn : n ≤ ntcWsMaxPayload)
    (hbig : ntcConnRbuf ≤ n) :
    (step quietExt g (.event (.client 0 true false (bigEvent n hn n)))).conns 0 = none := by
  refine onClientEvent_full quietExt h false (bigEvent_recv n hn n).2 ?_
  have hpay : (bigMessage n hn).payload.length = n := List.length_replicate
  rw [(bigEvent_recv n hn n).1, List.length_take, WsClientFrame.length_bytes, hpay]
  omega

/-- A message of 64 KiB, a sixteenth of what `NTC_WS_MAX_PAYLOAD` promises,
    never reaches the controller: when its first 64 KiB are there, the
    connection is closed. -/
theorem ws_relay_loses_big_message :
    ∃ (n : Nat) (hn : n ≤ ntcWsMaxPayload) (c : Conn),
      WsOpen (helloUpgraded quietExt).toFlight 0 0 4095 c ∧ c.rbuf = [] ∧
      wsBytesOf 0 (.event (.client 0 true false (bigEvent n hn n))) <+:
        [bigMessage n hn].flatMap WsClientFrame.bytes ∧
      recvEnds (bigEvent n hn n).recvs = false ∧
      (step quietExt (helloUpgraded quietExt)
        (.event (.client 0 true false (bigEvent n hn n)))).conns 0 = none := by
  obtain ⟨c, hopen, hrbuf, -⟩ := helloUpgraded_open
  have hmax : ntcConnRbuf ≤ ntcWsMaxPayload := by decide +kernel
  exact ⟨ntcConnRbuf, hmax, c, hopen, hrbuf, bigEvent_bytes _ _ _, (bigEvent_recv _ _ _).2,
    bigEvent_closes hopen hmax le_rfl⟩

end Naitron
