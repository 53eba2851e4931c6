/-
  Naitron.Server.Output

  Output buffers.  A buffer and an offset into it stand for the bytes still to
  be written; sending moves bytes from there to the socket, whatever the
  socket does.

  `Flow` is what every function that writes to a client does with the bytes
  written and to be written: the connection stays open and none is lost, or it
  was closed when all were written, or it was closed early, for a reason that
  is named.
-/

import Naitron.Server.ConnEffects

namespace Naitron

variable (E : Ext)

-- ============================================================================
-- Sending
-- ============================================================================

/-- What a send loop leaves of the offset: it moves forward, stays within the
    buffer, and is at the end exactly when the loop is done. -/
theorem sendLoop_sent {len : Nat} :
    ∀ (ss : List SendResult) {sent : Nat}, sent ≤ len →
      sent ≤ (sendLoop len ss sent).2 ∧ (sendLoop len ss sent).2 ≤ len ∧
        ((sendLoop len ss sent).1 = .done ↔ (sendLoop len ss sent).2 = len) := by
  intro ss
  induction ss with
  | nil =>
      intro sent h
      rw [sendLoop]
      refine ⟨le_rfl, h, ?_⟩
      by_cases hlen : len ≤ sent
      · simp only [if_pos hlen, true_iff]
        omega
      · simp only [if_neg hlen, reduceCtorEq, false_iff]
        omega
  | cons r ss ih =>
      intro sent h
      rw [sendLoop.eq_def]
      dsimp only
      by_cases hlen : len ≤ sent
      · rw [if_pos hlen]
        exact ⟨le_rfl, h, fun _ => le_antisymm h hlen, fun _ => rfl⟩
      · rw [if_neg hlen]
        cases r with
        | more n =>
            have hin : sent + min (n + 1) (len - sent) ≤ len := by omega
            obtain ⟨hge, hle, hiff⟩ := ih hin
            exact ⟨(Nat.le_add_right _ _).trans hge, hle, hiff⟩
        | eintr => exact ih h
        | eagain | error =>
            refine ⟨le_rfl, h, ?_⟩
            simp only [reduceCtorEq, false_iff]
            omega

/-- A send loop fails only on a socket that reports an error. -/
theorem sendLoop_failed {len : Nat} :
    ∀ {ss : List SendResult} {sent : Nat}, (sendLoop len ss sent).1 = .failed → .error ∈ ss := by
  intro ss
  induction ss with
  | nil =>
      intro sent h
      rw [sendLoop] at h
      split at h <;> cases h
  | cons r ss ih =>
      intro sent h
      by_cases hlen : len ≤ sent
      · simp [sendLoop, hlen] at h
      · cases r with
        | more n => exact List.mem_cons_of_mem _ (ih (by simpa [sendLoop, hlen] using h))
        | eintr => exact List.mem_cons_of_mem _ (ih (by simpa [sendLoop, hlen] using h))
        | eagain => simp [sendLoop, hlen] at h
        | error => exact List.mem_cons_self

/-- The bytes between two offsets and those behind the second. -/
theorem slicePart_append_drop (buf : Bytes) {i j : Nat} (h : i ≤ j) :
    slicePart buf i j ++ buf.drop j = buf.drop i := by
  have hdrop : buf.drop j = (buf.drop i).drop (j - i) := by
    rw [List.drop_drop, Nat.add_sub_cancel' h]
  rw [slicePart, hdrop, List.take_append_drop]

-- ============================================================================
-- Closing
-- ============================================================================

theorem connClose_gone (g : Gateway) (k : ConnId) : (connClose E g k).conns k = none := by
  unfold connClose
  split
  · rename_i hc
    exact hc
  · exact Function.update_self _ _ _

/-- Closing writes nothing. -/
theorem connClose_sent (g : Gateway) (k : ConnId) : (connClose E g k).sent = g.sent := by
  have hqueue : ∀ ct c, (ctrlQueue E g ct k .wsClose c (ntcWireEncodeWsClose 1000)).2.sent =
      g.sent := by
    intro ct rid
    obtain ⟨t, t', -, -, -, heq⟩ | ⟨-, -, heq⟩ | ⟨-, heq⟩ :=
      ctrlQueue_cases E g ct k .wsClose rid (ntcWireEncodeWsClose 1000)
    all_goals
      show (ctrlQueue E g ct k .wsClose rid (ntcWireEncodeWsClose 1000)).2.toFlight.sent = g.sent
      rw [heq]
  have hnotify : ∀ c, (notifyWsClose E g k c).sent = g.sent := by
    intro c
    unfold notifyWsClose
    split
    · split
      · exact hqueue _ _
      · rfl
    · rfl
  unfold connClose
  split
  · rfl
  · rename_i c _
    dsimp only [dropConn]
    split
    · rw [← hnotify c, releaseSlot, gwFreeSlot, Gateway.modConn]
      split <;> rfl
    · exact hnotify c

theorem ctrlQueue_tick (g : Gateway) (ct : CtrlId) (k : ConnId) (type : NtcMsgType) (rid : Nat)
    (payload : Bytes) : (ctrlQueue E g ct k type rid payload).2.tick = g.tick + 1 := by
  cases hok : (E.io g.tick).ok with
  | false => simp [ctrlQueue, Gateway.ask, hok]
  | true =>
      cases ht : g.ctrls ct <;> simp [ctrlQueue, Gateway.ask, hok, Gateway.enqueue, ht]

theorem connClose_tick (g : Gateway) (k : ConnId) : g.tick ≤ (connClose E g k).tick := by
  have hnotify : ∀ c, g.tick ≤ (notifyWsClose E g k c).tick := by
    intro c
    unfold notifyWsClose
    split
    · split
      · rw [ctrlQueue_tick]
        exact Nat.le_succ _
      · exact le_rfl
    · exact le_rfl
  unfold connClose
  split
  · exact le_rfl
  · rename_i c _
    dsimp only [dropConn]
    split
    · refine (hnotify c).trans (le_of_eq ?_)
      rw [releaseSlot, gwFreeSlot, Gateway.modConn]
      split <;> rfl
    · exact hnotify c

-- ============================================================================
-- The output of a connection
-- ============================================================================

/-- The bytes a connection has yet to write. -/
def Conn.pending (c : Conn) : Bytes :=
  if c.streaming then c.swbuf.drop c.swsent else c.wbuf.drop c.wsent

/-- The offsets are within the buffers. -/
structure Conn.InBounds (c : Conn) : Prop where
  stream : c.swsent ≤ c.swbuf.length
  atomic : c.wsent ≤ c.wbuf.length

/-- Only the output buffers differ. -/
def Drains (c c' : Conn) : Prop :=
  c' = { c with swbuf := c'.swbuf, swsent := c'.swsent, wsent := c'.wsent }

/-- A call made between two ticks failed: no memory, no poller, or an error on
    the socket. -/
def CallFailed (n m : Nat) : Prop :=
  ∃ i, n ≤ i ∧ i < m ∧ ((E.io i).ok = false ∨ SendResult.error ∈ (E.io i).sends)

theorem CallFailed.mono {E : Ext} {n m n' m' : Nat} (h : CallFailed E n m) (hn : n' ≤ n)
    (hm : m ≤ m') : CallFailed E n' m' := by
  obtain ⟨i, hi, hi', hwhy⟩ := h
  exact ⟨i, hn.trans hi, hi'.trans_le hm, hwhy⟩

/-- The first call after a tick failed. -/
theorem CallFailed.here {E : Ext} {n m : Nat} (h : n < m)
    (hwhy : (E.io n).ok = false ∨ SendResult.error ∈ (E.io n).sends) : CallFailed E n m :=
  ⟨n, le_rfl, h, hwhy⟩

/-- What becomes of the output `all` of connection `k`, as `c` was: written
    and yet to be written. -/
inductive Flow (k : ConnId) (c : Conn) (all : Bytes) (n : Nat) (r : Rc × Gateway) : Prop
  /-- The connection is open, and nothing is lost. -/
  | live (c' : Conn) (rc : r.1 = .zero) (conn : r.2.conns k = some c') (drains : Drains c c')
      (bounds : c'.InBounds) (tick : n ≤ r.2.tick) (eq : r.2.sent k ++ c'.pending = all)
  /-- Everything is written, and the connection closed. -/
  | done (rc : r.1 = .neg) (gone : r.2.conns k = none)
      (ended : c.streaming = true → c.streamEnded = true) (tick : n ≤ r.2.tick)
      (eq : r.2.sent k = all)
  /-- The connection was closed early: over TLS, by a failed call, or with too
      much to write. -/
  | failed (rc : r.1 = .neg) (gone : r.2.conns k = none) (tick : n ≤ r.2.tick)
      (part : r.2.sent k <+: all)
      (why : c.tls = true ∨ CallFailed E n r.2.tick ∨
        ntcStreamMaxBuf + (r.2.sent k).length < all.length)

theorem Drains.refl (c : Conn) : Drains c c := rfl

/-- What draining leaves as it was. -/
theorem Drains.fields {c c' : Conn} (h : Drains c c') :
    c'.streaming = c.streaming ∧ c'.streamEnded = c.streamEnded ∧ c'.tls = c.tls ∧
      c'.isWs = c.isWs ∧ c'.streamSse = c.streamSse ∧ c'.inflight = c.inflight ∧
      c'.reqId = c.reqId ∧ c'.state = c.state ∧ c'.wbuf = c.wbuf := by
  rw [Drains] at h
  rw [h]
  exact ⟨rfl, rfl, rfl, rfl, rfl, rfl, rfl, rfl, rfl⟩

theorem Drains.trans {c c' c'' : Conn} (h : Drains c c') (h' : Drains c' c'') : Drains c c'' := by
  rw [Drains] at h h' ⊢
  rw [h', h]

/-- A connection closed early, with nothing written. -/
theorem Flow.of_close {g : Gateway} {k : ConnId} {c : Conn} {all : Bytes} {n : Nat}
    (htick : n ≤ g.tick) (hpart : g.sent k <+: all)
    (hwhy : c.tls = true ∨ CallFailed E n g.tick ∨
      ntcStreamMaxBuf + (g.sent k).length < all.length) :
    Flow E k c all n (.neg, connClose E g k) := by
  have hle := connClose_tick E g k
  refine .failed rfl (connClose_gone E g k) (htick.trans hle) ?_ ?_
  · rw [connClose_sent]
    exact hpart
  · rw [connClose_sent]
    exact hwhy.imp_right (Or.imp_left fun h => h.mono le_rfl hle)

/-- Flow of a connection that drained on the way. -/
theorem Flow.of_drains {k : ConnId} {c c' : Conn} {all : Bytes} {n m : Nat} {r : Rc × Gateway}
    (h : Flow E k c' all m r) (hd : Drains c c') (hn : n ≤ m) : Flow E k c all n r := by
  obtain ⟨hstream, hended, htls, -⟩ := hd.fields
  cases h with
  | live c'' rc conn drains bounds tick eq =>
      exact .live c'' rc conn (hd.trans drains) bounds (hn.trans tick) eq
  | done rc gone ended tick eq =>
      exact .done rc gone (fun hs => hended ▸ ended (hstream ▸ hs)) (hn.trans tick) eq
  | failed rc gone tick part why =>
      exact .failed rc gone (hn.trans tick) part
        (why.imp (fun h => htls ▸ h) (Or.imp_left fun h => h.mono hn le_rfl))

-- ============================================================================
-- Writing
-- ============================================================================

/-- The state after bytes were handed to the socket. -/
theorem emit_sent (g : Gateway) (k : ConnId) (out : Bytes) :
    (g.emit k out).sent k = g.sent k ++ out :=
  Function.update_self _ _ _

theorem modConn_conn {g : Gateway} {k : ConnId} {c : Conn} (hc : g.conns k = some c)
    (F : Conn → Conn) : (g.modConn k F).conns k = some (F c) := by
  simp [Gateway.modConn, hc]

theorem modConn_ctrls (g : Gateway) (k : ConnId) (F : Conn → Conn) :
    (g.modConn k F).ctrls = g.ctrls := by
  unfold Gateway.modConn
  split <;> rfl

theorem modConn_queued (g : Gateway) (k : ConnId) (F : Conn → Conn) :
    (g.modConn k F).queued = g.queued := by
  unfold Gateway.modConn
  split <;> rfl

theorem modConn_sent (g : Gateway) (k : ConnId) (F : Conn → Conn) :
    (g.modConn k F).sent = g.sent := by
  unfold Gateway.modConn
  split <;> rfl

theorem modConn_tick (g : Gateway) (k : ConnId) (F : Conn → Conn) :
    (g.modConn k F).tick = g.tick := by
  unfold Gateway.modConn
  split <;> rfl

/-- `on_writable` on a stream once the send loop has come to offset `j`. -/
theorem streamSent_flow {g : Gateway} {k : ConnId} {c : Conn} {all : Bytes} {n j : Nat}
    (hc : g.conns k = some c) (hs : c.streaming = true) (hb : c.InBounds) (hj : j ≤ c.swbuf.length)
    (htick : n < g.tick) (hall : g.sent k ++ c.swbuf.drop j = all) :
    Flow E k c all n (.zero, g.modConn k fun c => { c with swsent := j }) ∧
      (j = c.swbuf.length →
        (c.streamEnded = true → Flow E k c all n
          (.neg, connClose E (g.modConn k fun c => { c with swbuf := [], swsent := 0 }) k)) ∧
        Flow E k c all n
          (if ((g.modConn k fun c => { c with swbuf := [], swsent := 0 }).ask E).1.ok then
            (.zero, ((g.modConn k fun c => { c with swbuf := [], swsent := 0 }).ask E).2)
          else (.neg, connClose E
            ((g.modConn k fun c => { c with swbuf := [], swsent := 0 }).ask E).2 k))) := by
  refine ⟨.live _ rfl (modConn_conn hc _) rfl ⟨hj, hb.atomic⟩ ?_ ?_, ?_⟩
  · rw [modConn_tick]
    exact htick.le
  · rw [modConn_sent, Conn.pending, if_pos hs]
    exact hall
  · intro hend
    rw [hend, List.drop_length, List.append_nil] at hall
    have hconn := modConn_conn hc fun c => { c with swbuf := [], swsent := 0 }
    have hsent : (g.modConn k fun c => { c with swbuf := [], swsent := 0 }).sent k = all := by
      rw [modConn_sent]
      exact hall
    have htick' := modConn_tick g k fun c => { c with swbuf := [], swsent := 0 }
    generalize g.modConn k (fun c => { c with swbuf := [], swsent := 0 }) = g' at hconn hsent htick' ⊢
    refine ⟨fun hended => .done rfl (connClose_gone E _ k) (fun _ => hended) ?_ ?_, ?_⟩
    · exact (htick'.symm ▸ htick.le).trans (connClose_tick E g' k)
    · rw [connClose_sent]
      exact hsent
    · split
      · refine .live _ rfl hconn rfl ⟨le_rfl, hb.atomic⟩ ?_ ?_
        · exact (htick'.symm ▸ htick.le).trans (Nat.le_succ _)
        · rw [Conn.pending, if_pos hs, List.drop_nil, List.append_nil]
          exact hsent
      · rename_i hok
        have hlt : n < g'.tick + 1 := (htick'.symm ▸ htick.le).trans_lt (Nat.lt_succ_self _)
        refine .of_close E hlt.le ?_ (Or.inr (Or.inl ⟨g'.tick, ?_, Nat.lt_succ_self _, Or.inl ?_⟩))
        · exact hsent ▸ List.prefix_rfl
        · exact Nat.le_of_lt_succ hlt
        · exact Bool.eq_false_iff.mpr hok

theorem onWritableStream_flow {g : Gateway} {k : ConnId} {c : Conn} (hc : g.conns k = some c)
    (hb : c.InBounds) (hs : c.streaming = true) :
    Flow E k c (g.sent k ++ c.pending) g.tick (onWritableStream E g k c) := by
  obtain ⟨hge, hle, hdone⟩ := sendLoop_sent (g.ask E).1.sends hb.stream
  have hall : ((g.ask E).2.emit k (slicePart c.swbuf c.swsent
      (sendLoop c.swbuf.length (g.ask E).1.sends c.swsent).2)).sent k ++
        c.swbuf.drop (sendLoop c.swbuf.length (g.ask E).1.sends c.swsent).2 =
      g.sent k ++ c.pending := by
    rw [emit_sent, List.append_assoc, slicePart_append_drop c.swbuf hge, Conn.pending, if_pos hs]
    rfl
  have hflow := streamSent_flow E (g := (g.ask E).2.emit k (slicePart c.swbuf c.swsent
    (sendLoop c.swbuf.length (g.ask E).1.sends c.swsent).2)) hc hs hb hle
    (Nat.lt_succ_self g.tick) hall
  unfold onWritableStream
  dsimp only
  cases hend : (sendLoop c.swbuf.length (g.ask E).1.sends c.swsent).1 with
  | failed =>
      refine .of_close E (Nat.le_succ _) (hall ▸ List.prefix_append _ _) (Or.inr (Or.inl ?_))
      exact .here (Nat.lt_succ_self _) (Or.inr (sendLoop_failed hend))
  | blocked => exact hflow.1
  | done =>
      obtain ⟨hclose, hstay⟩ := hflow.2 (hdone.mp hend)
      dsimp only
      split
      · rename_i hended
        exact hclose hended
      · exact hstay

theorem onWritableAtomic_flow {g : Gateway} {k : ConnId} {c : Conn} (hc : g.conns k = some c)
    (hb : c.InBounds) (hs : c.streaming = false) :
    Flow E k c (g.sent k ++ c.pending) g.tick (onWritableAtomic E g k c) := by
  obtain ⟨hge, hle, hdone⟩ := sendLoop_sent (g.ask E).1.sends hb.atomic
  have hfail := @sendLoop_failed c.wbuf.length (g.ask E).1.sends c.wsent
  have hpend : c.pending = c.wbuf.drop c.wsent := by rw [Conn.pending, if_neg (by simp [hs])]
  unfold onWritableAtomic
  dsimp only
  generalize sendLoop c.wbuf.length (g.ask E).1.sends c.wsent = r at hge hle hdone hfail ⊢
  have hall : ((g.ask E).2.emit k (slicePart c.wbuf c.wsent r.2)).sent k ++ c.wbuf.drop r.2 =
      g.sent k ++ c.pending := by
    rw [emit_sent, List.append_assoc, slicePart_append_drop c.wbuf hge, hpend]
    rfl
  have hconn : ((g.ask E).2.emit k (slicePart c.wbuf c.wsent r.2)).conns k = some c := hc
  have htick : ((g.ask E).2.emit k (slicePart c.wbuf c.wsent r.2)).tick = g.tick + 1 := rfl
  generalize (g.ask E).2.emit k (slicePart c.wbuf c.wsent r.2) = g' at hall hconn htick ⊢
  cases hend : r.1 with
  | failed =>
      refine .of_close E (by omega) (hall ▸ List.prefix_append _ _) (Or.inr (Or.inl ?_))
      exact .here (by omega) (Or.inr (hfail hend))
  | blocked =>
      refine .live _ rfl (modConn_conn hconn _) rfl ⟨hb.stream, hle⟩ (by rw [modConn_tick]; omega) ?_
      rw [modConn_sent, Conn.pending, if_neg (by simp [hs])]
      exact hall
  | done =>
      refine .done rfl (connClose_gone E _ k) (fun ht => ?_) ?_ ?_
      · rw [hs] at ht
        cases ht
      · exact le_trans (by omega) (connClose_tick E g' k)
      · rw [connClose_sent, ← hall, hdone.mp hend, List.drop_length, List.append_nil]

theorem tlsSend_sent {len : Nat} :
    ∀ (ns : List Nat) {sent : Nat}, sent ≤ len → sent ≤ tlsSend len ns sent ∧
      tlsSend len ns sent ≤ len := by
  intro ns
  induction ns with
  | nil => exact fun h => ⟨le_rfl, h⟩
  | cons m ns ih =>
      intro sent h
      rw [tlsSend]
      split
      · exact ⟨le_rfl, h⟩
      · split
        · exact ⟨le_rfl, h⟩
        · have hin : sent + min m (len - sent) ≤ len := by omega
          obtain ⟨hge, hle⟩ := ih hin
          exact ⟨(Nat.le_add_right _ _).trans hge, hle⟩

/-- What the TLS write loop leaves of the offset. -/
theorem tlsLoop_sent (streaming ended : Bool) {len : Nat} :
    ∀ (rounds : List TlsRound) {sent : Nat}, sent ≤ len →
      sent ≤ (tlsLoop streaming ended len rounds sent).2 ∧
        (tlsLoop streaming ended len rounds sent).2 ≤ len ∧
        ((tlsLoop streaming ended len rounds sent).1 = .drained →
          streaming = true ∧ (tlsLoop streaming ended len rounds sent).2 = len) := by
  intro rounds
  induction rounds with
  | nil =>
      intro sent h
      exact ⟨le_rfl, h, fun hd => by cases hd⟩
  | cons r rounds ih =>
      intro sent h
      obtain ⟨hge, hle⟩ := tlsSend_sent r.accepted h
      rw [tlsLoop]
      split
      · exact ⟨hge, hle, fun hd => by cases hd⟩
      split
      · exact ⟨hge, hle, fun hd => by cases hd⟩
      split
      · exact ⟨hge, hle, fun hd => by cases hd⟩
      split
      · rename_i hall
        split
        · exact ⟨hge, hle, fun hd => by cases hd⟩
        · rename_i hgo
          refine ⟨hge, hle, fun _ => ⟨?_, le_antisymm hle hall⟩⟩
          simp only [Bool.or_eq_true, Bool.not_eq_true', not_or] at hgo
          simpa using hgo.1
      · split
        · exact ⟨hge, hle, fun hd => by cases hd⟩
        · obtain ⟨hge', hle', hd⟩ := ih hle
          exact ⟨hge.trans hge', hle', hd⟩

theorem tlsDriveWrite_flow {g : Gateway} {k : ConnId} {c : Conn} (hc : g.conns k = some c)
    (hb : c.InBounds) (htls : c.tls = true) :
    Flow E k c (g.sent k ++ c.pending) g.tick (tlsDriveWrite E g k c) := by
  have hstart : (if c.streaming then c.swsent else c.wsent) ≤
      (if c.streaming then c.swbuf else c.wbuf).length := by
    split
    · exact hb.stream
    · exact hb.atomic
  have hpend : c.pending =
      (if c.streaming then c.swbuf else c.wbuf).drop (if c.streaming then c.swsent else c.wsent) := by
    rw [Conn.pending]
    split <;> rfl
  obtain ⟨hge, hle, hdrained⟩ := tlsLoop_sent c.streaming c.streamEnded (g.ask E).1.rounds hstart
  unfold tlsDriveWrite
  dsimp only
  generalize hr : tlsLoop c.streaming c.streamEnded (if c.streaming then c.swbuf else c.wbuf).length
    (g.ask E).1.rounds (if c.streaming then c.swsent else c.wsent) = r at hge hle hdrained ⊢
  have hall : ((g.ask E).2.emit k (slicePart (if c.streaming then c.swbuf else c.wbuf)
      (if c.streaming then c.swsent else c.wsent) r.2)).sent k ++
        (if c.streaming then c.swbuf else c.wbuf).drop r.2 = g.sent k ++ c.pending := by
    rw [emit_sent, List.append_assoc, slicePart_append_drop _ hge, hpend]
    rfl
  have hconn : ((g.ask E).2.emit k (slicePart (if c.streaming then c.swbuf else c.wbuf)
      (if c.streaming then c.swsent else c.wsent) r.2)).conns k = some c := hc
  have htick : ((g.ask E).2.emit k (slicePart (if c.streaming then c.swbuf else c.wbuf)
      (if c.streaming then c.swsent else c.wsent) r.2)).tick = g.tick + 1 := rfl
  generalize (g.ask E).2.emit k (slicePart (if c.streaming then c.swbuf else c.wbuf)
    (if c.streaming then c.swsent else c.wsent) r.2) = g' at hall hconn htick ⊢
  cases hend : r.1 with
  | closed =>
      exact .of_close E (by omega) (hall ▸ List.prefix_append _ _) (Or.inl htls)
  | idle =>
      refine .live _ rfl (modConn_conn hconn _) ?_ ?_ (by rw [modConn_tick]; omega) ?_
      · split <;> rfl
      · cases hs : c.streaming with
        | true =>
            rw [hs] at hle
            exact ⟨hle, hb.atomic⟩
        | false =>
            rw [hs] at hle
            exact ⟨hb.stream, hle⟩
      · rw [modConn_sent, ← hall]
        cases hs : c.streaming <;> simp [Conn.pending]
  | drained =>
      obtain ⟨hs, hlen⟩ := hdrained hend
      refine .live _ rfl (modConn_conn hconn _) rfl ⟨le_rfl, hb.atomic⟩
        (by rw [modConn_tick]; omega) ?_
      rw [modConn_sent, ← hall, hlen, List.drop_length]
      simp [Conn.pending, hs]

theorem onWritable_flow {g : Gateway} {k : ConnId} {c : Conn} (hc : g.conns k = some c)
    (hb : c.InBounds) : Flow E k c (g.sent k ++ c.pending) g.tick (onWritable E g k) := by
  unfold onWritable
  rw [hc]
  dsimp only
  split
  · rename_i htls
    exact tlsDriveWrite_flow E hc hb htls
  · split
    · rename_i hs
      exact onWritableStream_flow E hc hb hs
    · rename_i hs
      exact onWritableAtomic_flow E hc hb (Bool.eq_false_iff.mpr hs)

/-- Re-arming a TLS connection after a write. -/
theorem tlsSetInterest_flow {g : Gateway} {k : ConnId} {c : Conn} {all : Bytes} {n : Nat}
    (htls : c.tls = true) (h : Flow E k c all n (.zero, g)) :
    Flow E k c all n (tlsSetInterest E g k) := by
  cases h with
  | live c' rc conn drains bounds tick eq =>
      unfold tlsSetInterest
      dsimp only
      split
      · exact .live c' rfl conn drains bounds (tick.trans (Nat.le_succ _)) eq
      · refine .of_close E (tick.trans (Nat.le_succ _)) ?_ (Or.inl htls)
        exact eq ▸ List.prefix_append _ _
  | done rc => cases rc
  | failed rc => cases rc

theorem connFlush_flow {g : Gateway} {k : ConnId} {c : Conn} (hc : g.conns k = some c)
    (hb : c.InBounds) : Flow E k c (g.sent k ++ c.pending) g.tick (connFlush E g k) := by
  unfold connFlush
  rw [hc]
  dsimp only
  split
  · rename_i htls
    have hflow := tlsDriveWrite_flow E hc hb htls
    split
    · rename_i heq
      rw [heq] at hflow
      exact hflow
    · rename_i heq
      rw [heq] at hflow
      exact tlsSetInterest_flow E htls hflow
  · split
    · exact (onWritable_flow E (g := (g.ask E).2) hc hb).of_drains E rfl (Nat.le_succ _)
    · rename_i hok
      refine .of_close E (Nat.le_succ _) (List.prefix_append _ _) (Or.inr (Or.inl ?_))
      exact .here (Nat.lt_succ_self _) (Or.inl (Bool.eq_false_iff.mpr hok))

/-- `stream_push` adds to what a stream has to write. -/
theorem streamPush_flow {g : Gateway} {k : ConnId} {c : Conn} (hc : g.conns k = some c)
    (hb : c.InBounds) (hs : c.streaming = true) (data : Bytes) :
    Flow E k c (g.sent k ++ c.pending ++ data) g.tick (streamPush E g k data) := by
  have hpend : c.pending = c.swbuf.drop c.swsent := by rw [Conn.pending, if_pos hs]
  unfold streamPush
  rw [hc]
  dsimp only
  split
  · rename_i hempty
    rw [List.isEmpty_iff.mp hempty, List.append_nil]
    exact connFlush_flow E hc hb
  · have hconn := modConn_conn hc fun d => { d with swbuf := c.swbuf.drop c.swsent, swsent := 0 }
    have hsent := congrFun (modConn_sent g k
      fun d => { d with swbuf := c.swbuf.drop c.swsent, swsent := 0 }) k
    have htick := modConn_tick g k
      fun d => { d with swbuf := c.swbuf.drop c.swsent, swsent := 0 }
    generalize g.modConn k (fun d => { d with swbuf := c.swbuf.drop c.swsent, swsent := 0 }) = g'
      at hconn hsent htick ⊢
    have hpart : g.sent k <+: g.sent k ++ c.pending ++ data := by
      rw [List.append_assoc]
      exact List.prefix_append _ _
    split
    · rename_i hfull
      refine .of_close E htick.ge (hsent ▸ hpart) (Or.inr (Or.inr ?_))
      rw [hsent, hpend, List.length_append, List.length_append]
      omega
    · split
      · -- the bytes are appended, and the stream drained as far as it goes
        have hconn' : ((g'.ask E).2.modConn k
            fun d => { d with swbuf := c.swbuf.drop c.swsent ++ data }).conns k =
              some { c with swbuf := c.swbuf.drop c.swsent ++ data, swsent := 0 } :=
          modConn_conn (g := (g'.ask E).2) hconn _
        have hall : g'.sent k ++ Conn.pending { c with
            swbuf := c.swbuf.drop c.swsent ++ data, swsent := 0 } =
              g.sent k ++ c.pending ++ data := by
          rw [hsent, Conn.pending, if_pos hs, List.drop_zero, hpend, List.append_assoc]
        have hflow := connFlush_flow E hconn' ⟨Nat.zero_le _, hb.atomic⟩
        rw [modConn_sent, modConn_tick] at hflow
        rw [← hall]
        exact hflow.of_drains E rfl (htick.ge.trans (Nat.le_succ _))
      · rename_i hok
        refine .of_close E (htick.ge.trans (Nat.le_succ _)) (hsent ▸ hpart) (Or.inr (Or.inl ?_))
        refine ⟨g'.tick, htick.ge, Nat.lt_succ_self _, Or.inl (Bool.eq_false_iff.mpr hok)⟩

-- ============================================================================
-- Ticks
-- ============================================================================

/-! Calls of the environment follow one another: no function sets the count
of them back. -/

section Ticks

variable {E} {n : Nat} {g : Gateway} {k : ConnId}

theorem tick_ask (E : Ext) (h : n ≤ g.tick) : n ≤ (g.ask E).2.tick := h.trans (Nat.le_succ _)

theorem tick_modConn {F : Conn → Conn} (h : n ≤ g.tick) : n ≤ (g.modConn k F).tick :=
  h.trans (modConn_tick g k F).ge

theorem tick_connClose (h : n ≤ g.tick) : n ≤ (connClose E g k).tick :=
  h.trans (connClose_tick E g k)

theorem tick_releaseSlot {s : Nat} (h : n ≤ g.tick) : n ≤ (releaseSlot g k s).tick :=
  tick_modConn (g := gwFreeSlot g s) h

theorem tick_tlsDriveWrite {c : Conn} (h : n ≤ g.tick) : n ≤ (tlsDriveWrite E g k c).2.tick := by
  have hask := tick_ask E h
  unfold tlsDriveWrite
  dsimp only
  split
  · exact tick_connClose hask
  · exact tick_modConn hask
  · exact tick_modConn hask

theorem tick_onWritable (h : n ≤ g.tick) : n ≤ (onWritable E g k).2.tick := by
  have hask := tick_ask E h
  unfold onWritable
  split
  · exact h
  · split
    · exact tick_tlsDriveWrite h
    · split
      · unfold onWritableStream
        dsimp only
        split
        · exact tick_connClose hask
        · exact tick_modConn hask
        · split
          · exact tick_connClose (tick_modConn hask)
          · split
            · exact tick_ask E (tick_modConn hask)
            · exact tick_connClose (tick_ask E (tick_modConn hask))
      · unfold onWritableAtomic
        dsimp only
        split
        · exact tick_connClose hask
        · exact tick_modConn hask
        · exact tick_connClose hask

theorem tick_connFlush (h : n ≤ g.tick) : n ≤ (connFlush E g k).2.tick := by
  unfold connFlush
  split
  · exact h
  · rename_i c _
    split
    · have hwrite := tick_tlsDriveWrite (E := E) (k := k) (c := c) h
      split
      · rename_i heq
        rw [heq] at hwrite
        exact hwrite
      · rename_i heq
        rw [heq] at hwrite
        unfold tlsSetInterest
        dsimp only
        split
        · exact tick_ask E hwrite
        · exact tick_connClose (tick_ask E hwrite)
    · dsimp only
      split
      · exact tick_onWritable (tick_ask E h)
      · exact tick_connClose (tick_ask E h)

theorem tick_streamPush {d : Bytes} (h : n ≤ g.tick) :
    n ≤ (streamPush E g k d).2.tick := by
  unfold streamPush
  split
  · exact h
  · split
    · exact tick_connFlush h
    · dsimp only
      split
      · exact tick_connClose (tick_modConn h)
      · split
        · exact tick_connFlush (tick_modConn (tick_ask E (tick_modConn h)))
        · exact tick_connClose (tick_ask E (tick_modConn h))

theorem tick_sendResp {status : Nat} {ctype body : Bytes} (h : n ≤ g.tick) :
    n ≤ (sendResp E g k status ctype body).2.tick := by
  have hask := tick_ask E (tick_ask E h)
  have hresp : n ≤ (connRespond E g k status ctype body).2.tick := by
    unfold connRespond
    dsimp only
    split
    · exact hask
    · split
      · exact tick_modConn hask
      · split
        · exact tick_modConn (tick_modConn hask)
        · exact tick_modConn hask
  unfold sendResp
  split
  · rename_i heq
    rw [heq] at hresp
    exact tick_connClose hresp
  · rename_i heq
    rw [heq] at hresp
    exact tick_connFlush hresp

theorem tick_pushChunk {data : Bytes} (h : n ≤ g.tick) : n ≤ (pushChunk E g k data).tick := by
  have hsize := @tick_streamPush E n g k (hex data.length ++ crlf) h
  unfold pushChunk
  split
  · rename_i heq
    rw [heq] at hsize
    exact hsize
  · rename_i heq
    rw [heq] at hsize
    have hdata := tick_streamPush (E := E) (k := k) (d := data) hsize
    split
    · rename_i heq'
      rw [heq'] at hdata
      exact hdata
    · rename_i heq'
      rw [heq'] at hdata
      exact tick_streamPush hdata

theorem tick_gwDeliver {id : Nat} {payload : Bytes} (h : n ≤ g.tick) :
    n ≤ (gwDeliver E g id payload).tick := by
  unfold gwDeliver
  split
  · exact h
  · dsimp only
    split
    · exact tick_sendResp (tick_releaseSlot h)
    · refine tick_sendResp ?_
      split
      · exact tick_releaseSlot h
      · exact tick_modConn (tick_releaseSlot h)

theorem tick_gwDeliverBegin {id : Nat} {payload : Bytes} (h : n ≤ g.tick) :
    n ≤ (gwDeliverBegin E g id payload).tick := by
  unfold gwDeliverBegin
  split
  · exact h
  · split
    · exact tick_sendResp (tick_releaseSlot h)
    · dsimp only
      split
      · exact tick_modConn h
      · split
        · exact tick_connClose (tick_ask E (tick_modConn h))
        · split
          · exact tick_streamPush (g := Gateway.noteReply _ _)
              (tick_modConn (tick_ask E (tick_modConn h)))
          · exact tick_connClose (tick_ask E (tick_modConn h))

theorem tick_gwDeliverChunk {id : Nat} {payload : Bytes} (h : n ≤ g.tick) :
    n ≤ (gwDeliverChunk E g id payload).tick := by
  unfold gwDeliverChunk
  split
  · exact h
  · split
    · exact h
    · split
      · exact h
      · split
        · exact h
        · split
          · exact h
          · split
            · exact tick_streamPush h
            · exact tick_pushChunk h

theorem tick_gwDeliverEnd {id : Nat} (h : n ≤ g.tick) : n ≤ (gwDeliverEnd E g id).tick := by
  unfold gwDeliverEnd
  split
  · exact h
  · dsimp only
    split
    · exact tick_releaseSlot h
    · split
      · exact tick_connClose (tick_releaseSlot h)
      · split
        · exact tick_streamPush (tick_modConn (tick_releaseSlot h))
        · exact tick_streamPush (tick_modConn (tick_releaseSlot h))

theorem tick_gwWsDeliver {id : Nat} {payload : Bytes} (h : n ≤ g.tick) :
    n ≤ (gwWsDeliver E g id payload).tick := by
  unfold gwWsDeliver
  split
  · exact h
  · split
    · exact h
    · split
      · exact h
      · split
        · exact h
        · dsimp only
          split
          · exact tick_ask E h
          · split
            · exact tick_ask E h
            · exact tick_streamPush (tick_ask E h)

theorem tick_gwWsDeliverClose {id : Nat} (h : n ≤ g.tick) :
    n ≤ (gwWsDeliverClose E g id).tick := by
  unfold gwWsDeliverClose
  split
  · exact h
  · dsimp only
    split
    · exact tick_connClose (tick_releaseSlot h)
    · exact tick_streamPush (tick_modConn (tick_releaseSlot h))

theorem tick_dispatchFrame {f : WireFrame} (h : n ≤ g.tick) : n ≤ (dispatchFrame E g f).tick := by
  unfold dispatchFrame
  split
  · exact tick_gwDeliver h
  · exact tick_gwDeliverBegin h
  · exact tick_gwDeliverChunk h
  · exact tick_gwDeliverEnd h
  · exact tick_gwWsDeliver h
  · exact tick_gwWsDeliverClose h
  · exact h

end Ticks

end Naitron
