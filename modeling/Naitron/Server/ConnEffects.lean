/-
  Naitron.Server.ConnEffects

  The functions of Naitron.Server.Conn and Naitron.Server.Deliver as moves.

  Closing, responding and writing touch one connection and, for a WebSocket,
  the queue of its controller (`Own k`).  A frame from a controller touches
  the connection its id resolves to, if it has any effect there at all
  (`frameReaches`).
-/

import Naitron.Server.Invariant

namespace Naitron

variable (E : Ext)

/-- Moves on one connection, its slot, and controller queues. -/
def Own (k : ConnId) : Label → Prop
  | .tune j | .relay j | .release j | .close j => j = k
  | .queue _ => True
  | _ => False

/-- The same and, if it may be, the slot freed for the controller. -/
def Reach (may : Prop) (k : ConnId) (l : Label) : Prop := Own k l ∨ may ∧ l = .letgo k

theorem Own.shrinks {k : ConnId} {l : Label} (h : Own k l) : l.shrinks := by
  cases l with
  | alloc | bounce | accept | spawn => exact h
  | _ => trivial

theorem Own.conn_eq {k j : ConnId} {l : Label} (h : Own k l) (hj : l.conn? = some j) : j = k := by
  cases l <;> simp only [Label.conn?, Option.some.injEq, reduceCtorEq] at hj
  all_goals first | exact hj ▸ h | cases h

theorem Reach.shrinks {may : Prop} {k : ConnId} {l : Label} (h : Reach may k l) : l.shrinks := by
  obtain h | ⟨-, rfl⟩ := h
  · exact h.shrinks
  · trivial

theorem Reach.conn_eq {may : Prop} {k j : ConnId} {l : Label} (h : Reach may k l)
    (hj : l.conn? = some j) : j = k := by
  obtain h | ⟨-, rfl⟩ := h
  · exact h.conn_eq hj
  · exact (Option.some.inj hj).symm

theorem own_reach {may : Prop} {k : ConnId} {f f' : Flight} (h : Moves (Own k) f f') :
    Moves (Reach may k) f f' :=
  h.mono fun _ hl => Or.inl hl

theorem Micro.own_services {f f' : Flight} {k : ConnId} {l : Label} (hm : Micro f l f')
    (h : Own k l) : f'.services = f.services := by
  cases hm with
  | spawn | drop | svc => cases h
  | _ => rfl

theorem Micro.reach_services {f f' : Flight} {may : Prop} {k : ConnId} {l : Label}
    (hm : Micro f l f') (h : Reach may k l) : f'.services = f.services := by
  obtain h | ⟨-, rfl⟩ := h
  · exact hm.own_services h
  · cases hm
    rfl

-- ============================================================================
-- Elementary updates
-- ============================================================================

theorem modConn_moves {g : Gateway} {k : ConnId} {F : Conn → Conn}
    (hF : ∀ c, g.conns k = some c → Keeps c (F c)) :
    Moves (Own k) g.toFlight (g.modConn k F).toFlight := by
  rw [Gateway.modConn]
  cases hc : g.conns k with
  | none => exact .refl _
  | some c => exact .one (.tune k c (F c) hc (hF c hc)) rfl

/-- An update that leaves the fields of `Keeps` alone. -/
theorem modConn_moves' {g : Gateway} {k : ConnId} {F : Conn → Conn} (hF : ∀ c, Keeps c (F c)) :
    Moves (Own k) g.toFlight (g.modConn k F).toFlight :=
  modConn_moves fun c _ => hF c

theorem emit_moves (g : Gateway) (k : ConnId) (out : Bytes) :
    Moves (Own k) g.toFlight (g.emit k out).toFlight :=
  .one (.emit k _) rfl

theorem noteReply_moves (g : Gateway) (k : ConnId) :
    Moves (Own k) g.toFlight (g.noteReply k).toFlight :=
  .one (.reply k _) rfl

theorem modCtrl_queue_moves {g : Gateway} {ct : CtrlId} {F : Ctrl → Ctrl}
    (hF : ∀ t, KeepsCtrl t (F t)) :
    Moves (· = .queue ct) g.toFlight (g.modCtrl ct F).toFlight := by
  rw [Gateway.modCtrl]
  cases ht : g.ctrls ct with
  | none => exact .refl _
  | some t => exact .one (.queue ct t (F t) ht (hF t)) rfl

theorem write_moves (g : Gateway) (ct : CtrlId) (out : Bytes) :
    Moves (· = .queue ct) g.toFlight (g.write ct out).toFlight :=
  .one (.write ct _) rfl

/-- A frame is queued to a controller that is there, is lost on one that is
    gone, or there is no memory for it. -/
theorem ctrlQueue_cases (g : Gateway) (ct : CtrlId) (k : ConnId) (type : NtcMsgType) (rid : Nat)
    (payload : Bytes) :
    (∃ t t', g.ctrls ct = some t ∧ KeepsCtrl t t' ∧
      (ctrlQueue E g ct k type rid payload).1 = .zero ∧
      (ctrlQueue E g ct k type rid payload).2.toFlight =
        { g.toFlight with
          ctrls := Function.update g.ctrls ct (some t')
          queued := g.queued ++ [⟨ct, k, type, rid, payload⟩] }) ∨
    (g.ctrls ct = none ∧ (ctrlQueue E g ct k type rid payload).1 = .zero ∧
      (ctrlQueue E g ct k type rid payload).2.toFlight = g.toFlight) ∨
    ((ctrlQueue E g ct k type rid payload).1 = .neg ∧
      (ctrlQueue E g ct k type rid payload).2.toFlight =
        { g.toFlight with lost := g.lost ++ [⟨ct, k, type, rid, payload⟩] }) := by
  cases hok : (E.io g.tick).ok with
  | false => exact Or.inr (Or.inr (by simp [ctrlQueue, hok, Gateway.ask]))
  | true =>
      cases ht : g.ctrls ct with
      | none =>
          exact Or.inr (Or.inl ⟨rfl, by simp [ctrlQueue, hok, Gateway.ask, Gateway.enqueue, ht]⟩)
      | some t =>
          refine Or.inl ⟨t, { t with wbuf := t.wbuf ++ QueuedFrame.bytes ⟨ct, k, type, rid, payload⟩ },
            rfl, ⟨rfl, rfl, rfl⟩, ?_⟩
          simp [ctrlQueue, hok, Gateway.ask, Gateway.enqueue, ht]

-- ============================================================================
-- Closing
-- ============================================================================

/-- The state of the slot table and the connection once a slot is freed. -/
theorem releaseSlot_eq {g : Gateway} {k : ConnId} {s : Nat} {c : Conn} (hc : g.conns k = some c) :
    (releaseSlot g k s).toFlight =
      { g.toFlight with
        slots := g.slots.free ntcGenWrap s
        conns := Function.update g.conns k (some { c with inflight := false }) } := by
  simp only [releaseSlot, gwFreeSlot, Gateway.modConn, hc]

/-- Freeing the slot of a connection that is there, for its controller. -/
theorem releaseSlot_moves {g : Gateway} {k : ConnId} {s : Nat} {c : Conn}
    (hc : g.conns k = some c)
    (hs : g.slots.pending s = some k ∨ (c.inflight = true ∧ s = idSlot c.reqId)) :
    Moves (Reach True k) g.toFlight (releaseSlot g k s).toFlight := by
  rw [releaseSlot_eq hc]
  exact .one (.letgo k s c hc hs) (Or.inr ⟨trivial, rfl⟩)

theorem releaseSlot_conn {g : Gateway} {k : ConnId} {s : Nat} {c : Conn}
    (hc : g.conns k = some c) :
    (releaseSlot g k s).conns k = some { c with inflight := false } := by
  simp [releaseSlot, gwFreeSlot, Gateway.modConn, hc]

/-- The end of `conn_close` for a connection whose controller is not told. -/
theorem dropUnnoticed_moves {g : Gateway} {k : ConnId} {c : Conn} (hc : g.conns k = some c)
    (hquiet : c.inflight = true → Unnoticed g.toFlight c) :
    Moves (Own k) g.toFlight
      (dropConn (if c.inflight then releaseSlot g k (idSlot c.reqId) else g) k).toFlight := by
  split
  · -- in flight: free the slot, then drop a connection that no longer is
    rename_i hin
    have hfree : Moves (Own k) g.toFlight (releaseSlot g k (idSlot c.reqId)).toFlight := by
      rw [releaseSlot_eq hc]
      exact .one (.release k _ c hc (Or.inr ⟨hin, rfl⟩) (hquiet hin)) rfl
    refine hfree.trans (.one (.close k ?_) rfl)
    intro d hd
    rw [releaseSlot_conn hc] at hd
    cases hd
    rfl
  · rename_i hin
    refine .one (.close k ?_) rfl
    intro d hd
    rw [hc] at hd
    cases hd
    simpa using hin

/-- The end of `conn_close` for a WebSocket whose controller has been told. -/
theorem dropNoticed_eq {g g₁ : Gateway} {k : ConnId} {c : Conn} {ctrls : CtrlId → Option Ctrl}
    {queued : List QueuedFrame} (hc : g.conns k = some c)
    (heq : g₁.toFlight = { g.toFlight with ctrls := ctrls, queued := queued }) :
    (dropConn (releaseSlot g₁ k (idSlot c.reqId)) k).toFlight =
      { g.toFlight with
        ctrls := ctrls
        queued := queued
        slots := g.slots.free ntcGenWrap (idSlot c.reqId)
        conns := Function.update g.conns k none } := by
  have hc₁ : g₁.conns k = some c := by
    rw [heq]
    exact hc
  have hfree := releaseSlot_eq (s := idSlot c.reqId) hc₁
  rw [dropConn, hfree, heq]
  simp only [Function.update_idem]

theorem connClose_moves (g : Gateway) (k : ConnId) :
    Moves (Own k) g.toFlight (connClose E g k).toFlight := by
  rw [connClose]
  cases hc : g.conns k with
  | none => exact .refl _
  | some c =>
      dsimp only
      rw [notifyWsClose]
      cases hwait : c.waitCtrl with
      | none =>
          refine dropUnnoticed_moves hc fun _ _ ct hct => ?_
          rw [hwait] at hct
          cases hct
      | some ct =>
          cases hws : c.isWs && c.inflight with
          | false =>
              refine dropUnnoticed_moves hc fun hin hw => ?_
              simp [hin, hw] at hws
          | true =>
              obtain ⟨hw, hin⟩ := Bool.and_eq_true_iff.mp hws
              simp only [if_true, hin]
              have hsilent : ∀ g₁ : Gateway, g₁.conns k = some c → Unnoticed g₁.toFlight c →
                  Moves (Own k) g₁.toFlight
                    (dropConn (releaseSlot g₁ k (idSlot c.reqId)) k).toFlight := by
                intro g₁ hc₁ hquiet
                have hmoves := dropUnnoticed_moves hc₁ fun _ => hquiet
                rw [if_pos hin] at hmoves
                exact hmoves
              rcases ctrlQueue_cases E g ct k .wsClose c.reqId (ntcWireEncodeWsClose 1000) with
                ⟨t, t', ht, hk, -, heq⟩ | ⟨ht, -, heq⟩ | ⟨-, heq⟩
              · rw [dropNoticed_eq hc heq]
                exact .one (.notice k ct c t t' _ hc hw hin hwait ht hk) rfl
              · have hmoves := hsilent (ctrlQueue E g ct k .wsClose c.reqId
                  (ntcWireEncodeWsClose 1000)).2 (by rw [heq]; exact hc) (fun _ ct' hct' => by
                    rw [hwait] at hct'
                    cases hct'
                    rw [heq]
                    exact Or.inl ht)
                rw [heq] at hmoves
                exact hmoves
              · have hlose : Moves (Own k) g.toFlight (ctrlQueue E g ct k .wsClose c.reqId
                    (ntcWireEncodeWsClose 1000)).2.toFlight := by
                  rw [heq]
                  exact .one (.lose ⟨ct, k, .wsClose, c.reqId, _⟩) trivial
                refine hlose.trans (hsilent _ (by rw [heq]; exact hc) fun _ _ _ => Or.inr ?_)
                rw [heq]
                simp

-- ============================================================================
-- Responding and writing
-- ============================================================================

theorem connRespond_moves (g : Gateway) (k : ConnId) (status : Nat) (ctype body : Bytes) :
    Moves (Own k) g.toFlight (connRespond E g k status ctype body).2.toFlight := by
  have hhead : ∀ h : CStr 512, Moves (Own k) g.toFlight
      (((g.ask E).2.ask E).2.modConn k fun c => { c with extraHeaders := h }).toFlight := fun h =>
    modConn_moves' (g := ((g.ask E).2.ask E).2) fun c => .of_state rfl rfl rfl rfl rfl
  unfold connRespond
  dsimp only
  split
  · exact .refl _
  · split
    · exact hhead _
    · split
      · refine (hhead _).trans (.trans (modConn_moves' ?_) (noteReply_moves _ k))
        exact fun c => ⟨rfl, rfl, rfl, rfl, fun _ => by simp, fun h => by cases h⟩
      · exact hhead _

theorem onWritableStream_moves (g : Gateway) (k : ConnId) (c : Conn) :
    Moves (Own k) g.toFlight (onWritableStream E g k c).2.toFlight := by
  unfold onWritableStream
  dsimp only
  split
  · exact .trans (emit_moves (g.ask E).2 k _) (connClose_moves E _ k)
  · exact .trans (emit_moves (g.ask E).2 k _) (modConn_moves' fun c => .of_state rfl rfl rfl rfl rfl)
  · have hdrain : Moves (Own k) g.toFlight (((g.ask E).2.emit k (slicePart c.swbuf c.swsent
        (sendLoop c.swbuf.length (g.ask E).1.sends c.swsent).2)).modConn k
          fun c => { c with swbuf := [], swsent := 0 }).toFlight :=
      .trans (emit_moves (g.ask E).2 k _) (modConn_moves' fun c => .of_state rfl rfl rfl rfl rfl)
    split
    · exact hdrain.trans (connClose_moves E _ k)
    · split
      · exact hdrain
      · exact hdrain.trans (connClose_moves E (Gateway.ask E _).2 k)

theorem onWritableAtomic_moves (g : Gateway) (k : ConnId) (c : Conn) :
    Moves (Own k) g.toFlight (onWritableAtomic E g k c).2.toFlight := by
  unfold onWritableAtomic
  dsimp only
  split
  · exact .trans (emit_moves (g.ask E).2 k _) (connClose_moves E _ k)
  · exact .trans (emit_moves (g.ask E).2 k _) (modConn_moves' fun c => .of_state rfl rfl rfl rfl rfl)
  · exact .trans (emit_moves (g.ask E).2 k _) (connClose_moves E _ k)

theorem tlsDriveWrite_moves (g : Gateway) (k : ConnId) (c : Conn) :
    Moves (Own k) g.toFlight (tlsDriveWrite E g k c).2.toFlight := by
  unfold tlsDriveWrite
  dsimp only
  split
  · exact .trans (emit_moves (g.ask E).2 k _) (connClose_moves E _ k)
  · refine .trans (emit_moves (g.ask E).2 k _) (modConn_moves' fun c => ?_)
    split <;> exact .of_state rfl rfl rfl rfl rfl
  · exact .trans (emit_moves (g.ask E).2 k _) (modConn_moves' fun c => .of_state rfl rfl rfl rfl rfl)

theorem tlsSetInterest_moves (g : Gateway) (k : ConnId) :
    Moves (Own k) g.toFlight (tlsSetInterest E g k).2.toFlight := by
  unfold tlsSetInterest
  dsimp only
  split
  · exact .refl _
  · exact connClose_moves E (g.ask E).2 k

theorem onWritable_moves (g : Gateway) (k : ConnId) :
    Moves (Own k) g.toFlight (onWritable E g k).2.toFlight := by
  unfold onWritable
  split
  · exact .refl _
  · split
    · exact tlsDriveWrite_moves E g k _
    · split
      · exact onWritableStream_moves E g k _
      · exact onWritableAtomic_moves E g k _

theorem connFlush_moves (g : Gateway) (k : ConnId) :
    Moves (Own k) g.toFlight (connFlush E g k).2.toFlight := by
  unfold connFlush
  split
  · exact .refl _
  · rename_i c _
    split
    · have hdrive := tlsDriveWrite_moves E g k c
      split
      · rename_i hres
        rw [hres] at hdrive
        exact hdrive
      · rename_i hres
        rw [hres] at hdrive
        exact hdrive.trans (tlsSetInterest_moves E _ k)
    · dsimp only
      split
      · exact onWritable_moves E (g.ask E).2 k
      · exact connClose_moves E (g.ask E).2 k

theorem sendResp_moves (g : Gateway) (k : ConnId) (status : Nat) (ctype body : Bytes) :
    Moves (Own k) g.toFlight (sendResp E g k status ctype body).2.toFlight := by
  have hresp := connRespond_moves E g k status ctype body
  unfold sendResp
  split
  · rename_i hres
    rw [hres] at hresp
    exact hresp.trans (connClose_moves E _ k)
  · rename_i hres
    rw [hres] at hresp
    exact hresp.trans (connFlush_moves E _ k)

theorem respondAndFlush_moves (g : Gateway) (k : ConnId) (status : Nat) (json : Bytes) :
    Moves (Own k) g.toFlight (respondAndFlush E g k status json).2.toFlight :=
  sendResp_moves E g k status ctJson json

theorem streamPush_moves (g : Gateway) (k : ConnId) (data : Bytes) :
    Moves (Own k) g.toFlight (streamPush E g k data).2.toFlight := by
  unfold streamPush
  split
  · exact .refl _
  · rename_i c _
    split
    · exact connFlush_moves E g k
    · have hcompact : Moves (Own k) g.toFlight
          (g.modConn k fun d => { d with swbuf := c.swbuf.drop c.swsent, swsent := 0 }).toFlight :=
        modConn_moves' fun c => .of_state rfl rfl rfl rfl rfl
      dsimp only
      split
      · exact hcompact.trans (connClose_moves E _ k)
      · split
        · refine hcompact.trans (.trans (modConn_moves' (g := (Gateway.ask E _).2) ?_)
            (connFlush_moves E _ k))
          exact fun c => .of_state rfl rfl rfl rfl rfl
        · exact hcompact.trans (connClose_moves E (Gateway.ask E _).2 k)

-- ============================================================================
-- Frames from a controller
-- ============================================================================

/-- Whether a frame has an effect on the connection its id resolves to. -/
def frameReaches (c : Conn) (f : WireFrame) : Bool :=
  match NtcMsgType.ofCode f.hdr.type with
  | some .response | some .responseBegin | some .responseEnd | some .wsClose => true
  | some .responseChunk =>
      c.streaming && (ntcWireDecodeChunk f.payload).any fun data => !data.isEmpty
  | some .wsMsg => c.isWs && (ntcWireDecodeWsMsg f.payload).isSome
  | _ => false

/-- What a resolved id says about slot and connection. -/
theorem gwConnForId_some {f : Flight} {id : Nat} {k : ConnId} (h : gwConnForId f id = some k) :
    f.slots.pending (idSlot id) = some k ∧ f.slots.gen (idSlot id) % ntcGenSpan = idGen id := by
  rw [gwConnForId] at h
  cases hp : f.slots.pending (idSlot id) with
  | none => rw [hp] at h; cases h
  | some j =>
      rw [hp] at h
      dsimp only at h
      split at h
      · rename_i hgen
        cases h
        exact ⟨rfl, hgen⟩
      · cases h

theorem SlotInv.conn_of_id {f : Flight} (h : SlotInv f) {id : Nat} {k : ConnId}
    (hk : gwConnForId f id = some k) : ∃ c, f.conns k = some c := by
  obtain ⟨c, hc, -⟩ := h.pending _ k (gwConnForId_some hk).1
  exact ⟨c, hc⟩

/-- Whether a frame frees the slot of the connection its id resolves to. -/
def frameReleases (f : WireFrame) : Bool :=
  match NtcMsgType.ofCode f.hdr.type with
  | some .response | some .responseEnd | some .wsClose => true
  | some .responseBegin => (ntcWireDecodeResponseBegin f.payload).isNone
  | _ => false

/-- Freeing the slot of a resolved id. -/
theorem release_id_moves {g : Gateway} (h : SlotInv g.toFlight) {id : Nat} {k : ConnId}
    (hk : gwConnForId g.toFlight id = some k) :
    Moves (Reach True k) g.toFlight (releaseSlot g k (idSlot id)).toFlight := by
  obtain ⟨c, hc⟩ := h.conn_of_id hk
  exact releaseSlot_moves hc (Or.inl (gwConnForId_some hk).1)

theorem gwDeliver_moves {g : Gateway} (h : SlotInv g.toFlight) {id : Nat} {k : ConnId}
    (hk : gwConnForId g.toFlight id = some k) (payload : Bytes) :
    Moves (Reach True k) g.toFlight (gwDeliver E g id payload).toFlight := by
  have hrel := release_id_moves h hk
  unfold gwDeliver
  rw [hk]
  dsimp only
  split
  · exact hrel.trans (own_reach (respondAndFlush_moves E _ k _ _))
  · split
    · exact hrel.trans (own_reach (sendResp_moves E _ k _ _ _))
    · refine hrel.trans (own_reach (.trans (modConn_moves' ?_) (sendResp_moves E _ k _ _ _)))
      exact fun c => .of_state rfl rfl rfl rfl rfl

theorem gwDeliverBegin_moves {g : Gateway} (h : SlotInv g.toFlight) {id : Nat} {k : ConnId}
    (hk : gwConnForId g.toFlight id = some k) (payload : Bytes) :
    Moves (Reach (ntcWireDecodeResponseBegin payload = none) k) g.toFlight
      (gwDeliverBegin E g id payload).toFlight := by
  have hrel := release_id_moves h hk
  unfold gwDeliverBegin
  rw [hk]
  dsimp only
  split
  · rename_i hbad
    refine (hrel.trans (own_reach (respondAndFlush_moves E _ k _ _))).mono ?_
    rintro l (hl | ⟨-, hl⟩)
    · exact Or.inl hl
    · exact Or.inr ⟨hbad, hl⟩
  · rename_i status flags ctype _
    have hbegin : Moves (Own k) g.toFlight (g.modConn k fun c =>
        { c with streaming := true, streamSse := flagSse flags, state := .csStream }).toFlight :=
      modConn_moves' fun c => ⟨rfl, rfl, rfl, rfl, fun _ => by simp, fun h => by cases h⟩
    refine own_reach ?_
    split
    · exact hbegin
    · split
      · exact hbegin.trans (connClose_moves E (Gateway.ask E _).2 k)
      · split
        · refine hbegin.trans (.trans (modConn_moves' (g := (Gateway.ask E _).2) ?_)
            (.trans (noteReply_moves _ k) (streamPush_moves E _ k _)))
          exact fun c => .of_state rfl rfl rfl rfl rfl
        · exact hbegin.trans (connClose_moves E (Gateway.ask E _).2 k)

theorem pushChunk_moves (g : Gateway) (k : ConnId) (data : Bytes) :
    Moves (Own k) g.toFlight (pushChunk E g k data).toFlight := by
  have h1 := streamPush_moves E g k (hex data.length ++ crlf)
  unfold pushChunk
  split
  · rename_i g1 hres
    rw [hres] at h1
    exact h1
  · rename_i g1 hres
    rw [hres] at h1
    have h2 := streamPush_moves E g1 k data
    split
    · rename_i g2 hres2
      rw [hres2] at h2
      exact h1.trans h2
    · rename_i g2 hres2
      rw [hres2] at h2
      exact h1.trans (h2.trans (streamPush_moves E g2 k crlf))

theorem gwDeliverEnd_moves {g : Gateway} (h : SlotInv g.toFlight) {id : Nat} {k : ConnId}
    (hk : gwConnForId g.toFlight id = some k) :
    Moves (Reach True k) g.toFlight (gwDeliverEnd E g id).toFlight := by
  have hrel := release_id_moves h hk
  unfold gwDeliverEnd
  rw [hk]
  dsimp only
  split
  · exact hrel
  · refine hrel.trans (own_reach ?_)
    split
    · exact connClose_moves E _ k
    · refine .trans (modConn_moves' (k := k) (F := fun c => { c with streamEnded := true })
        fun c => .of_state rfl rfl rfl rfl rfl) ?_
      split
      · exact streamPush_moves E _ k _
      · exact streamPush_moves E _ k _

theorem gwWsDeliverClose_moves {g : Gateway} (h : SlotInv g.toFlight) {id : Nat} {k : ConnId}
    (hk : gwConnForId g.toFlight id = some k) :
    Moves (Reach True k) g.toFlight (gwWsDeliverClose E g id).toFlight := by
  have hrel := release_id_moves h hk
  unfold gwWsDeliverClose
  rw [hk]
  dsimp only
  split
  · exact hrel.trans (own_reach (connClose_moves E _ k))
  · refine hrel.trans (own_reach (.trans (modConn_moves' ?_) (streamPush_moves E _ k _)))
    exact fun c => .of_state rfl rfl rfl rfl rfl

theorem gwDeliverChunk_moves {g : Gateway} {id : Nat} {k : ConnId} {c : Conn}
    (hk : gwConnForId g.toFlight id = some k) (hc : g.conns k = some c) (payload : Bytes) :
    Moves (fun l => (c.streaming && (ntcWireDecodeChunk payload).any fun d => !d.isEmpty) = true ∧
      Own k l) g.toFlight (gwDeliverChunk E g id payload).toFlight := by
  unfold gwDeliverChunk
  simp only [hk, hc]
  split
  · exact .refl _
  · rename_i hstream
    split
    · exact .refl _
    · rename_i data hdata
      split
      · exact .refl _
      · rename_i hne
        have hreach : (c.streaming && (ntcWireDecodeChunk payload).any fun d => !d.isEmpty)
            = true := by
          simpa [hdata, hne] using hstream
        split
        · exact (streamPush_moves E g k data).mono fun l hl => ⟨hreach, hl⟩
        · exact (pushChunk_moves E g k data).mono fun l hl => ⟨hreach, hl⟩

theorem gwWsDeliver_moves {g : Gateway} {id : Nat} {k : ConnId} {c : Conn}
    (hk : gwConnForId g.toFlight id = some k) (hc : g.conns k = some c) (payload : Bytes) :
    Moves (fun l => (c.isWs && (ntcWireDecodeWsMsg payload).isSome) = true ∧ Own k l) g.toFlight
      (gwWsDeliver E g id payload).toFlight := by
  unfold gwWsDeliver
  simp only [hk, hc]
  split
  · exact .refl _
  · rename_i hws
    split
    · exact .refl _
    · rename_i opcode data hdata
      have hreach : (c.isWs && (ntcWireDecodeWsMsg payload).isSome) = true := by
        simpa [hdata] using hws
      split
      · exact .refl _
      · split
        · exact .refl _
        · exact (streamPush_moves E (g.ask E).2 k _).mono fun l hl => ⟨hreach, hl⟩

/-- A frame touches the connection its id resolves to, and that one only if
    the frame has an effect there. -/
theorem dispatchFrame_moves {g : Gateway} (h : SlotInv g.toFlight) (f : WireFrame) :
    Moves (fun l => ∃ k c, gwConnForId g.toFlight f.hdr.requestId = some k ∧
        g.conns k = some c ∧ frameReaches c f = true ∧ Reach (frameReleases f = true) k l)
      g.toFlight (dispatchFrame E g f).toFlight := by
  cases hk : gwConnForId g.toFlight f.hdr.requestId with
  | none =>
      refine .of_eq ?_
      unfold dispatchFrame gwDeliver gwDeliverBegin gwDeliverChunk gwDeliverEnd gwWsDeliver
        gwWsDeliverClose
      rw [hk]
      split <;> rfl
  | some k =>
      obtain ⟨c, hc⟩ := h.conn_of_id hk
      have hmay : frameReleases f = true → ∀ l, Reach True k l →
          Reach (frameReleases f = true) k l := by
        rintro hrel l (hl | ⟨-, hl⟩)
        · exact Or.inl hl
        · exact Or.inr ⟨hrel, hl⟩
      unfold dispatchFrame
      split
      · rename_i htype
        exact (gwDeliver_moves E h hk _).mono fun l hl =>
          ⟨k, c, rfl, hc, by simp [frameReaches, htype], hmay (by simp [frameReleases, htype]) l hl⟩
      · rename_i htype
        refine (gwDeliverBegin_moves E h hk _).mono fun l hl =>
          ⟨k, c, rfl, hc, by simp [frameReaches, htype], ?_⟩
        rcases hl with hl | ⟨hbad, hl⟩
        · exact Or.inl hl
        · exact Or.inr ⟨by simp [frameReleases, htype, hbad], hl⟩
      · rename_i htype
        exact (gwDeliverChunk_moves E hk hc _).mono fun l hl =>
          ⟨k, c, rfl, hc, by simpa [frameReaches, htype] using hl.1, Or.inl hl.2⟩
      · rename_i htype
        exact (gwDeliverEnd_moves E h hk).mono fun l hl =>
          ⟨k, c, rfl, hc, by simp [frameReaches, htype], hmay (by simp [frameReleases, htype]) l hl⟩
      · rename_i htype
        exact (gwWsDeliver_moves E hk hc _).mono fun l hl =>
          ⟨k, c, rfl, hc, by simpa [frameReaches, htype] using hl.1, Or.inl hl.2⟩
      · rename_i htype
        exact (gwWsDeliverClose_moves E h hk).mono fun l hl =>
          ⟨k, c, rfl, hc, by simp [frameReaches, htype], hmay (by simp [frameReleases, htype]) l hl⟩
      · exact .refl _

end Naitron
