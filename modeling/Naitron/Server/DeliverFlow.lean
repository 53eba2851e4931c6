/-
  Naitron.Server.DeliverFlow

  What the frames of a stream add to the output of the client they reach.
-/

import Naitron.Chunked
import Naitron.Server.Output

namespace Naitron

variable (E : Ext)

-- ============================================================================
-- Pushing more than once
-- ============================================================================

/-- A push, and another if the connection is still open. -/
def pushThen (r : Rc × Gateway) (f : Gateway → Rc × Gateway) : Rc × Gateway :=
  match r with
  | (.neg, g) => (.neg, g)
  | (.zero, g) => f g

@[simp] theorem pushThen_zero (g : Gateway) (f : Gateway → Rc × Gateway) :
    pushThen (.zero, g) f = f g := rfl

@[simp] theorem pushThen_neg (g : Gateway) (f : Gateway → Rc × Gateway) :
    pushThen (.neg, g) f = (.neg, g) := rfl

theorem pushThen_flow {k : ConnId} {c : Conn} {all more : Bytes} {n : Nat} {r : Rc × Gateway}
    {f : Gateway → Rc × Gateway} (h : Flow E k c all n r) (hs : c.streaming = true)
    (hgo : c.streamEnded = false)
    (hf : ∀ g c', g.conns k = some c' → c'.InBounds → c'.streaming = true →
      c'.streamEnded = false → Flow E k c' (g.sent k ++ c'.pending ++ more) g.tick (f g)) :
    Flow E k c (all ++ more) n (pushThen r f) := by
  obtain ⟨rc, g⟩ := r
  cases h with
  | live c' rc conn drains bounds tick eq =>
      cases rc
      have hnext := hf g c' conn bounds (drains.fields.1.trans hs) (drains.fields.2.1.trans hgo)
      rw [show g.sent k ++ c'.pending = all from eq] at hnext
      exact hnext.of_drains E drains tick
  | done rc gone ended =>
      rw [ended hs] at hgo
      cases hgo
  | failed rc gone tick part why =>
      cases rc
      refine .failed rfl gone tick (part.trans (List.prefix_append _ _)) ?_
      refine why.imp_right (Or.imp_right fun hfull => ?_)
      rw [List.length_append]
      exact hfull.trans_le (Nat.le_add_right _ _)

theorem pushChunk_eq (g : Gateway) (k : ConnId) (data : Bytes) :
    pushChunk E g k data = (pushThen (streamPush E g k (hex data.length ++ crlf)) fun g =>
      pushThen (streamPush E g k data) fun g => streamPush E g k crlf).2 := by
  unfold pushChunk pushThen
  rcases streamPush E g k (hex data.length ++ crlf) with ⟨rc₁, g₁⟩
  cases rc₁ with
  | neg => rfl
  | zero =>
      dsimp only
      rcases streamPush E g₁ k data with ⟨rc₂, g₂⟩
      cases rc₂ <;> rfl

theorem pushChunk_flow {g : Gateway} {k : ConnId} {c : Conn} (hc : g.conns k = some c)
    (hb : c.InBounds) (hs : c.streaming = true) (hgo : c.streamEnded = false) (data : Bytes) :
    ∃ rc, Flow E k c (g.sent k ++ c.pending ++ chunkBytes false data) g.tick
      (rc, pushChunk E g k data) := by
  have hbytes : g.sent k ++ c.pending ++ chunkBytes false data =
      g.sent k ++ c.pending ++ (hex data.length ++ crlf) ++ (data ++ crlf) := by
    simp [chunkBytes]
  rw [hbytes, pushChunk_eq]
  refine ⟨_, pushThen_flow E (streamPush_flow E hc hb hs _) hs hgo
    fun g₁ c₁ hc₁ hb₁ hs₁ hgo₁ => ?_⟩
  rw [← List.append_assoc]
  exact pushThen_flow E (streamPush_flow E hc₁ hb₁ hs₁ data) hs₁ hgo₁
    fun g₂ c₂ hc₂ hb₂ hs₂ _ => streamPush_flow E hc₂ hb₂ hs₂ crlf

-- ============================================================================
-- Streams
-- ============================================================================

/-- A connection whose stream has begun. -/
def Conn.begun (c : Conn) (flags : Nat) : Conn :=
  { c with
    streaming := true, streamSse := flagSse flags, state := .csStream, streamHeadSent := true }

/-- A connection whose exchange the controller has ended. -/
def Conn.finished (c : Conn) : Conn := { c with inflight := false, streamEnded := true }

theorem noteReply_sent (g : Gateway) (k : ConnId) : (g.noteReply k).sent = g.sent := rfl

/-- `RESPONSE_BEGIN` writes the head of the stream. -/
theorem gwDeliverBegin_flow {g : Gateway} {id : Nat} {k : ConnId} {c : Conn} {payload : Bytes}
    {status flags : Nat} {ctype head : Bytes} (hk : gwConnForId g.toFlight id = some k)
    (hc : g.conns k = some c) (hb : c.InBounds)
    (hdec : ntcWireDecodeResponseBegin payload = some (status, flags, ctype))
    (hhead : ntcHttpFormatStreamHead status ctype (flagSse flags) c.extraHeaders.bytes =
      some head) :
    ∃ rc, Flow E k (c.begun flags) (g.sent k ++ c.swbuf.drop c.swsent ++ head) g.tick
      (rc, gwDeliverBegin E g id payload) := by
  have hconn := modConn_conn hc fun c =>
    { c with streaming := true, streamSse := flagSse flags, state := .csStream }
  have hsent := modConn_sent g k fun c =>
    { c with streaming := true, streamSse := flagSse flags, state := .csStream }
  have htick := modConn_tick g k fun c =>
    { c with streaming := true, streamSse := flagSse flags, state := .csStream }
  unfold gwDeliverBegin
  rw [hk, hdec]
  dsimp only
  rw [hconn]
  dsimp only
  generalize g.modConn k (fun c =>
    { c with streaming := true, streamSse := flagSse flags, state := .csStream }) = g₁
    at hconn hsent htick ⊢
  rw [hhead]
  dsimp only
  split
  · have hconn' : (((g₁.ask E).2.modConn k fun c => { c with streamHeadSent := true }).noteReply
        k).conns k = some (c.begun flags) := modConn_conn (g := (g₁.ask E).2) hconn _
    have hle : g.tick ≤ (((g₁.ask E).2.modConn k fun c =>
        { c with streamHeadSent := true }).noteReply k).tick := by
      show g.tick ≤ ((g₁.ask E).2.modConn k fun c => { c with streamHeadSent := true }).tick
      rw [modConn_tick, ← htick]
      exact Nat.le_succ _
    have hflow := (streamPush_flow E hconn' ⟨hb.stream, hb.atomic⟩ rfl head).of_drains E
      (Drains.refl (c.begun flags)) hle
    rw [noteReply_sent, modConn_sent, show (g₁.ask E).2.sent = g.sent from hsent] at hflow
    exact ⟨_, hflow⟩
  · rename_i hok
    refine ⟨.neg, .of_close E (htick.ge.trans (Nat.le_succ _)) ?_ (Or.inr (Or.inl ?_))⟩
    · show g₁.sent k <+: _
      rw [hsent, List.append_assoc]
      exact List.prefix_append _ _
    · exact ⟨g₁.tick, htick.ge, Nat.lt_succ_self _, Or.inl (Bool.eq_false_iff.mpr hok)⟩

/-- `RESPONSE_CHUNK` writes its data in the framing of the stream. -/
theorem gwDeliverChunk_flow {g : Gateway} {id : Nat} {k : ConnId} {c : Conn}
    {payload data : Bytes} (hk : gwConnForId g.toFlight id = some k) (hc : g.conns k = some c)
    (hb : c.InBounds) (hs : c.streaming = true) (hgo : c.streamEnded = false)
    (hdec : ntcWireDecodeChunk payload = some data) (hne : data ≠ []) :
    ∃ rc, Flow E k c (g.sent k ++ c.pending ++ chunkBytes c.streamSse data) g.tick
      (rc, gwDeliverChunk E g id payload) := by
  unfold gwDeliverChunk
  rw [hk]
  dsimp only
  rw [hc]
  dsimp only
  rw [if_neg (by simp [hs]), hdec]
  dsimp only
  rw [if_neg (by simpa using hne)]
  cases hsse : c.streamSse with
  | true => exact ⟨_, streamPush_flow E hc hb hs data⟩
  | false => exact pushChunk_flow E hc hb hs hgo data

/-- `RESPONSE_END` writes the end of the stream. -/
theorem gwDeliverEnd_flow {g : Gateway} {id : Nat} {k : ConnId} {c : Conn}
    (hk : gwConnForId g.toFlight id = some k) (hc : g.conns k = some c) (hb : c.InBounds)
    (hs : c.streaming = true) :
    ∃ rc, Flow E k c.finished (g.sent k ++ c.pending ++ streamEnd c.streamSse) g.tick
      (rc, gwDeliverEnd E g id) := by
  have hrel := releaseSlot_conn (s := idSlot id) hc
  have hsent : (releaseSlot g k (idSlot id)).sent = g.sent := modConn_sent _ _ _
  have htick : (releaseSlot g k (idSlot id)).tick = g.tick := modConn_tick _ _ _
  unfold gwDeliverEnd
  rw [hk]
  dsimp only
  rw [hrel]
  dsimp only
  generalize releaseSlot g k (idSlot id) = g₁ at hrel hsent htick ⊢
  rw [if_neg (by simp [hs])]
  have hconn : (g₁.modConn k fun c => { c with streamEnded := true }).conns k = some c.finished :=
    modConn_conn hrel _
  have hpush : ∀ data, Flow E k c.finished (g.sent k ++ c.pending ++ data) g.tick
      (streamPush E (g₁.modConn k fun c => { c with streamEnded := true }) k data) := by
    intro data
    have hflow := streamPush_flow E hconn ⟨hb.stream, hb.atomic⟩ hs data
    rw [modConn_sent, modConn_tick, hsent, htick] at hflow
    exact hflow
  cases hsse : c.streamSse with
  | true => exact ⟨_, hpush []⟩
  | false => exact ⟨_, hpush chunkEnd⟩

end Naitron
