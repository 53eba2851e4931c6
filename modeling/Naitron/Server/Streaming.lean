/-
  Naitron.Server.Streaming

  A streamed response on its way from a handler to a client.

  The frames of the response come in among others of the same controller, in
  any division of its bytes; the client's socket takes what it takes.  The
  invariant `StreamAt` ties the frames that have arrived to the output of the
  connection: what is written and what is yet to be written is what these
  frames ask for.
-/

import Naitron.Server.DeliverFlow
import Naitron.Server.Ipc

namespace Naitron

variable (E : Ext)

-- ============================================================================
-- Frames of other requests
-- ============================================================================

/-- An id resolves to the connection in flight under it. -/
theorem gwConnForId_reqId {f : Flight} (h : SlotInv f) {id : Nat} {k : ConnId}
    (hk : gwConnForId f id = some k) :
    ∃ c, f.conns k = some c ∧ c.inflight = true ∧ c.reqId = id := by
  obtain ⟨hpend, hgen⟩ := gwConnForId_some hk
  obtain ⟨c, hc, hin, hid⟩ := h.pending _ k hpend
  refine ⟨c, hc, hin, ?_⟩
  rw [hid, encodeId, hgen]
  exact Nat.div_add_mod' id ntcMaxInflight

/-- A frame under another id leaves a connection alone. -/
theorem dispatchFrame_other {g : Gateway} (h : SlotInv g.toFlight) {x : WireFrame} {k : ConnId}
    (hother : ∀ c, g.conns k = some c → c.inflight = true → c.reqId ≠ x.hdr.requestId) :
    SameConn k g.toFlight (dispatchFrame E g x).toFlight := by
  refine Moves.sameConn (dispatchFrame_moves E h x) ?_
  rintro l ⟨j, c, hj, -, -, hl⟩ hconn
  rw [← hl.conn_eq hconn] at hj
  obtain ⟨c, hc, hin, hid⟩ := gwConnForId_reqId h hj
  exact hother c hc hin hid

theorem gwConnForId_self {f : Flight} (h : Inv f) {k : ConnId} {c : Conn}
    (hc : f.conns k = some c) (hin : c.inflight = true) : gwConnForId f c.reqId = some k :=
  gwConnForId_inFlight h (e := ⟨c.reqId, k, 0⟩) ⟨c, hc, hin, rfl⟩

-- ============================================================================
-- A streamed response
-- ============================================================================

/-- A handler that streams a response to connection `conn` over controller
    `ctrl`: what it passes to the SDK, and the head of the response.  `skip` is
    the number of frames the controller had sent before. -/
structure StreamPlan where
  conn : ConnId
  ctrl : CtrlId
  skip : Nat
  rid : Nat
  status : Int
  flag : NtcStreamFlag
  ctype : Bytes
  extra : Bytes
  head : Bytes
  formats : ntcHttpFormatStreamHead (wireStatus status) ctype (flagSse flag.code) extra = some head

namespace StreamPlan

def sse (p : StreamPlan) : Bool := flagSse p.flag.code

/-- What a frame of the response has the client sent. -/
def output (p : StreamPlan) (x : WireFrame) : Bytes :=
  match NtcMsgType.ofCode x.hdr.type with
  | some .responseBegin => p.head
  | some .responseChunk => chunkBytes p.sse ((ntcWireDecodeChunk x.payload).getD [])
  | some .responseEnd => streamEnd p.sse
  | _ => []

/-- The frames of the response that have arrived. -/
def arrived (p : StreamPlan) (f : Flight) : List WireFrame :=
  ((f.delivered p.ctrl).drop p.skip).filter (·.hdr.requestId == p.rid)

/-- What the client is to be sent for them. -/
def due (p : StreamPlan) (f : Flight) : Bytes := (p.arrived f).flatMap p.output

/-- More of it is yet to be written than `NTC_STREAM_MAX_BUF`. -/
def Overfull (p : StreamPlan) (f : Flight) : Prop :=
  ntcStreamMaxBuf + (f.sent p.conn).length < (p.due f).length

/-- The frames of a streamed response: a begin, chunks that are not empty, an
    end. -/
structure Script (p : StreamPlan) (b : WireFrame) (cs : List WireFrame) (e : WireFrame) :
    Prop where
  first : NtcMsgType.ofCode b.hdr.type = some .responseBegin
  begins : ntcWireDecodeResponseBegin b.payload = some (wireStatus p.status, p.flag.code, p.ctype)
  middle : ∀ x ∈ cs, NtcMsgType.ofCode x.hdr.type = some .responseChunk
  chunks : ∀ x ∈ cs, ∃ data, ntcWireDecodeChunk x.payload = some data ∧ data ≠ []
  last : NtcMsgType.ofCode e.hdr.type = some .responseEnd

/-- The state of the connection when the frames `d` of the response `fs` have
    arrived. -/
inductive Phase (p : StreamPlan) (fs d : List WireFrame) (c : Conn) : Prop
  | waiting (none : d = []) (state : c.state = .csWait) (inflight : c.inflight = true)
      (streaming : c.streaming = false) (extra : c.extraHeaders.bytes = p.extra)
      (ended : c.streamEnded = false)
  | streaming (some : d ≠ []) (more : d ≠ fs) (state : c.state = .csStream)
      (inflight : c.inflight = true) (streaming : c.streaming = true)
      (sse : c.streamSse = p.sse) (ended : c.streamEnded = false)
  | ended (all : d = fs) (state : c.state = .csStream) (streaming : c.streaming = true)
      (ended : c.streamEnded = true)

/-- How far the response has come.  `why` holds if it was cut short. -/
inductive StreamAt (p : StreamPlan) (fs : List WireFrame) (why : Prop) (f : Flight) : Prop
  | live (c : Conn) (conn : f.conns p.conn = some c) (id : c.reqId = p.rid)
      (tls : c.tls = false) (bounds : c.InBounds) (phase : p.Phase fs (p.arrived f) c)
      (eq : f.sent p.conn ++ c.swbuf.drop c.swsent = p.due f)
  | complete (gone : f.conns p.conn = none) (all : p.arrived f = fs)
      (eq : f.sent p.conn = p.due f)
  | broken (gone : f.conns p.conn = none) (part : f.sent p.conn <+: p.due f) (because : why)

variable {p : StreamPlan} {fs : List WireFrame} {b e : WireFrame} {cs : List WireFrame}

/-- The reason matters only once the connection is gone. -/
theorem StreamAt.imp {why why' : Prop} {f : Flight} (h : p.StreamAt fs why f)
    (hwhy : f.conns p.conn = none → why → why') : p.StreamAt fs why' f := by
  cases h with
  | live c conn id tls bounds phase eq => exact .live c conn id tls bounds phase eq
  | complete gone all eq => exact .complete gone all eq
  | broken gone part because => exact .broken gone part (hwhy gone because)

theorem StreamAt.mono {why why' : Prop} {f : Flight} (h : p.StreamAt fs why f)
    (hwhy : why → why') : p.StreamAt fs why' f :=
  h.imp fun _ => hwhy

/-- The invariant speaks of the connection, its output and the frames. -/
theorem StreamAt.same {why : Prop} {f : Flight} (h : p.StreamAt fs why f) (f' : Flight)
    (hconn : f'.conns p.conn = f.conns p.conn) (hsent : f'.sent p.conn = f.sent p.conn)
    (harr : p.arrived f' = p.arrived f) : p.StreamAt fs why f' := by
  have hdue : p.due f' = p.due f := by rw [due, due, harr]
  cases h with
  | live c conn id tls bounds phase eq =>
      exact .live c (hconn.trans conn) id tls bounds (harr ▸ phase) (by rw [hsent, hdue, eq])
  | complete gone all eq =>
      exact .complete (hconn.trans gone) (harr.trans all) (by rw [hsent, hdue, eq])
  | broken gone part because =>
      exact .broken (hconn.trans gone) (by rw [hsent, hdue]; exact part) because

theorem Phase.drains {d : List WireFrame} {c c' : Conn} (h : p.Phase fs d c) (hd : Drains c c') :
    p.Phase fs d c' := by
  obtain ⟨hstream, hended, -, -, hsse, hin, -, hstate, -⟩ := hd.fields
  have hextra : c'.extraHeaders = c.extraHeaders := by
    rw [Drains] at hd
    rw [hd]
  cases h with
  | waiting none state inflight streaming extra ended =>
      exact .waiting none (hstate.trans state) (hin.trans inflight) (hstream.trans streaming)
        (hextra ▸ extra) (hended.trans ended)
  | streaming some more state inflight streaming sse ended =>
      exact .streaming some more (hstate.trans state) (hin.trans inflight)
        (hstream.trans streaming) (hsse.trans sse) (hended.trans ended)
  | ended all state streaming ended =>
      exact .ended all (hstate.trans state) (hstream.trans streaming) (hended.trans ended)

/-- Writing what is due. -/
theorem StreamAt.of_flow {g : Gateway} {c : Conn} {n : Nat} {r : Rc × Gateway}
    (h : Flow E p.conn c (p.due g.toFlight) n r) (hconns : g.conns = r.2.conns)
    (hsent : g.sent = r.2.sent) (htick : g.tick = r.2.tick) (hid : c.reqId = p.rid)
    (htls : c.tls = false) (hs : c.streaming = true)
    (hphase : p.Phase fs (p.arrived g.toFlight) c) :
    p.StreamAt fs (CallFailed E n g.tick ∨ p.Overfull g.toFlight) g.toFlight := by
  cases h with
  | live c' rc conn drains bounds tick eq =>
      obtain ⟨hs', -, htls', -, -, -, hid', -⟩ := drains.fields
      refine .live c' (hconns ▸ conn) (hid'.trans hid) (htls'.trans htls) bounds
        (hphase.drains drains) ?_
      rw [Conn.pending, if_pos (hs'.trans hs)] at eq
      rw [hsent]
      exact eq
  | done rc gone ended tick eq =>
      refine .complete (hconns ▸ gone) ?_ (hsent ▸ eq)
      cases hphase with
      | waiting _ _ _ hstream => exact absurd (hs.symm.trans hstream) (by decide)
      | streaming _ _ _ _ _ _ hgo => exact absurd ((ended hs).symm.trans hgo) (by decide)
      | ended all => exact all
  | failed rc gone tick part why =>
      refine .broken (hconns ▸ gone) (hsent ▸ part) ?_
      rcases why with hwhy | hwhy | hwhy
      · exact absurd (hwhy.symm.trans htls) (by decide)
      · exact Or.inl (htick ▸ hwhy)
      · exact Or.inr (by rw [Overfull, hsent]; exact hwhy)

-- ============================================================================
-- One frame
-- ============================================================================

/-- Which frame of a script comes next. -/
theorem next_cases {d : List WireFrame} {x : WireFrame} (h : d ++ [x] <+: b :: (cs ++ [e])) :
    (d = [] ∧ x = b) ∨ (d ≠ [] ∧ x ∈ cs ∧ d ++ [x] ≠ b :: (cs ++ [e])) ∨
      (d ≠ [] ∧ x = e ∧ d ++ [x] = b :: (cs ++ [e])) := by
  cases d with
  | nil => exact Or.inl ⟨rfl, (List.cons_prefix_cons.mp h).1⟩
  | cons a d =>
      refine Or.inr ?_
      obtain ⟨rfl, -⟩ := List.cons_prefix_cons.mp h
      have hpre : d ++ [x] <+: cs ++ [e] := (List.cons_prefix_cons.mp h).2
      obtain ⟨r, hr⟩ := hpre
      rcases List.eq_nil_or_concat r with rfl | ⟨r, y, rfl⟩
      · rw [List.append_nil] at hr
        obtain ⟨-, hx⟩ := List.append_inj' hr rfl
        cases hx
        exact Or.inr ⟨List.cons_ne_nil _ _, rfl, by rw [← hr]; rfl⟩
      · rw [List.concat_eq_append, ← List.append_assoc] at hr
        obtain ⟨hcs, -⟩ := List.append_inj' hr rfl
        refine Or.inl ⟨List.cons_ne_nil _ _, ?_, fun heq => ?_⟩
        · rw [← hcs]
          simp
        · have hlen := congrArg List.length heq
          simp only [← hcs, List.length_cons, List.length_append, List.length_nil] at hlen
          omega

/-- A frame of the script asks for its part of the response. -/
theorem due_snoc {f f' : Flight} {x : WireFrame} (h : p.arrived f' = p.arrived f ++ [x]) :
    p.due f' = p.due f ++ p.output x := by
  rw [due, due, h, List.flatMap_append, List.flatMap_singleton]

theorem Overfull.mono {f f' : Flight} (h : p.Overfull f) (hsent : f'.sent p.conn = f.sent p.conn)
    (hdue : p.due f <+: p.due f') : p.Overfull f' := by
  rw [Overfull, hsent]
  exact h.trans_le hdue.length_le

/-- A frame of the script on the connection it is for. -/
theorem dispatchFrame_script {g : Gateway} (h : Inv g.toFlight) (hs : p.Script b cs e)
    {x : WireFrame} {c : Conn} (hx : x.hdr.requestId = p.rid)
    (hnext : p.arrived g.toFlight ++ [x] <+: b :: (cs ++ [e])) (hc : g.conns p.conn = some c)
    (hid : c.reqId = p.rid) (hb : c.InBounds)
    (hphase : p.Phase (b :: (cs ++ [e])) (p.arrived g.toFlight) c)
    (heq : g.sent p.conn ++ c.swbuf.drop c.swsent = p.due g.toFlight) :
    ∃ rc c', Flow E p.conn c' (p.due g.toFlight ++ p.output x) g.tick (rc, dispatchFrame E g x) ∧
      c'.reqId = c.reqId ∧ c'.tls = c.tls ∧ c'.streaming = true ∧
      p.Phase (b :: (cs ++ [e])) (p.arrived g.toFlight ++ [x]) c' := by
  have hk : c.inflight = true → gwConnForId g.toFlight x.hdr.requestId = some p.conn := by
    intro hin
    rw [hx, ← hid]
    exact gwConnForId_self h hc hin
  obtain ⟨hnil, rfl⟩ | ⟨hne, hmem, hmore⟩ | ⟨hne, rfl, hall⟩ := next_cases hnext
  · -- the begin frame
    cases hphase with
    | streaming some => exact absurd hnil some
    | ended all => exact absurd (all.symm.trans hnil) (List.cons_ne_nil _ _)
    | waiting _ _ inflight _ extra ended =>
        have hhead := p.formats
        rw [← extra] at hhead
        obtain ⟨rc, hflow⟩ := gwDeliverBegin_flow E (hk inflight) hc hb hs.begins hhead
        have hout : p.output x = p.head := by rw [output, hs.first]
        refine ⟨rc, c.begun p.flag.code, ?_, rfl, rfl, rfl,
          .streaming (by simp) ?_ rfl inflight rfl rfl ended⟩
        · rw [dispatchFrame, hs.first, hout, ← heq]
          exact hflow
        · rw [hnil]
          simp
  · -- a chunk
    obtain ⟨data, hdec, hdata⟩ := hs.chunks x hmem
    cases hphase with
    | waiting none => exact absurd none hne
    | ended all =>
        rw [all] at hnext
        have hlen := hnext.length_le
        simp at hlen
    | streaming _ _ state inflight streaming sse ended =>
        obtain ⟨rc, hflow⟩ := gwDeliverChunk_flow E (hk inflight) hc hb streaming ended hdec hdata
        have hout : p.output x = chunkBytes c.streamSse data := by
          rw [output, hs.middle x hmem, hdec, sse]
          rfl
        refine ⟨rc, c, ?_, rfl, rfl, streaming,
          .streaming (by simp) hmore state inflight streaming sse ended⟩
        rw [Conn.pending, if_pos streaming, heq] at hflow
        rw [dispatchFrame, hs.middle x hmem, hout]
        exact hflow
  · -- the end
    cases hphase with
    | waiting none => exact absurd none hne
    | ended all =>
        rw [all] at hnext
        have hlen := hnext.length_le
        simp at hlen
    | streaming _ _ state inflight streaming sse ended =>
        obtain ⟨rc, hflow⟩ := gwDeliverEnd_flow E (hk inflight) hc hb streaming
        have hout : p.output x = streamEnd c.streamSse := by rw [output, hs.last, sse]
        refine ⟨rc, c.finished, ?_, rfl, rfl, streaming, .ended hall state streaming rfl⟩
        rw [Conn.pending, if_pos streaming, heq] at hflow
        rw [dispatchFrame, hs.last, hout]
        exact hflow

/-- One turn of the frame loop, in an event that began at tick `n`. -/
theorem deliverFrame_stream {g : Gateway} (h : Inv g.toFlight) (hs : p.Script b cs e) {n : Nat}
    (hn : n ≤ g.tick) (hskip : p.skip ≤ (g.delivered p.ctrl).length) {x : WireFrame}
    (hnext : p.arrived (deliverFrame E p.ctrl g x).toFlight <+: b :: (cs ++ [e]))
    (hat : p.StreamAt (b :: (cs ++ [e])) (CallFailed E n g.tick ∨ p.Overfull g.toFlight)
      g.toFlight) :
    p.StreamAt (b :: (cs ++ [e])) (CallFailed E n (deliverFrame E p.ctrl g x).tick ∨
      p.Overfull (deliverFrame E p.ctrl g x).toFlight) (deliverFrame E p.ctrl g x).toFlight := by
  have hdel := (deliverFrame_read E h p.ctrl x).2
  have htick : g.tick ≤ (deliverFrame E p.ctrl g x).tick := tick_dispatchFrame (E := E) le_rfl
  by_cases hx : x.hdr.requestId = p.rid
  · have harr : p.arrived (deliverFrame E p.ctrl g x).toFlight = p.arrived g.toFlight ++ [x] := by
      rw [arrived, hdel, List.drop_append_of_le_length hskip, List.filter_append]
      simp [arrived, hx]
    have hdue := due_snoc harr
    rw [harr] at hnext
    cases hat with
    | live c conn id tls bounds phase eq =>
        obtain ⟨rc, c', hflow, hid', htls', hs', hphase'⟩ :=
          dispatchFrame_script E h hs hx hnext conn id bounds phase eq
        rw [← hdue] at hflow
        rw [← harr] at hphase'
        refine (StreamAt.of_flow E hflow rfl rfl rfl (hid'.trans id) (htls'.trans tls) hs'
          hphase').mono ?_
        exact Or.imp_left fun hfail => hfail.mono hn le_rfl
    | complete gone all eq =>
        have hlen := hnext.length_le
        rw [all] at hlen
        simp at hlen
    | broken gone part because =>
        have hsame := dispatchFrame_other E h.slots (x := x) (k := p.conn) fun c hc => by
          rw [gone] at hc
          cases hc
        have hpre : p.due g.toFlight <+: p.due (deliverFrame E p.ctrl g x).toFlight :=
          hdue ▸ List.prefix_append _ _
        refine .broken (hsame.1.trans gone) ?_ ?_
        · rw [show (deliverFrame E p.ctrl g x).sent p.conn = g.sent p.conn from hsame.2.1]
          exact part.trans hpre
        · exact because.imp (fun hfail => hfail.mono le_rfl htick)
            fun hover => hover.mono hsame.2.1 hpre
  · have harr : p.arrived (deliverFrame E p.ctrl g x).toFlight = p.arrived g.toFlight := by
      rw [arrived, hdel, List.drop_append_of_le_length hskip, List.filter_append]
      simp [arrived, hx]
    have hsame : SameConn p.conn g.toFlight (dispatchFrame E g x).toFlight := by
      refine dispatchFrame_other E h.slots fun c hc _ hid => ?_
      cases hat with
      | live c' conn id =>
          rw [conn] at hc
          cases hc
          exact hx (hid.symm.trans id)
      | complete gone | broken gone =>
          rw [gone] at hc
          cases hc
    refine (hat.same (deliverFrame E p.ctrl g x).toFlight hsame.1 hsame.2.1 harr).mono ?_
    refine Or.imp (fun hfail => hfail.mono le_rfl htick) fun hover => hover.mono hsame.2.1 ?_
    rw [due, due, harr]

/-- The frame loop. -/
theorem frameLoop_stream (hs : p.Script b cs e) {n : Nat} :
    ∀ (xs : List WireFrame) {g : Gateway}, Inv g.toFlight → n ≤ g.tick →
      p.skip ≤ (g.delivered p.ctrl).length →
      p.arrived (xs.foldl (deliverFrame E p.ctrl) g).toFlight <+: b :: (cs ++ [e]) →
      p.StreamAt (b :: (cs ++ [e])) (CallFailed E n g.tick ∨ p.Overfull g.toFlight) g.toFlight →
      p.StreamAt (b :: (cs ++ [e]))
        (CallFailed E n (xs.foldl (deliverFrame E p.ctrl) g).tick ∨
          p.Overfull (xs.foldl (deliverFrame E p.ctrl) g).toFlight)
        (xs.foldl (deliverFrame E p.ctrl) g).toFlight := by
  intro xs
  induction xs with
  | nil => exact fun _ _ _ _ hat => hat
  | cons x xs ih =>
      intro g h hn hskip hall hat
      have hinv := Moves.inv (deliverFrame_moves E h.slots p.ctrl x) h
      have hdel := (deliverFrame_read E h p.ctrl x).2
      have hdels := (frameLoop_read E p.ctrl xs hinv).2
      have hskip' : p.skip ≤ ((deliverFrame E p.ctrl g x).delivered p.ctrl).length := by
        rw [hdel, List.length_append]
        exact hskip.trans (Nat.le_add_right _ _)
      have hpre : p.arrived (deliverFrame E p.ctrl g x).toFlight <+:
          p.arrived (xs.foldl (deliverFrame E p.ctrl) (deliverFrame E p.ctrl g x)).toFlight := by
        rw [arrived, arrived, hdels, List.drop_append_of_le_length hskip', List.filter_append]
        exact List.prefix_append _ _
      exact ih hinv (hn.trans (tick_dispatchFrame (E := E) le_rfl)) hskip' hall
        (deliverFrame_stream E h hs hn hskip (hpre.trans hall) hat)

-- ============================================================================
-- Events
-- ============================================================================

/-- A client that has gone: `recv` reports end of file or an error. -/
def hangsUp : List RecvResult → Bool
  | .eof :: _ => true
  | .error :: _ => true
  | _ => false

/-- What the functions on a connection leave of the frames. -/
theorem arrived_own {f f' : Flight} {k : ConnId} (hm : Moves (Own k) f f') :
    p.arrived f' = p.arrived f := by
  have hsame : SameRead p.ctrl f f' := Moves.sameRead hm fun l hl => hl.ne_read p.ctrl
  rw [arrived, arrived, hsame.delivered]

theorem onWaitReadable_stream {g : Gateway} {why : Prop} (rs : List RecvResult)
    (hat : p.StreamAt fs why g.toFlight) :
    p.StreamAt fs (why ∨ hangsUp rs = true) (onWaitReadable E g p.conn rs).toFlight := by
  have hclose : p.StreamAt fs (why ∨ True) (connClose E g p.conn).toFlight := by
    have harr := arrived_own (p := p) (connClose_moves E g p.conn)
    have hsent := congrFun (connClose_sent E g p.conn) p.conn
    have hdue : p.due (connClose E g p.conn).toFlight = p.due g.toFlight := by rw [due, due, harr]
    refine .broken (connClose_gone E g p.conn) ?_ (Or.inr trivial)
    rw [hsent, hdue]
    cases hat with
    | live c conn id tls bounds phase eq => exact eq ▸ List.prefix_append _ _
    | complete gone all eq => rw [eq]
    | broken gone part => exact part
  unfold onWaitReadable
  split
  · exact hclose.mono (Or.imp_right fun _ => rfl)
  · exact hclose.mono (Or.imp_right fun _ => rfl)
  · exact hat.mono Or.inl

theorem onWaitReadable_keeps (g : Gateway) (rs : List RecvResult) :
    g.tick ≤ (onWaitReadable E g p.conn rs).tick ∧
      (onWaitReadable E g p.conn rs).sent p.conn = g.sent p.conn ∧
      p.arrived (onWaitReadable E g p.conn rs).toFlight = p.arrived g.toFlight := by
  have hclose : g.tick ≤ (connClose E g p.conn).tick ∧
      (connClose E g p.conn).sent p.conn = g.sent p.conn ∧
      p.arrived (connClose E g p.conn).toFlight = p.arrived g.toFlight :=
    ⟨connClose_tick E g p.conn, by rw [connClose_sent], arrived_own (connClose_moves E g p.conn)⟩
  unfold onWaitReadable
  split
  · exact hclose
  · exact hclose
  · exact ⟨le_rfl, rfl, rfl⟩

theorem onWritable_stream {g : Gateway} (hat : p.StreamAt fs False g.toFlight)
    (hphase : ∀ c, g.conns p.conn = some c → c.state = .csStream) :
    p.StreamAt fs (CallFailed E g.tick (onWritable E g p.conn).2.tick ∨
      p.Overfull (onWritable E g p.conn).2.toFlight) (onWritable E g p.conn).2.toFlight := by
  have harr := arrived_own (p := p) (onWritable_moves E g p.conn)
  cases hat with
  | live c conn id tls bounds phase eq =>
      have hs : c.streaming = true := by
        have hstate := hphase c conn
        cases phase with
        | waiting _ state => exact absurd (hstate.symm.trans state) (by decide)
        | streaming _ _ _ _ streaming => exact streaming
        | ended _ _ streaming => exact streaming
      have hdue : p.due (onWritable E g p.conn).2.toFlight = p.due g.toFlight := by
        rw [due, due, harr]
      have hflow := onWritable_flow E conn bounds
      rw [Conn.pending, if_pos hs, eq, ← hdue] at hflow
      rw [← harr] at phase
      exact StreamAt.of_flow E hflow rfl rfl rfl id tls hs phase
  | complete gone all eq =>
      have hidle : onWritable E g p.conn = (.neg, g) := by rw [onWritable, gone]
      rw [hidle]
      exact .complete gone all eq
  | broken _ _ because => exact because.elim

/-- An event of the client. -/
theorem onClientEvent_stream {g : Gateway} (hat : p.StreamAt fs False g.toFlight)
    (read write : Bool) (i : ClientInput) :
    p.StreamAt fs
      ((CallFailed E g.tick (onClientEvent E g p.conn read write i).tick ∨
        p.Overfull (onClientEvent E g p.conn read write i).toFlight) ∨
        read = true ∧ hangsUp i.recvs = true)
      (onClientEvent E g p.conn read write i).toFlight := by
  -- reading leaves the reasons the writing gave
  have hread : ∀ g₁ : Gateway, (p.StreamAt fs
      (CallFailed E g.tick g₁.tick ∨ p.Overfull g₁.toFlight) g₁.toFlight) →
      p.StreamAt fs ((CallFailed E g.tick (onWaitReadable E g₁ p.conn i.recvs).tick ∨
        p.Overfull (onWaitReadable E g₁ p.conn i.recvs).toFlight) ∨ hangsUp i.recvs = true)
        (onWaitReadable E g₁ p.conn i.recvs).toFlight := by
    intro g₁ hat₁
    obtain ⟨htick, hsent, harr⟩ := onWaitReadable_keeps E (p := p) g₁ i.recvs
    refine (onWaitReadable_stream E i.recvs hat₁).mono (Or.imp_left ?_)
    refine Or.imp (fun hfail => hfail.mono le_rfl htick) fun hover => hover.mono hsent ?_
    rw [due, due, harr]
  have hstart : p.StreamAt fs (CallFailed E g.tick g.tick ∨ p.Overfull g.toFlight) g.toFlight :=
    hat.mono False.elim
  unfold onClientEvent
  cases hat with
  | complete gone all eq =>
      rw [gone]
      exact .complete gone all eq
  | broken _ _ because => exact because.elim
  | live c conn id tls bounds phase eq =>
      rw [conn]
      dsimp only
      rw [if_neg (by simp [tls])]
      have hstate : c.state = .csWait ∨ c.state = .csStream := by
        cases phase with
        | waiting _ state => exact Or.inl state
        | streaming _ _ state => exact Or.inr state
        | ended _ state => exact Or.inr state
      rcases hstate with hstate | hstate
      · rw [hstate]
        dsimp only
        cases read with
        | true => exact (hread g hstart).mono (Or.imp_right fun h => ⟨rfl, h⟩)
        | false => exact hstart.mono Or.inl
      · rw [hstate]
        dsimp only
        have hwrite : p.StreamAt fs
            (CallFailed E g.tick (if write then onWritable E g p.conn else (.zero, g)).2.tick ∨
              p.Overfull (if write then onWritable E g p.conn else (.zero, g)).2.toFlight)
            (if write then onWritable E g p.conn else (.zero, g)).2.toFlight := by
          cases write with
          | false => exact hstart
          | true =>
              refine onWritable_stream E (.live c conn id tls bounds phase eq) fun d hd => ?_
              rw [conn] at hd
              cases hd
              exact hstate
        split
        · rename_i g₁ hr
          rw [hr] at hwrite
          exact hwrite.mono Or.inl
        · rename_i g₁ hr
          rw [hr] at hwrite
          cases read with
          | true => exact (hread g₁ hwrite).mono (Or.imp_right fun h => ⟨rfl, h⟩)
          | false => exact hwrite.mono Or.inl

/-- A controller event that does not end the controller. -/
structure QuietCtrl (t : Ctrl) (read write : Bool) (i : CtrlInput) : Prop where
  reads : read = true → QuietEvent t i.recvs
  writes : write = true → SendResult.error ∉ i.sends

/-- The bytes that arrive in a controller event. -/
def bytesRead (read : Bool) (i : CtrlInput) : Bytes := if read then recvBytes i.recvs else []

theorem modCtrl_keeps (g : Gateway) (ct : CtrlId) (F : Ctrl → Ctrl) :
    (g.modCtrl ct F).conns = g.conns ∧ (g.modCtrl ct F).sent = g.sent ∧
      (g.modCtrl ct F).delivered = g.delivered ∧ (g.modCtrl ct F).tick = g.tick := by
  unfold Gateway.modCtrl
  split <;> exact ⟨rfl, rfl, rfl, rfl⟩

theorem fillCtrl_keeps (g : Gateway) (ct : CtrlId) (t : Ctrl) (buf : Bytes) :
    (fillCtrl g ct t buf).conns = g.conns ∧ (fillCtrl g ct t buf).sent = g.sent ∧
      (fillCtrl g ct t buf).delivered = g.delivered ∧ (fillCtrl g ct t buf).tick = g.tick :=
  modCtrl_keeps g ct fun t => { t with rbuf := buf }

/-- A writable controller socket without an error moves nothing else. -/
theorem onCtrlWritable_quiet {g : Gateway} (h : Inv g.toFlight) {ct : CtrlId}
    {ss : List SendResult} (herr : SendResult.error ∉ ss) (k : ConnId) :
    SameConn k g.toFlight (onCtrlWritable E g ct ss).toFlight ∧
      SameRead ct g.toFlight (onCtrlWritable E g ct ss).toFlight ∧
      ((g.ctrls ct).isSome → ((onCtrlWritable E g ct ss).ctrls ct).isSome) ∧
      (onCtrlWritable E g ct ss).tick = g.tick := by
  have hmoves := (onCtrlWritable_moves E h ct ss).mono (Q := (· = .queue ct)) fun l hl =>
    hl.resolve_right fun hdies => herr hdies.1
  refine ⟨Moves.sameConn hmoves ?_, Moves.sameRead hmoves ?_, Moves.ctrl_isSome hmoves ?_, ?_⟩
  · rintro l rfl hconn
    cases hconn
  · rintro l rfl
    exact ⟨by simp, by simp⟩
  · rintro l rfl idle hdrop
    cases hdrop
  · unfold onCtrlWritable
    split
    · rfl
    · dsimp only
      split
      · rename_i hend
        exact absurd (sendLoop_failed hend) herr
      · exact (modCtrl_keeps _ ct _).2.2.2
      · exact (modCtrl_keeps _ ct _).2.2.2

/-- What holds of the controller in any state. -/
structure Reading (p : StreamPlan) (ms : List WireMsg) (g : Gateway) : Prop where
  inv : Inv g.toFlight
  read : LiveRead g.toFlight p.ctrl
  live : (g.ctrls p.ctrl).isSome
  received : g.received p.ctrl <+: ms.flatMap WireMsg.bytes
  skip : p.skip ≤ (g.delivered p.ctrl).length

/-- The frames of the response come in the order the controller sent them. -/
theorem Reading.arrived_le {ms : List WireMsg} {g : Gateway} (h : p.Reading ms g)
    (hms : ((ms.drop p.skip).filter (·.requestId == p.rid)).map WireMsg.frame = fs) :
    p.arrived g.toFlight <+: fs := by
  obtain ⟨t, ht⟩ := Option.isSome_iff_exists.mp h.live
  obtain ⟨n, hstep⟩ := h.read.inStep ht h.received
  have harr : p.arrived g.toFlight =
      (((ms.take n).drop p.skip).filter (·.requestId == p.rid)).map WireMsg.frame := by
    rw [arrived, hstep.delivered, ← List.map_drop, List.filter_map]
    rfl
  have hpre : (ms.take n).drop p.skip <+: ms.drop p.skip := (List.take_prefix n ms).drop p.skip
  rw [harr, ← hms]
  exact (hpre.filter _).map _

theorem arrived_append {f f' : Flight} {xs : List WireFrame}
    (hskip : p.skip ≤ (f.delivered p.ctrl).length)
    (hdel : f'.delivered p.ctrl = f.delivered p.ctrl ++ xs) : p.arrived f <+: p.arrived f' := by
  rw [arrived, arrived, hdel, List.drop_append_of_le_length hskip, List.filter_append]
  exact List.prefix_append _ _

/-- Reading from the controller. -/
theorem onCtrlReadable_reading {g : Gateway} {ms : List WireMsg} (h : p.Reading ms g) {t : Ctrl}
    (ht : g.ctrls p.ctrl = some t) {rs : List RecvResult} (hquiet : QuietEvent t rs)
    (hbytes : g.received p.ctrl ++ recvBytes rs <+: ms.flatMap WireMsg.bytes) :
    p.Reading ms (onCtrlReadable E g p.ctrl rs).2 ∧
      p.arrived g.toFlight <+: p.arrived (onCtrlReadable E g p.ctrl rs).2.toFlight := by
  obtain ⟨⟨t', ht'⟩, hrec⟩ := onCtrlReadable_quiet E h.inv h.read ht hquiet hbytes
  obtain ⟨rest, heq⟩ := onCtrlReadable_quiet_eq E h.read ht hquiet hbytes
  have hfill := Moves.inv (fillCtrl_moves g p.ctrl t (t.rbuf ++ recvBytes rs)) h.inv
  have hdels := (frameLoop_read E p.ctrl (framesIn (t.rbuf ++ recvBytes rs)) hfill).2
  have hdel : (onCtrlReadable E g p.ctrl rs).2.delivered p.ctrl =
      g.delivered p.ctrl ++ framesIn (t.rbuf ++ recvBytes rs) := by
    rw [heq, (modCtrl_keeps _ p.ctrl _).2.2.1, hdels, (fillCtrl_keeps g p.ctrl t _).2.2.1]
  refine ⟨⟨Moves.inv (onCtrlReadable_moves E h.inv ht rs) h.inv,
    (onCtrlReadable_read E h.inv h.read ht rs).2, Option.isSome_iff_exists.mpr ⟨t', ht'⟩,
    hrec ▸ hbytes, ?_⟩, arrived_append h.skip hdel⟩
  rw [hdel, List.length_append]
  exact h.skip.trans (Nat.le_add_right _ _)

theorem onCtrlReadable_stream {g : Gateway} {ms : List WireMsg} (hs : p.Script b cs e)
    (hms : ((ms.drop p.skip).filter (·.requestId == p.rid)).map WireMsg.frame = b :: (cs ++ [e]))
    {t : Ctrl} (h : p.Reading ms g) (hnow : p.StreamAt (b :: (cs ++ [e])) False g.toFlight)
    (ht : g.ctrls p.ctrl = some t) {rs : List RecvResult} (hquiet : QuietEvent t rs)
    (hbytes : g.received p.ctrl ++ recvBytes rs <+: ms.flatMap WireMsg.bytes) :
    p.StreamAt (b :: (cs ++ [e]))
      (CallFailed E g.tick (onCtrlReadable E g p.ctrl rs).2.tick ∨
        p.Overfull (onCtrlReadable E g p.ctrl rs).2.toFlight)
      (onCtrlReadable E g p.ctrl rs).2.toFlight := by
  have hpre := (onCtrlReadable_reading E h ht hquiet hbytes).1.arrived_le hms
  obtain ⟨rest, heq⟩ := onCtrlReadable_quiet_eq E h.read ht hquiet hbytes
  have hfill := Moves.inv (fillCtrl_moves g p.ctrl t (t.rbuf ++ recvBytes rs)) h.inv
  obtain ⟨hconns, hsent, hdel, htick⟩ := fillCtrl_keeps g p.ctrl t (t.rbuf ++ recvBytes rs)
  rw [heq] at hpre ⊢
  dsimp only at hpre ⊢
  -- the state before the frames, and the state after them
  generalize fillCtrl g p.ctrl t (t.rbuf ++ recvBytes rs) = g₁ at *
  obtain ⟨hconns₂, hsent₂, hdel₂, htick₂⟩ := modCtrl_keeps
    ((framesIn (t.rbuf ++ recvBytes rs)).foldl (deliverFrame E p.ctrl) g₁) p.ctrl
    fun t => { t with rbuf := rest }
  have hskip : p.skip ≤ (g₁.delivered p.ctrl).length := hdel ▸ h.skip
  have harr : p.arrived g₁.toFlight = p.arrived g.toFlight := by rw [arrived, arrived, hdel]
  have hloop := frameLoop_stream E hs (framesIn (t.rbuf ++ recvBytes rs)) hfill htick.ge hskip
    (by rw [arrived, hdel₂] at hpre; exact hpre)
    ((hnow.same g₁.toFlight (by rw [hconns]) (by rw [hsent]) harr).mono False.elim)
  generalize (framesIn (t.rbuf ++ recvBytes rs)).foldl (deliverFrame E p.ctrl) g₁ = g₂ at *
  generalize (g₂.modCtrl p.ctrl fun t => { t with rbuf := rest }) = g₃ at *
  have harr₃ : p.arrived g₃.toFlight = p.arrived g₂.toFlight := by rw [arrived, arrived, hdel₂]
  refine (hloop.same g₃.toFlight (by rw [hconns₂]) (by rw [hsent₂]) harr₃).mono ?_
  refine Or.imp (fun hfail => htick₂.symm ▸ hfail) fun hover => hover.mono (by rw [hsent₂]) ?_
  rw [due, due, harr₃]

/-- An event of the controller that does not end it. -/
theorem onCtrlEvent_stream {g : Gateway} {ms : List WireMsg} (hs : p.Script b cs e)
    (hms : ((ms.drop p.skip).filter (·.requestId == p.rid)).map WireMsg.frame = b :: (cs ++ [e]))
    {t : Ctrl} (h : p.Reading ms g) (ht : g.ctrls p.ctrl = some t) {read write : Bool}
    {i : CtrlInput} (hquiet : QuietCtrl t read write i)
    (hbytes : g.received p.ctrl ++ bytesRead read i <+: ms.flatMap WireMsg.bytes) :
    p.Reading ms (onCtrlEvent E g p.ctrl read write i) ∧
      p.arrived g.toFlight <+: p.arrived (onCtrlEvent E g p.ctrl read write i).toFlight ∧
      (p.StreamAt (b :: (cs ++ [e])) False g.toFlight → p.StreamAt (b :: (cs ++ [e]))
        (CallFailed E g.tick (onCtrlEvent E g p.ctrl read write i).tick ∨
          p.Overfull (onCtrlEvent E g p.ctrl read write i).toFlight)
        (onCtrlEvent E g p.ctrl read write i).toFlight) := by
  -- the write leaves what the read gave
  have hwrite : ∀ g₁ : Gateway, p.Reading ms g₁ → write = true →
      p.Reading ms (onCtrlWritable E g₁ p.ctrl i.sends) ∧
        p.arrived (onCtrlWritable E g₁ p.ctrl i.sends).toFlight = p.arrived g₁.toFlight ∧
        (p.StreamAt (b :: (cs ++ [e])) (CallFailed E g.tick g₁.tick ∨ p.Overfull g₁.toFlight)
          g₁.toFlight → p.StreamAt (b :: (cs ++ [e]))
            (CallFailed E g.tick (onCtrlWritable E g₁ p.ctrl i.sends).tick ∨
              p.Overfull (onCtrlWritable E g₁ p.ctrl i.sends).toFlight)
            (onCtrlWritable E g₁ p.ctrl i.sends).toFlight) := by
    intro g₁ h₁ hw
    obtain ⟨hsame, hread, hlive, htick⟩ :=
      @onCtrlWritable_quiet E g₁ h₁.inv p.ctrl i.sends (hquiet.writes hw) p.conn
    have harr : p.arrived (onCtrlWritable E g₁ p.ctrl i.sends).toFlight =
        p.arrived g₁.toFlight := by rw [arrived, arrived, hread.delivered]
    refine ⟨⟨Moves.inv (onCtrlWritable_moves E h₁.inv p.ctrl i.sends) h₁.inv,
      hread.liveRead h₁.read, hlive h₁.live, hread.received ▸ h₁.received,
      hread.delivered ▸ h₁.skip⟩, harr, fun hnow => (hnow.same _ hsame.1 hsame.2.1 harr).mono ?_⟩
    refine Or.imp (fun hfail => htick.symm ▸ hfail) fun hover => hover.mono hsame.2.1 ?_
    rw [due, due, harr]
  unfold onCtrlEvent
  cases read with
  | false =>
      rw [if_neg Bool.false_ne_true]
      dsimp only
      cases hw : write with
      | true =>
          obtain ⟨hreading, harr, hnow⟩ := hwrite g h hw
          exact ⟨hreading, harr ▸ List.prefix_rfl, fun hat => hnow (hat.mono False.elim)⟩
      | false => exact ⟨h, List.prefix_rfl, fun hat => hat.mono False.elim⟩
  | true =>
      have hquiet' := hquiet.reads rfl
      obtain ⟨h', harr'⟩ := onCtrlReadable_reading E h ht hquiet' hbytes
      have hnow' := fun hat => onCtrlReadable_stream E hs hms h hat ht hquiet' hbytes
      have hrc : (onCtrlReadable E g p.ctrl i.recvs).1 = .zero := by
        obtain ⟨rest, heq⟩ := onCtrlReadable_quiet_eq E h.read ht hquiet' hbytes
        rw [heq]
      rw [if_pos rfl]
      generalize onCtrlReadable E g p.ctrl i.recvs = r at hrc h' harr' hnow' ⊢
      obtain ⟨rc, g₁⟩ := r
      cases hrc
      dsimp only at h' harr' hnow' ⊢
      cases hw : write with
      | true =>
          obtain ⟨hreading, harr, hnow⟩ := hwrite g₁ h' hw
          exact ⟨hreading, harr ▸ harr', fun hat => hnow (hnow' hat)⟩
      | false => exact ⟨h', harr', hnow'⟩

-- ============================================================================
-- Runs
-- ============================================================================

/-- A step while the response is under way: an event of its controller that
    brings the next of the bytes `ms` and does not end it, any event of its
    client, or anything that touches neither. -/
inductive StreamStep (p : StreamPlan) (ms : List WireMsg) (g : Gateway) : Input → Prop
  | ctrl (t : Ctrl) (read write : Bool) (i : CtrlInput) (live : g.ctrls p.ctrl = some t)
      (quiet : QuietCtrl t read write i)
      (bytes : g.received p.ctrl ++ bytesRead read i <+: ms.flatMap WireMsg.bytes) :
      StreamStep p ms g (.event (.ctrl p.ctrl read write i))
  | client (read write : Bool) (i : ClientInput) :
      StreamStep p ms g (.event (.client p.conn read write i))
  | other (i : Input) (conn : SameConn p.conn g.toFlight (step E g i).toFlight)
      (read : SameRead p.ctrl g.toFlight (step E g i).toFlight)
      (live : ((step E g i).ctrls p.ctrl).isSome) : StreamStep p ms g i

/-- The client of a connection goes away. -/
def HangUp (k : ConnId) : Input → Prop
  | .event (.client j read _ i) => j = k ∧ read = true ∧ hangsUp i.recvs = true
  | _ => False

/-- The connection is closed by a call that fails, by a client that goes away,
    or with more to write than `NTC_STREAM_MAX_BUF`. -/
def ClosedEarly (p : StreamPlan) (g : Gateway) (i : Input) : Prop :=
  g.conns p.conn ≠ none ∧ (step E g i).conns p.conn = none ∧
    ((CallFailed E g.tick (step E g i).tick ∨ p.Overfull (step E g i).toFlight) ∨ HangUp p.conn i)

theorem due_le {f f' : Flight} (h : p.arrived f <+: p.arrived f') : p.due f <+: p.due f' := by
  obtain ⟨r, hr⟩ := h
  rw [due, due, ← hr, List.flatMap_append]
  exact List.prefix_append _ _

/-- A step that leaves a connection that is gone alone. -/
theorem StreamAt.step {a w : Prop} {f f' : Flight} (hnow : p.StreamAt fs a f)
    (hgone : f.conns p.conn = none → SameConn p.conn f f') (hmore : p.arrived f <+: p.arrived f')
    (hpre : p.arrived f' <+: fs) (hstep : p.StreamAt fs False f → p.StreamAt fs w f') :
    p.StreamAt fs (a ∨ f.conns p.conn ≠ none ∧ f'.conns p.conn = none ∧ w) f' := by
  cases hnow with
  | live c conn id tls bounds phase eq =>
      refine (hstep (.live c conn id tls bounds phase eq)).imp fun hclosed hw =>
        Or.inr ⟨?_, hclosed, hw⟩
      rw [conn]
      exact Option.some_ne_none c
  | complete gone all eq =>
      obtain ⟨hconn, hsent, -⟩ := hgone gone
      rw [all] at hmore
      have hall : p.arrived f' = fs := hpre.eq_of_length (le_antisymm hpre.length_le hmore.length_le)
      have hdue : p.due f' = p.due f := by rw [due, due, hall, all]
      exact .complete (hconn.trans gone) hall (by rw [hsent, hdue, eq])
  | broken gone part because =>
      obtain ⟨hconn, hsent, -⟩ := hgone gone
      refine .broken (hconn.trans gone) ?_ (Or.inl because)
      rw [hsent]
      exact part.trans (due_le hmore)

theorem onCtrlEvent_gone {g : Gateway} (h : Inv g.toFlight) {ct : CtrlId} {t : Ctrl}
    (ht : g.ctrls ct = some t) (read write : Bool) (i : CtrlInput) {k : ConnId}
    (hgone : g.conns k = none) :
    SameConn k g.toFlight (onCtrlEvent E g ct read write i).toFlight := by
  refine Moves.sameConn (onCtrlEvent_moves E h ht read write i) ?_
  rintro l (rfl | rfl | ⟨-, j, ⟨_, -, -, c, hc, -⟩, hl⟩ | ⟨-, ⟨j, ⟨_, c, -, hc, -⟩, hl⟩ | rfl⟩) hconn
  · cases hconn
  · cases hconn
  · cases hl.conn_eq hconn
    rw [hgone] at hc
    cases hc
  · cases hl.conn_eq hconn
    rw [hgone] at hc
    cases hc
  · cases hconn

/-- What the client of the response does, the controller does not see. -/
theorem onClientEvent_reading {g : Gateway} {ms : List WireMsg} {a : Prop} (h : p.Reading ms g)
    (hnow : p.StreamAt fs a g.toFlight) (read write : Bool) (i : ClientInput) :
    p.Reading ms (onClientEvent E g p.conn read write i) ∧
      p.arrived (onClientEvent E g p.conn read write i).toFlight = p.arrived g.toFlight := by
  have hmoves : Moves (Own p.conn) g.toFlight (onClientEvent E g p.conn read write i).toFlight := by
    cases hnow with
    | live c conn id tls bounds phase =>
        refine onClientEvent_own E h.inv conn tls ?_ read write i
        cases phase with
        | waiting _ state => exact fun hread => by rw [state] at hread; cases hread
        | streaming _ _ state => exact fun hread => by rw [state] at hread; cases hread
        | ended _ state => exact fun hread => by rw [state] at hread; cases hread
    | complete gone | broken gone =>
        rw [onClientEvent, gone]
        exact .refl _
  have hread : SameRead p.ctrl g.toFlight (onClientEvent E g p.conn read write i).toFlight :=
    Moves.sameRead hmoves fun l hl => hl.ne_read p.ctrl
  refine ⟨⟨Moves.inv hmoves h.inv, hread.liveRead h.read, Moves.ctrl_isSome hmoves ?_ h.live,
    hread.received ▸ h.received, hread.delivered ▸ h.skip⟩, arrived_own hmoves⟩
  rintro l hl idle rfl
  exact hl

/-- Every step keeps the invariant, and cuts the response short only for a
    reason. -/
theorem step_stream {g : Gateway} {i : Input} {ms : List WireMsg} {a : Prop}
    (hs : p.Script b cs e)
    (hms : ((ms.drop p.skip).filter (·.requestId == p.rid)).map WireMsg.frame = b :: (cs ++ [e]))
    (h : p.Reading ms g) (hnow : p.StreamAt (b :: (cs ++ [e])) a g.toFlight)
    (hi : p.StreamStep E ms g i) :
    p.Reading ms (step E g i) ∧
      p.StreamAt (b :: (cs ++ [e])) (a ∨ p.ClosedEarly E g i) (step E g i).toFlight := by
  cases hi with
  | ctrl t read write i live quiet bytes =>
      obtain ⟨h', hmore, hstep⟩ := onCtrlEvent_stream E hs hms h live quiet bytes
      refine ⟨h', hnow.step (onCtrlEvent_gone E h.inv live read write i) hmore
        (h'.arrived_le hms) fun hat => (hstep hat).mono Or.inl⟩
  | client read write i =>
      obtain ⟨h', harr⟩ := onClientEvent_reading E h hnow read write i
      refine ⟨h', hnow.step (fun hgone => ?_) (harr ▸ List.prefix_rfl) (h'.arrived_le hms)
        fun hat => (onClientEvent_stream E hat read write i).mono (Or.imp_right fun hup => ?_)⟩
      · show SameConn p.conn g.toFlight (onClientEvent E g p.conn read write i).toFlight
        rw [onClientEvent, hgone]
        exact ⟨rfl, rfl, rfl⟩
      · exact ⟨rfl, hup⟩
  | other i conn read live =>
      refine ⟨⟨step_inv E i h.inv, read.liveRead h.read, live, read.received ▸ h.received,
        read.delivered ▸ h.skip⟩, (hnow.same _ conn.1 conn.2.1 ?_).mono Or.inl⟩
      rw [arrived, arrived, read.delivered]

/-- Over a whole run. -/
theorem run_stream {g : Gateway} {is : List Input} {ms : List WireMsg} (hs : p.Script b cs e)
    (hms : ((ms.drop p.skip).filter (·.requestId == p.rid)).map WireMsg.frame = b :: (cs ++ [e]))
    (h : p.Reading ms g) (hnow : p.StreamAt (b :: (cs ++ [e])) False g.toFlight)
    (hrun : Lib.Along (step E) (p.StreamStep E ms) g is) :
    p.Reading ms (is.foldl (step E) g) ∧ p.StreamAt (b :: (cs ++ [e]))
      (¬ Lib.Along (step E) (fun g i => ¬ p.ClosedEarly E g i) g is)
      (is.foldl (step E) g).toFlight := by
  obtain ⟨h', hnow'⟩ := Lib.Along.keep_while (Q := fun g i => ¬ p.ClosedEarly E g i)
    (I := fun a g => p.Reading ms g ∧ p.StreamAt (b :: (cs ++ [e])) a g.toFlight)
    (fun hab hI => ⟨hI.1, hI.2.mono hab⟩)
    (fun hI hi => by
      obtain ⟨h', hnow'⟩ := step_stream E hs hms hI.1 hI.2 hi
      exact ⟨h', hnow'.mono (Or.imp_right not_not.mpr)⟩)
    hrun ⟨h, hnow⟩
  exact ⟨h', hnow'.mono fun hwhy => hwhy.resolve_left id⟩

-- ============================================================================
-- The frames of a handler
-- ============================================================================

/-- The chunks of a handler, and what they ask for. -/
theorem chunkMsgs_output (hid : p.rid < 2 ^ 32) :
    ∀ ws : List Bytes,
      (∀ m ∈ ws.filterMap (chunkMsg? p.rid hid),
        NtcMsgType.ofCode m.frame.hdr.type = some .responseChunk ∧
          ∃ data, ntcWireDecodeChunk m.frame.payload = some data ∧ data ≠ []) ∧
        ((ws.filterMap (chunkMsg? p.rid hid)).map WireMsg.frame).flatMap p.output =
          (written ws).flatMap (chunkBytes p.sse) := by
  intro ws
  induction ws with
  | nil =>
      refine ⟨fun m hm => ?_, rfl⟩
      cases hm
  | cons w ws ih =>
      obtain ⟨hall, hout⟩ := ih
      rw [written] at hout ⊢
      by_cases hw : w ≠ [] ∧ w.length ≤ ntcStreamWriteMax
      · have hmax : ntcStreamWriteMax < 2 ^ 32 := by decide
        have hdec := ntcWireDecodeChunk_slice32 (hw.2.trans_lt hmax)
        have hmsg : ∃ m, chunkMsg? p.rid hid w = some m ∧ m.type = NtcMsgType.responseChunk.code ∧
            m.payload = slice32Bytes w := ⟨_, dif_pos hw, rfl, rfl⟩
        obtain ⟨m, hm, htype, hpayload⟩ := hmsg
        have htype' : NtcMsgType.ofCode m.frame.hdr.type = some .responseChunk := by
          rw [show m.frame.hdr.type = m.type from rfl, htype, NtcMsgType.ofCode_code]
        have hdec' : ntcWireDecodeChunk m.frame.payload = some w := by
          rw [show m.frame.payload = m.payload from rfl, hpayload, hdec]
        rw [List.filterMap_cons_some hm, List.filter_cons_of_pos (by simp [hw])]
        refine ⟨?_, ?_⟩
        · rintro x (_ | ⟨_, hx⟩)
          · exact ⟨htype', w, hdec', hw.1⟩
          · exact hall x hx
        · rw [List.map_cons, List.flatMap_cons, List.flatMap_cons, hout, output, htype', hdec']
          rfl
      · have hnone : chunkMsg? p.rid hid w = none := dif_neg hw
        rw [List.filterMap_cons_none hnone, List.filter_cons_of_neg (by simpa using hw)]
        exact ⟨hall, hout⟩

/-- The frames of a handler are a script for the head and the body. -/
theorem streamMsgs_script (hid : p.rid < 2 ^ 32) {payload : Bytes} (hlen : payload.length ≤ 1024)
    (hdec : ntcWireDecodeResponseBegin payload =
      some (wireStatus p.status, p.flag.code, p.ctype)) (ws : List Bytes) :
    ∃ b cs e, (streamMsgs p.rid hid payload hlen ws).map WireMsg.frame = b :: (cs ++ [e]) ∧
      p.Script b cs e ∧
      (b :: (cs ++ [e])).flatMap p.output = p.head ++ streamBody p.sse (written ws) := by
  obtain ⟨hall, hout⟩ := chunkMsgs_output hid ws
  have hfirst : NtcMsgType.ofCode (beginMsg p.rid hid payload hlen).frame.hdr.type =
      some .responseBegin := rfl
  have hlast : NtcMsgType.ofCode (endMsg p.rid hid).frame.hdr.type = some .responseEnd := rfl
  refine ⟨(beginMsg p.rid hid payload hlen).frame,
    (ws.filterMap (chunkMsg? p.rid hid)).map WireMsg.frame, (endMsg p.rid hid).frame, ?_, ?_, ?_⟩
  · rw [streamMsgs, List.map_cons, List.map_append]
    rfl
  · refine ⟨hfirst, hdec, fun x hx => ?_, fun x hx => ?_, hlast⟩
    · obtain ⟨m, hm, rfl⟩ := List.mem_map.mp hx
      exact (hall m hm).1
    · obtain ⟨m, hm, rfl⟩ := List.mem_map.mp hx
      exact (hall m hm).2
  · have hb : p.output (beginMsg p.rid hid payload hlen).frame = p.head := by rw [output, hfirst]
    have he : p.output (endMsg p.rid hid).frame = streamEnd p.sse := by rw [output, hlast]
    rw [List.flatMap_cons, List.flatMap_append, hout, List.flatMap_singleton, hb, he, streamBody]

/-- The start of a streamed response: the request waits for it, nothing has
    been written to the client, and the frames that `ctrl` sends under its id
    are those of a handler that begins a stream, writes `ws` and ends it. -/
structure Starts (p : StreamPlan) (ws : List Bytes) (ms : List WireMsg) (c : Conn)
    (g : Gateway) : Prop where
  conn : g.conns p.conn = some c
  id : c.reqId = p.rid
  state : c.state = .csWait
  inflight : c.inflight = true
  tls : c.tls = false
  extra : c.extraHeaders.bytes = p.extra
  idle : c.streaming = false ∧ c.streamEnded = false
  empty : c.swbuf = [] ∧ c.swsent = 0 ∧ c.wbuf = [] ∧ c.wsent = 0
  sent : g.sent p.conn = []
  live : (g.ctrls p.ctrl).isSome
  skip : p.skip = (g.delivered p.ctrl).length
  received : g.received p.ctrl <+: ms.flatMap WireMsg.bytes
  handler : streamHandler p.rid p.status p.flag p.ctype ws =
    some (((ms.drop p.skip).filter (·.requestId == p.rid)).flatMap WireMsg.bytes)

theorem Starts.streamAt {ws : List Bytes} {ms : List WireMsg} {c : Conn} {g : Gateway}
    (h : p.Starts ws ms c g) : p.StreamAt fs False g.toFlight := by
  obtain ⟨hswbuf, hswsent, hwbuf, hwsent⟩ := h.empty
  have harr : p.arrived g.toFlight = [] := by
    rw [arrived, h.skip, List.drop_length]
    rfl
  refine .live c h.conn h.id h.tls ⟨?_, ?_⟩ (.waiting harr h.state h.inflight h.idle.1 h.extra
    h.idle.2) ?_
  · rw [hswsent]
    exact Nat.zero_le _
  · rw [hwsent]
    exact Nat.zero_le _
  · rw [h.sent, hswbuf, due, harr, List.drop_nil]
    rfl

theorem reqId_lt {f : Flight} (h : Inv f) {k : ConnId} {c : Conn} (hc : f.conns k = some c)
    (hin : c.inflight = true) : c.reqId < 2 ^ 32 := by
  have hpend := h.slots.inflight k c hc hin
  obtain ⟨d, hd, -, hid⟩ := h.slots.pending _ k hpend
  rw [hc] at hd
  cases hd
  have hslot := h.slots.wf.lt_of_pending hpend
  have hgen : f.slots.gen (idSlot c.reqId) % ntcGenSpan < ntcGenSpan := Nat.mod_lt _ (by decide)
  rw [hid, encodeId]
  simp only [ntcMaxInflight, ntcGenSpan] at hslot hgen ⊢
  omega

/-- Streaming is faithful end to end.  For every handler that begins a stream,
    writes the strings `ws` and ends it, and every run in which its frames
    arrive in any pieces among others and the client's socket does as it will:
    what is written to the client is a beginning of the head and the body, and
    is all of it when the connection is closed, unless it was closed early for
    a reason.  The body is the concatenation of the strings, or a chunked
    encoding of it with one chunk of size zero, at the end. -/
theorem streaming_is_faithful {ws : List Bytes} {ms : List WireMsg} {c : Conn} {g : Gateway}
    (hg : Reachable E g) (hstart : p.Starts ws ms c g) {is : List Input}
    (hrun : Lib.Along (step E) (p.StreamStep E ms) g is) :
    (is.foldl (step E) g).sent p.conn <+: p.head ++ streamBody p.sse (written ws) ∧
    (Lib.Along (step E) (fun g i => ¬ p.ClosedEarly E g i) g is →
      (is.foldl (step E) g).conns p.conn = none →
      (is.foldl (step E) g).sent p.conn = p.head ++ streamBody p.sse (written ws)) ∧
    (p.flag = .sse → streamBody p.sse (written ws) =
      (ws.filter fun w => w.length ≤ ntcStreamWriteMax).flatten) ∧
    (p.flag = .chunked → dechunk (streamBody p.sse (written ws)).length
      (streamBody p.sse (written ws)) =
        some (ws.filter fun w => w.length ≤ ntcStreamWriteMax).flatten) := by
  have hinv := ReachableBy.inv E hg
  have hid : p.rid < 2 ^ 32 := hstart.id ▸ reqId_lt hinv hstart.conn hstart.inflight
  obtain ⟨payload, hlen, hdec, hbytes⟩ := streamHandler_out hid hstart.handler
  obtain ⟨b, cs, e, hframes, hscript, hout⟩ := streamMsgs_script hid hlen hdec ws
  have hms : ((ms.drop p.skip).filter (·.requestId == p.rid)).map WireMsg.frame =
      b :: (cs ++ [e]) := by
    rw [WireMsg.flatMap_bytes_injective hbytes, hframes]
  have hreading : p.Reading ms g :=
    ⟨hinv, ReachableBy.liveRead E hg p.ctrl, hstart.live, hstart.received, hstart.skip.le⟩
  obtain ⟨hreading', hnow⟩ := run_stream E hscript hms hreading hstart.streamAt hrun
  have hdue : p.due (is.foldl (step E) g).toFlight <+: p.head ++ streamBody p.sse (written ws) := by
    obtain ⟨r, hr⟩ := hreading'.arrived_le hms
    rw [← hout, ← hr, List.flatMap_append]
    exact List.prefix_append _ _
  refine ⟨?_, fun hquiet hclosed => ?_, fun hflag => ?_, fun hflag => ?_⟩
  · cases hnow with
    | live c conn id tls bounds phase eq => exact (eq ▸ List.prefix_append _ _).trans hdue
    | complete gone all eq => exact eq ▸ hdue
    | broken gone part => exact part.trans hdue
  · cases hnow with
    | live c conn =>
        rw [conn] at hclosed
        cases hclosed
    | complete gone all eq => rw [eq, due, all, hout]
    | broken gone part because => exact absurd hquiet because
  · have hsse : p.sse = true := by rw [sse, hflag]; rfl
    have hraw : chunkBytes true = id := rfl
    rw [hsse, streamBody, ← flatten_written, hraw, List.flatMap_id]
    exact List.append_nil _
  · have hsse : p.sse = false := by rw [sse, hflag]; rfl
    rw [hsse, ← flatten_written]
    refine dechunk_streamBody (written ws) (fun w hw => ?_) _ le_rfl
    exact (of_decide_eq_true (List.mem_filter.mp hw).2).1

end StreamPlan

/-! ### A chunked response -/

/-- Sockets that take up to a hundred bytes at a time. -/
def slowExt : Ext := .ofAnswers fun _ => { quietAnswer with sends := [.more 99] }

/-- The greeter streams its answer to the request in flight. -/
def helloStream : StreamPlan where
  conn := 0
  ctrl := 0
  skip := 0
  rid := 4095
  status := 200
  flag := .chunked
  ctype := lit "text/plain"
  extra := []
  head := lit "HTTP/1.1 200 OK\r\nServer: naitron-c/0.0.1\r\nContent-Type: text/plain\r\n"
    ++ lit "Transfer-Encoding: chunked\r\nConnection: close\r\n\r\n"
  formats := by decide +kernel

def helloWrites : List Bytes := [lit "hello", [], lit "world"]

theorem length_helloBegin_le :
    (putU16 200 ++ [2] ++ slice16Bytes (lit "text/plain")).length ≤ 1024 := by decide

def helloFrames : List WireMsg :=
  streamMsgs 4095 helloId_lt (putU16 200 ++ [2] ++ slice16Bytes (lit "text/plain"))
    length_helloBegin_le helloWrites

/-- The frames arrive in two pieces, cut in the begin frame. -/
def helloPart (n : Bool) : Bytes :=
  if n then (helloFrames.flatMap WireMsg.bytes).drop 20
  else (helloFrames.flatMap WireMsg.bytes).take 20

def helloRead (n : Bool) : Input :=
  .event (.ctrl 0 true false { recvs := recvOf (helloPart n) })

/-- The states of the run. -/
def helloCut : Gateway := step slowExt (helloInFlight slowExt) (helloRead false)

def helloStreamed : Gateway := step slowExt helloCut (helloRead true)

theorem slowExt_calls (n m : Nat) : ¬ CallFailed slowExt n m := by
  rintro ⟨i, -, -, hok | herr⟩
  · cases hok
  · simp [slowExt, Ext.ofAnswers] at herr

/-- What a state has to look like for the stream to start there. -/
theorem helloStream_starts {g : Gateway} {c : Conn} (hc : g.conns 0 = some c)
    (hstate : c.state = .csWait) (hid : c.reqId = 4095) (hin : c.inflight = true)
    (htls : c.tls = false) (hextra : c.extraHeaders.bytes = [])
    (hidle : c.streaming = false ∧ c.streamEnded = false)
    (hempty : c.swbuf = [] ∧ c.swsent = 0 ∧ c.wbuf = [] ∧ c.wsent = 0) (hsent : g.sent 0 = [])
    (hlive : (g.ctrls 0).isSome) (hskip : 0 = (g.delivered 0).length) (hrec : g.received 0 = []) :
    helloStream.Starts helloWrites helloFrames c g where
  conn := hc
  id := hid
  state := hstate
  inflight := hin
  tls := htls
  extra := hextra
  idle := hidle
  empty := hempty
  sent := hsent
  live := hlive
  skip := hskip
  received := hrec ▸ List.nil_prefix
  handler := by decide +kernel

theorem helloInFlight_starts :
    ∃ c, helloStream.Starts helloWrites helloFrames c (helloInFlight slowExt) := by
  have hstate : ((helloInFlight slowExt).conns 0).map (·.state) = some .csWait := by decide +kernel
  have hfields : ((helloInFlight slowExt).conns 0).map (fun c => (c.reqId, c.inflight, c.tls,
      c.extraHeaders.bytes, c.streaming, c.streamEnded)) =
        some (4095, true, false, [], false, false) := by
    decide +kernel
  have hbufs : ((helloInFlight slowExt).conns 0).map (fun c => (c.swbuf, c.swsent, c.wbuf,
      c.wsent)) = some ([], 0, [], 0) := by
    decide +kernel
  have hsent : (helloInFlight slowExt).sent 0 = [] := by decide +kernel
  have hlive : ((helloInFlight slowExt).ctrls 0).isSome := by decide +kernel
  have hskip : 0 = ((helloInFlight slowExt).delivered 0).length := by decide +kernel
  have hrec : (helloInFlight slowExt).received 0 = [] := by decide +kernel
  generalize helloInFlight slowExt = g at *
  obtain ⟨c, hc, hstate⟩ := Option.map_eq_some_iff.mp hstate
  rw [hc, Option.map_some, Option.some.injEq] at hfields hbufs
  simp only [Prod.mk.injEq] at hfields hbufs
  obtain ⟨hid, hin, htls, hextra, hidle⟩ := hfields
  exact ⟨c, helloStream_starts hc hstate hid hin htls hextra hidle hbufs hsent hlive hskip hrec⟩

/-- A reading step of the run. -/
theorem helloRead_step {g : Gateway} {n : Bool} {len : Nat}
    (hlen : (g.ctrls 0).map (·.rbuf.length) = some len)
    (hends : recvEnds (recvOf (helloPart n)) = false)
    (hroom : len + (recvBytes (recvOf (helloPart n))).length ≤ ntcCtrlMaxRbuf)
    (hbytes : g.received 0 ++ recvBytes (recvOf (helloPart n)) <+:
      helloFrames.flatMap WireMsg.bytes) :
    helloStream.StreamStep slowExt helloFrames g (helloRead n) := by
  obtain ⟨t, ht, hbuf⟩ := Option.map_eq_some_iff.mp hlen
  refine .ctrl t true false _ ht ⟨fun _ => ⟨hends, hbuf ▸ hroom⟩, fun hw => by cases hw⟩ hbytes

/-- A step after which the connection is open did not close it early. -/
theorem hello_open {g : Gateway} {i : Input} (h : ((step slowExt g i).conns 0).isSome) :
    ¬ helloStream.ClosedEarly slowExt g i := by
  rintro ⟨-, hgone, -⟩
  rw [show (step slowExt g i).conns 0 = none from hgone] at h
  cases h

/-- The last step closes the connection for no other reason than the end. -/
theorem helloRead_closes {g : Gateway} {n : Bool}
    (hroom : (helloStream.due (step slowExt g (helloRead n)).toFlight).length ≤ ntcStreamMaxBuf) :
    ¬ helloStream.ClosedEarly slowExt g (helloRead n) := by
  rintro ⟨-, -, (hfail | hover) | hup⟩
  · exact slowExt_calls _ _ hfail
  · exact absurd hover (not_lt.mpr (hroom.trans (Nat.le_add_right _ _)))
  · exact hup

/-- The run of two steps, from a state in which the stream may start. -/
theorem helloStream_run {g₀ g₁ g₂ : Gateway} (h₁ : step slowExt g₀ (helloRead false) = g₁)
    (h₂ : step slowExt g₁ (helloRead true) = g₂)
    (hcut : helloStream.StreamStep slowExt helloFrames g₀ (helloRead false))
    (hrest : helloStream.StreamStep slowExt helloFrames g₁ (helloRead true))
    (hopen : (g₁.conns 0).isSome)
    (hroom : (helloStream.due g₂.toFlight).length ≤ ntcStreamMaxBuf) :
    Lib.Along (step slowExt) (helloStream.StreamStep slowExt helloFrames) g₀
        [helloRead false, helloRead true] ∧
      Lib.Along (step slowExt) (fun g i => ¬ helloStream.ClosedEarly slowExt g i) g₀
        [helloRead false, helloRead true] := by
  subst h₁ h₂
  exact ⟨⟨hcut, hrest, trivial⟩, ⟨hello_open hopen, helloRead_closes hroom, trivial⟩⟩

theorem streaming_is_faithful_hello :
    ([helloRead false, helloRead true].foldl (step slowExt) (helloInFlight slowExt)).sent 0 =
      helloStream.head ++ lit "5\r\nhello\r\n5\r\nworld\r\n0\r\n\r\n" := by
  obtain ⟨c, hstart⟩ := helloInFlight_starts
  have hreach := helloInFlight_reachable slowExt (P := fun _ _ => True) trivial trivial
  have hlen : ((helloInFlight slowExt).ctrls 0).map (·.rbuf.length) = some 0 := by decide +kernel
  have hlen' : (helloCut.ctrls 0).map (·.rbuf.length) = some 20 := by decide +kernel
  have hbytes : (helloInFlight slowExt).received 0 ++ recvBytes (recvOf (helloPart false)) <+:
      helloFrames.flatMap WireMsg.bytes := by decide +kernel
  have hbytes' : helloCut.received 0 ++ recvBytes (recvOf (helloPart true)) <+:
      helloFrames.flatMap WireMsg.bytes := by decide +kernel
  have hcut := helloRead_step hlen (by decide +kernel) (by decide +kernel) hbytes
  have hrest := helloRead_step hlen' (by decide +kernel) (by decide +kernel) hbytes'
  have hopen : (helloCut.conns 0).isSome := by decide +kernel
  have hroom : (helloStream.due helloStreamed.toFlight).length ≤ ntcStreamMaxBuf := by
    decide +kernel
  have hclosed : (helloStreamed.conns 0).isNone := by decide +kernel
  have hbody : streamBody helloStream.sse (written helloWrites) =
      lit "5\r\nhello\r\n5\r\nworld\r\n0\r\n\r\n" := by decide +kernel
  have h₁ : step slowExt (helloInFlight slowExt) (helloRead false) = helloCut := by rw [helloCut]
  have h₂ : step slowExt helloCut (helloRead true) = helloStreamed := by rw [helloStreamed]
  -- from here on only what was said of the states counts
  generalize helloInFlight slowExt = g₀ at *
  generalize helloCut = g₁ at *
  generalize helloStreamed = g₂ at *
  obtain ⟨hrun, hquiet⟩ := helloStream_run h₁ h₂ hcut hrest hopen hroom
  obtain ⟨-, hwhole, -⟩ := StreamPlan.streaming_is_faithful slowExt hreach hstart hrun
  have hend : [helloRead false, helloRead true].foldl (step slowExt) g₀ = g₂ := by
    rw [List.foldl_cons, List.foldl_cons, List.foldl_nil, h₁, h₂]
  rw [← hbody]
  exact hwhole hquiet (hend ▸ Option.isNone_iff_eq_none.mp hclosed)

end Naitron
