/-
  Naitron.Server.HttpsExchange

  A call of the HTTPS client to another gateway, which serves it on a TLS
  connection as Naitron.Server.Loop runs it: the request comes in pieces, and
  the response leaves as the engine takes it.
-/

import Naitron.Server.DeliverFlow
import Naitron.Server.HttpsCall
import Naitron.Server.Restart

namespace Naitron

variable {url method : Bytes} {u : HttpsUrl} {e : Option HttpsEntity}

-- ============================================================================
-- The gateway reads
-- ============================================================================

variable {E : Ext} {g g' : Gateway} {k : ConnId} {c : Conn} {i : TlsInput}

/-- An event of a TLS connection, which does not look at the readiness bits. -/
def tlsEvent (k : ConnId) (i : TlsInput) : Input := .event (.client k true true { tls := i })

/-- The end of `on_tls_event`. -/
def rearmed (E : Ext) (k : ConnId) (r : Rc × Gateway) : Gateway :=
  match r with
  | (.neg, g) => g
  | (.zero, g) => (tlsSetInterest E g k).2

/-- What else the gateway does between two events of a connection: nothing to
    the connection. -/
structure Aside (k : ConnId) (g g' : Gateway) : Prop extends Meanwhile k g g' where
  sent : g'.sent k = g.sent k

/-- Events of a TLS connection, with whatever leaves the connection alone in
    between. -/
inductive TlsRun (E : Ext) (k : ConnId) : Gateway → List TlsInput → Gateway → Prop
  | done {g g' : Gateway} (before : Aside k g g') : TlsRun E k g [] g'
  | event {g g₁ g' : Gateway} {i : TlsInput} {is : List TlsInput} (before : Aside k g g₁)
      (rest : TlsRun E k (step E g₁ (tlsEvent k i)) is g') : TlsRun E k g (i :: is) g'

/-- The decrypted bytes of some events. -/
def plainBytes (is : List TlsInput) : Bytes := is.flatMap fun i => i.plain.flatten

/-- An event that brings bytes at most, on a connection that stays. -/
structure TlsInput.Brings (i : TlsInput) : Prop where
  pump : i.pumpOk = true
  pieces : ∀ d ∈ i.plain, d ≠ []
  stays : i.closed = false

theorem tlsRecv_brings :
    ∀ (ds : List Bytes) (buf : Bytes), (∀ d ∈ ds, d ≠ []) →
      (buf ++ ds.flatten).length ≤ ntcConnRbuf → tlsRecv ds buf = buf ++ ds.flatten := by
  intro ds
  induction ds with
  | nil => exact fun buf _ _ => (List.append_nil buf).symm
  | cons d ds ih =>
      intro buf hne hlen
      have hpos := List.length_pos_of_ne_nil (hne d List.mem_cons_self)
      rw [List.flatten_cons, ← List.append_assoc] at hlen ⊢
      have hroom : buf.length + d.length ≤ ntcConnRbuf := by
        rw [List.length_append, List.length_append] at hlen
        omega
      rw [tlsRecv, if_neg, List.take_of_length_le (by omega)]
      · exact ih (buf ++ d) (fun x hx => hne x (List.mem_cons_of_mem d hx)) hlen
      · rintro (hfull | hnil)
        · omega
        · exact hne d List.mem_cons_self hnil

theorem step_tlsEvent (hc : g.conns k = some c) (htls : c.tls = true) (hpump : i.pumpOk = true) :
    step E g (tlsEvent k i) = rearmed E k (tlsDrive E g k c i) := by
  show onClientEvent E g k true true { tls := i } = _
  rw [onClientEvent, hc]
  dsimp only
  rw [if_pos htls, onTlsEvent, hc]
  dsimp only
  rw [hpump, Bool.not_true, if_neg Bool.false_ne_true]
  rfl

theorem step_tlsEvent_gone (hc : g.conns k = none) : step E g (tlsEvent k i) = g := by
  show onClientEvent E g k true true { tls := i } = g
  rw [onClientEvent, hc]

/-- A connection that is gone stays so. -/
theorem TlsRun.gone {is : List TlsInput} (h : TlsRun E k g is g') (hc : g.conns k = none) :
    g'.conns k = none := by
  induction h with
  | done before => rw [before.conn, hc]
  | @event g g₁ g' i is before rest ih =>
      have hc₁ : g₁.conns k = none := before.conn.trans hc
      exact ih (by rw [step_tlsEvent_gone hc₁, hc₁])

/-- What re-arming leaves: everything, or the connection is closed. -/
theorem tlsSetInterest_leaves (g : Gateway) (k : ConnId) :
    (tlsSetInterest E g k).2.conns k = none ∨
      ((tlsSetInterest E g k).2.conns k = g.conns k ∧
        (tlsSetInterest E g k).2.maxBody = g.maxBody ∧
        (tlsSetInterest E g k).2.sent = g.sent) := by
  unfold tlsSetInterest
  dsimp only
  split
  · exact Or.inr ⟨rfl, rfl, rfl⟩
  · exact Or.inl (connClose_gone E _ k)

theorem tlsDrive_reads (hstate : c.state = .csRead) :
    tlsDrive E g k c i = tlsDriveRead E g k c i := by
  rw [tlsDrive, hstate]

/-- While the request is not complete an event adds to the buffer, or the poller
    fails and the connection is closed. -/
theorem tlsEvent_waits (hc : g.conns k = some c) (htls : c.tls = true) (hstate : c.state = .csRead)
    (hi : i.Brings) (hroom : (c.rbuf ++ i.plain.flatten).length ≤ ntcConnRbuf)
    (hwait : frameRequest g.maxBody (c.rbuf ++ i.plain.flatten) false = .wait) :
    (step E g (tlsEvent k i)).conns k = none ∨
      ((step E g (tlsEvent k i)).conns k = some { c with rbuf := c.rbuf ++ i.plain.flatten } ∧
        (step E g (tlsEvent k i)).maxBody = g.maxBody ∧
        (step E g (tlsEvent k i)).sent k = g.sent k) := by
  have hrecv := tlsRecv_brings i.plain c.rbuf hi.pieces hroom
  rw [step_tlsEvent hc htls hi.pump, tlsDrive_reads hstate, tlsDriveRead, hrecv]
  split
  · -- nothing has come
    rename_i hsame
    rw [hsame.1]
    obtain hgone | ⟨hconn, hmax, hsent⟩ := @tlsSetInterest_leaves E g k
    · exact Or.inl hgone
    · exact Or.inr ⟨hconn.trans hc, hmax, congrFun hsent k⟩
  · have hc' : (g.modConn k fun c' => { c' with rbuf := c.rbuf ++ i.plain.flatten }).conns k =
        some { c with rbuf := c.rbuf ++ i.plain.flatten } := modConn_conn hc _
    rw [hi.stays, processRequest_eq E hc', modConn_maxBody, hwait]
    obtain hgone | ⟨hconn, hmax, hsent⟩ := @tlsSetInterest_leaves E
      (g.modConn k fun c' => { c' with rbuf := c.rbuf ++ i.plain.flatten }) k
    · exact Or.inl hgone
    · refine Or.inr ⟨hconn.trans hc', hmax.trans (modConn_maxBody g k _), ?_⟩
      exact (congrFun hsent k).trans (congrFun (modConn_sent g k _) k)

/-- The event that completes a request has it handled. -/
theorem tlsEvent_ready (hc : g.conns k = some c) (htls : c.tls = true) (hstate : c.state = .csRead)
    (hi : i.Brings) (hroom : (c.rbuf ++ i.plain.flatten).length ≤ ntcConnRbuf) {req : NtcRequest}
    (hsome : i.plain.flatten ≠ [])
    (hready : frameRequest g.maxBody (c.rbuf ++ i.plain.flatten) false = .ready req) :
    step E g (tlsEvent k i) = rearmed E k
      (carryOut E (g.modConn k fun c' => { c' with rbuf := c.rbuf ++ i.plain.flatten }) k
        { c with rbuf := c.rbuf ++ i.plain.flatten } (.ready req)) := by
  have hrecv := tlsRecv_brings i.plain c.rbuf hi.pieces hroom
  have hc' : (g.modConn k fun c' => { c' with rbuf := c.rbuf ++ i.plain.flatten }).conns k =
      some { c with rbuf := c.rbuf ++ i.plain.flatten } := modConn_conn hc _
  rw [step_tlsEvent hc htls hi.pump, tlsDrive_reads hstate, tlsDriveRead, hrecv]
  rw [if_neg fun hsame => hsome (List.append_right_eq_self.mp hsame.1), hi.stays,
    processRequest_eq E hc', modConn_maxBody, hready]

/-- Before the request is complete a run changes nothing of the connection but
    its buffer. -/
theorem TlsRun.collects {is : List TlsInput} (h : TlsRun E k g is g') :
    ∀ {c : Conn}, g.conns k = some c → c.tls = true → c.state = .csRead →
      (∀ i ∈ is, i.Brings) → (c.rbuf ++ plainBytes is).length ≤ ntcConnRbuf →
      (∀ s, s <+: c.rbuf ++ plainBytes is → frameRequest g.maxBody s false = .wait) →
      (g'.conns k).isSome →
      g'.conns k = some { c with rbuf := c.rbuf ++ plainBytes is } ∧ g'.maxBody = g.maxBody ∧
        g'.sent k = g.sent k := by
  induction h with
  | done before =>
      intro c hc _ _ _ _ _ _
      rw [plainBytes, List.flatMap_nil, List.append_nil]
      exact ⟨before.conn.trans hc, before.maxBody, before.sent⟩
  | @event g g₁ g' i is before rest ih =>
      intro c hc htls hstate hbrings hlen hwait hthere
      have hbytes : c.rbuf ++ plainBytes (i :: is) =
          c.rbuf ++ i.plain.flatten ++ plainBytes is := by
        rw [plainBytes, List.flatMap_cons, List.append_assoc]
        rfl
      rw [hbytes] at hlen hwait ⊢
      have hc₁ : g₁.conns k = some c := before.conn.trans hc
      have hroom : (c.rbuf ++ i.plain.flatten).length ≤ ntcConnRbuf := by
        rw [List.length_append] at hlen
        omega
      have hnow : frameRequest g₁.maxBody (c.rbuf ++ i.plain.flatten) false = .wait := by
        rw [before.maxBody]
        exact hwait _ (List.prefix_append _ _)
      obtain hgone | ⟨hconn, hmax, hsent⟩ := @tlsEvent_waits E g₁ k c i hc₁ htls hstate
        (hbrings i List.mem_cons_self) hroom hnow
      · rw [rest.gone hgone] at hthere
        cases hthere
      · have hmax' := hmax.trans before.maxBody
        obtain ⟨hconn', hmaxBody, hsent'⟩ := ih hconn htls hstate
          (fun j hj => hbrings j (List.mem_cons_of_mem i hj)) hlen
          (fun s hs => by rw [hmax']; exact hwait s hs) hthere
        exact ⟨hconn', hmaxBody.trans hmax', hsent'.trans (hsent.trans before.sent)⟩

-- ============================================================================
-- The gateway writes
-- ============================================================================

/-- A TLS connection on which `all` has been written or is going to be, and one
    that is gone with a part of it written. -/
def Leaving (k : ConnId) (all : Bytes) (g : Gateway) : Prop :=
  (∃ c, g.conns k = some c ∧ c.tls = true ∧ c.state = .csWrite ∧ c.InBounds ∧
      g.sent k ++ c.pending = all) ∨
    (g.conns k = none ∧ g.sent k <+: all)

theorem Leaving.part {all : Bytes} (h : Leaving k all g) : g.sent k <+: all := by
  obtain ⟨c, -, -, -, -, rfl⟩ | ⟨-, hpart⟩ := h
  · exact List.prefix_append _ _
  · exact hpart

theorem Leaving.of_flow {all : Bytes} {n : Nat} {r : Rc × Gateway} (h : Flow E k c all n r)
    (htls : c.tls = true) (hstate : c.state = .csWrite) : Leaving k all r.2 := by
  cases h with
  | live c' rc conn drains bounds tick eq =>
      obtain ⟨-, -, htls', -, -, -, -, hstate', -⟩ := drains.fields
      exact Or.inl ⟨c', conn, htls'.trans htls, hstate'.trans hstate, bounds, eq⟩
  | done rc gone ended tick eq => exact Or.inr ⟨gone, eq ▸ List.prefix_refl _⟩
  | failed rc gone tick part why => exact Or.inr ⟨gone, part⟩

/-- Re-arming loses nothing that was to be written. -/
theorem Leaving.rearmed_of_flow {all : Bytes} {n : Nat} {r : Rc × Gateway}
    (h : Flow E k c all n r) (htls : c.tls = true) (hstate : c.state = .csWrite) :
    Leaving k all (rearmed E k r) := by
  obtain ⟨rc, g'⟩ := r
  cases rc with
  | neg => exact .of_flow h htls hstate
  | zero => exact .of_flow (tlsSetInterest_flow E htls h) htls hstate

theorem Leaving.step {all : Bytes} (h : Leaving k all g) (i : TlsInput) :
    Leaving k all (step E g (tlsEvent k i)) := by
  have hwritten := h.part
  obtain ⟨c, hc, htls, hstate, hbounds, hall⟩ | ⟨hgone, -⟩ := h
  · cases hpump : i.pumpOk with
    | true =>
        have hflow := tlsDriveWrite_flow E hc hbounds htls
        rw [hall] at hflow
        rw [step_tlsEvent hc htls hpump, tlsDrive, hstate]
        exact .rearmed_of_flow hflow htls hstate
    | false =>
        have hclose : Naitron.step E g (tlsEvent k i) = connClose E g k := by
          show onClientEvent E g k true true { tls := i } = _
          rw [onClientEvent, hc]
          dsimp only
          rw [if_pos htls, onTlsEvent, hc]
          dsimp only
          rw [hpump, Bool.not_false, if_pos rfl]
        refine Or.inr ?_
        rw [hclose, connClose_sent]
        exact ⟨connClose_gone E g k, hwritten⟩
  · rw [step_tlsEvent_gone hgone]
    exact Or.inr ⟨hgone, hwritten⟩

/-- Whatever happens, what is written on the connection is a part of what it
    has to write. -/
theorem Leaving.run {all : Bytes} {is : List TlsInput} (h : TlsRun E k g is g') :
    Leaving k all g → Leaving k all g' := by
  have haside : ∀ {g g' : Gateway}, Aside k g g' → Leaving k all g → Leaving k all g' := by
    rintro g g' ha (⟨c, hc, htls, hstate, hbounds, hall⟩ | ⟨hgone, hpart⟩)
    · exact Or.inl ⟨c, ha.conn.trans hc, htls, hstate, hbounds, by rw [ha.sent, hall]⟩
    · exact Or.inr ⟨ha.conn.trans hgone, ha.sent ▸ hpart⟩
  induction h with
  | done before => exact haside before
  | event before rest ih => exact fun hl => ih ((haside before hl).step _)

/-- A connection with a response to write. -/
def Conn.answered (c : Conn) (extra : CStr 512) (resp : Bytes) : Conn :=
  { c with extraHeaders := extra, wbuf := resp, wsent := 0, state := .csWrite }

/-- A TLS connection that waits for an answer: nothing is written yet, and the
    answer gets these lines and no gzip. -/
structure AwaitsAnswer (g : Gateway) (k : ConnId) (c : Conn) (hs : List Bytes) : Prop where
  conn : g.conns k = some c
  tls : c.tls = true
  atomic : c.streaming = false
  plain : c.acceptGzip = false
  bounds : c.InBounds
  lines : c.extraHeaders.bytes = unlines hs
  sent : g.sent k = []

/-- `send_resp` has the connection write the response, or closes it. -/
theorem sendResp_leaving {hs : List Bytes} (h : AwaitsAnswer g k c hs) {status : Nat}
    {ctype body resp : Bytes}
    (hresp : ntcHttpFormatResponseEx status ctype (unlines hs) body = some resp) :
    Leaving k resp (rearmed E k (sendResp E g k status ctype body)) := by
  have hgone : ∀ {g' : Gateway}, g'.sent = g.sent →
      Leaving k resp (rearmed E k (.neg, connClose E g' k)) := by
    intro g' hsent
    refine Or.inr ⟨connClose_gone E g' k, ?_⟩
    show (connClose E g' k).sent k <+: resp
    rw [connClose_sent, hsent, h.sent]
    exact List.nil_prefix
  have hplain : ∀ ok, gzipBody E c ok ctype body = (body, c.extraHeaders) := by
    intro ok
    rw [gzipBody, h.plain]
    rfl
  unfold sendResp connRespond
  dsimp only
  rw [show ((g.ask E).2.ask E).2.conns k = some c from h.conn]
  dsimp only
  rw [hplain]
  dsimp only
  rw [h.lines, hresp]
  dsimp only
  have hconn := modConn_conn (g := ((g.ask E).2.ask E).2) h.conn fun d =>
    { d with extraHeaders := c.extraHeaders }
  have hsent : (((g.ask E).2.ask E).2.modConn k fun d =>
      { d with extraHeaders := c.extraHeaders }).sent = g.sent := modConn_sent _ _ _
  generalize ((g.ask E).2.ask E).2.modConn k (fun d => { d with extraHeaders := c.extraHeaders }) =
    g₁ at hconn hsent ⊢
  by_cases hok : ((g.ask E).2.ask E).1.ok = true
  · rw [if_pos hok]
    dsimp only
    have hconn' : ((g₁.modConn k fun d =>
        { d with wbuf := resp, wsent := 0, state := .csWrite }).noteReply k).conns k =
          some (c.answered c.extraHeaders resp) := modConn_conn hconn _
    have hflow := connFlush_flow E hconn' ⟨h.bounds.stream, Nat.zero_le _⟩
    have hpend : (c.answered c.extraHeaders resp).pending = resp := by
      rw [Conn.pending, show (c.answered c.extraHeaders resp).streaming = false from h.atomic]
      rfl
    rw [noteReply_sent, modConn_sent, hsent, h.sent, hpend] at hflow
    exact .rearmed_of_flow hflow h.tls rfl
  · rw [if_neg hok]
    exact hgone hsent

-- ============================================================================
-- The two together
-- ============================================================================

/-- The head of the answer. -/
def answerHead (ctype : Bytes) (hs : List Bytes) (body : Bytes) : Bytes :=
  responseHead 200 ctype (unlines hs) body.length

/-- An answer that the client can read: the head is well formed and fits the
    buffer it is printed into, it does not have the word `chunked` in it, and
    the whole fits the buffer of the client. -/
structure AnswerOk (ctype : Bytes) (hs : List Bytes) (body : Bytes) : Prop where
  type : chCr ∉ ctype ∧ 0 ∉ ctype
  lines : ∀ l ∈ hs, NoCrlf l ∧ l ≠ []
  head : (answerHead ctype hs body).length < httpHeadCap
  word : mentionsChunked (answerHead ctype hs body) = false
  room : (answerHead ctype hs body).length + body.length < httpsRespCap

variable {ctype body : Bytes} {hs : List Bytes} {is : List TlsInput}

/-- What is written of an answer is a part of it. -/
theorem answer_part (h : AwaitsAnswer g k c hs) (hok : AnswerOk ctype hs body)
    (hrun : TlsRun E k (rearmed E k (sendResp E g k 200 ctype body)) is g') :
    g'.sent k <+: answerHead ctype hs body ++ body := by
  have hresp : ntcHttpFormatResponseEx 200 ctype (unlines hs) body =
      some (answerHead ctype hs body ++ body) := by
    rw [ntcHttpFormatResponseEx]
    exact if_neg (not_le.mpr hok.head)
  exact (Leaving.run hrun (sendResp_leaving h hresp)).part

/-- The pieces of a request, however it is cut, come to the request that was
    meant. -/
theorem request_arrives (h : HttpsCallOk method url u e) (hc : g.conns k = some c)
    (htls : c.tls = true) (hstate : c.state = .csRead) (hempty : c.rbuf = [])
    (hmax : g.maxBody = 0 ∨ (entityBody e).length ≤ g.maxBody) (hrun : TlsRun E k g is g')
    (hthere : (g'.conns k).isSome) (hbrings : ∀ j ∈ is ++ [i], j.Brings)
    (hbytes : plainBytes (is ++ [i]) = httpsBytes method u e) (hlast : i.plain.flatten ≠ []) :
    step E g' (tlsEvent k i) = rearmed E k
      (carryOut E (g'.modConn k fun c => { c with rbuf := httpsBytes method u e }) k
        { c with rbuf := httpsBytes method u e } (.ready (httpsRequest method u e))) := by
  have hsplit : plainBytes is ++ i.plain.flatten = httpsBytes method u e := by
    rw [← hbytes, plainBytes, plainBytes, List.flatMap_append, List.flatMap_singleton]
  have hroom : (plainBytes is ++ i.plain.flatten).length ≤ ntcConnRbuf := by
    rw [hsplit, httpsBytes, List.length_append]
    exact h.room
  have hwait : ∀ s, s <+: c.rbuf ++ plainBytes is → frameRequest g.maxBody s false = .wait := by
    intro s hs
    rw [hempty, List.nil_append] at hs
    refine frameRequest_part h hmax (hs.trans (hsplit ▸ List.prefix_append _ _)) ?_
    rintro rfl
    have hle := hs.length_le
    rw [← hsplit, List.length_append] at hle
    have hpos := List.length_pos_of_ne_nil hlast
    omega
  obtain ⟨hconn, hmaxBody, -⟩ := hrun.collects hc htls hstate
    (fun j hj => hbrings j (List.mem_append_left _ hj))
    (by rw [hempty, List.nil_append]; rw [List.length_append] at hroom; omega) hwait hthere
  rw [hempty, List.nil_append] at hconn
  have hready : frameRequest g'.maxBody (plainBytes is ++ i.plain.flatten) false =
      .ready (httpsRequest method u e) := by
    rw [hmaxBody, hsplit, httpsBytes, frameRequest_httpsHead h hmax le_rfl, if_neg (lt_irrefl _)]
    rfl
  rw [tlsEvent_ready (c := { c with rbuf := plainBytes is }) hconn htls hstate
    (hbrings i (List.mem_append_right _ (List.mem_singleton_self i))) hroom hlast hready]
  dsimp only
  rw [hsplit]

/-- What the client makes of a part of an answer: the head is in it, and what
    is behind the head comes out, or the call fails. -/
theorem httpsDo_part (h : HttpsCallOk method url u e) (hok : AnswerOk ctype hs body) {N : HttpsNet}
    (hworks : N.Works u (httpsBytes method u e)) (beyond : Bytes) {cap : Nat}
    (hcap : body.length < cap)
    (hpart : N.received (httpsBytes method u e) <+: answerHead ctype hs body ++ body) :
    (∃ out, out <+: body ∧
      N.received (httpsBytes method u e) = answerHead ctype hs body ++ out ∧
      httpsDo N beyond method (some url) e cap = .returned out) ∨
    ((N.received (httpsBytes method u e)).length < (answerHead ctype hs body).length ∧
      ∃ err, httpsDo N beyond method (some url) e cap = .failed err) := by
  have hhead : answerHead ctype hs body = (answerTop ctype hs body.length).bytes :=
    gatewayHead_eq hok.type.2 hs body.length
  have htop := answerTop_ok hok.type.1 hok.lines body.length
  have htake : (N.received (httpsBytes method u e)).take (httpsRespCap - 1) =
      N.received (httpsBytes method u e) := by
    have hlen := hpart.length_le
    have hroom := hok.room
    rw [List.length_append] at hlen
    exact List.take_of_length_le (by omega)
  have hget : N.received (httpsBytes method u e) ≠ [] →
      httpsDo N beyond method (some url) e cap =
        extractBody beyond (N.received (httpsBytes method u e)) cap := by
    intro hne
    rw [httpsDo_works beyond (Nat.zero_lt_of_lt hcap) h.parsed h.fits hworks, htake, if_pos hne]
  rcases Nat.lt_or_ge (N.received (httpsBytes method u e)).length
    (answerHead ctype hs body).length with hshort | hlong
  · refine Or.inr ⟨hshort, ?_⟩
    by_cases hnil : N.received (httpsBytes method u e) = []
    · rw [httpsDo_works beyond (Nat.zero_lt_of_lt hcap) h.parsed h.fits hworks, htake,
        if_neg (not_not_intro hnil)]
      split_ifs
      · exact ⟨_, rfl⟩
      · exact ⟨_, rfl⟩
    · have hprefix := List.prefix_of_prefix_length_le hpart (List.prefix_append _ _) hshort.le
      obtain ⟨err, herr⟩ := htop.extractBody_in_head beyond cap (hhead ▸ hshort)
      refine ⟨err, ?_⟩
      rw [hget hnil, List.prefix_iff_eq_take.mp hprefix, hhead, herr]
  · obtain ⟨out, hout⟩ : answerHead ctype hs body <+: N.received (httpsBytes method u e) :=
      List.prefix_of_prefix_length_le (List.prefix_append _ _) hpart hlong
    rw [← hout] at hpart
    have hpart' := (List.prefix_append_right_inj _).mp hpart
    refine Or.inl ⟨out, hpart', hout.symm, ?_⟩
    have hle := hpart'.length_le
    have hne : N.received (httpsBytes method u e) ≠ [] := by
      rw [← hout, hhead, OkHead.bytes]
      exact List.append_ne_nil_of_left_ne_nil
        (List.append_ne_nil_of_right_ne_nil _ (List.cons_ne_nil _ _)) _
    rw [hget hne, ← hout, hhead, htop.extractBody_behind_head, ← hhead, hok.word, Bool.not_false,
      if_pos rfl, if_neg (by omega)]

/-- A call of one gateway's client to another gateway.  The request arrives as
    it was meant, however it is cut; and when it is answered, the caller gets
    the body of the answer, or what there is of it when the connection ends
    early, or an error. -/
theorem httpsDo_gateway (h : HttpsCallOk method url u e) :
    (∀ {E : Ext} {g g' : Gateway} {k : ConnId} {c : Conn} {is : List TlsInput} {i : TlsInput},
      g.conns k = some c → c.tls = true → c.state = .csRead → c.rbuf = [] →
      g.maxBody = 0 ∨ (entityBody e).length ≤ g.maxBody → TlsRun E k g is g' →
      (g'.conns k).isSome → (∀ j ∈ is ++ [i], j.Brings) →
      plainBytes (is ++ [i]) = httpsBytes method u e → i.plain.flatten ≠ [] →
      step E g' (tlsEvent k i) = rearmed E k
        (carryOut E (g'.modConn k fun c => { c with rbuf := httpsBytes method u e }) k
          { c with rbuf := httpsBytes method u e } (.ready (httpsRequest method u e)))) ∧
    ∀ {E : Ext} {g g' : Gateway} {k : ConnId} {c : Conn} {ctype body : Bytes} {hs : List Bytes}
        {is : List TlsInput} {N : HttpsNet} {cap : Nat} (beyond : Bytes),
      AwaitsAnswer g k c hs → AnswerOk ctype hs body →
      TlsRun E k (rearmed E k (sendResp E g k 200 ctype body)) is g' →
      N.Works u (httpsBytes method u e) → N.received (httpsBytes method u e) <+: g'.sent k →
      body.length < cap →
      (∃ out, out <+: body ∧
        N.received (httpsBytes method u e) = answerHead ctype hs body ++ out ∧
        httpsDo N beyond method (some url) e cap = .returned out) ∨
      ((N.received (httpsBytes method u e)).length < (answerHead ctype hs body).length ∧
        ∃ err, httpsDo N beyond method (some url) e cap = .failed err) :=
  ⟨request_arrives h, fun beyond hawaits hok hrun hworks hreceived hcap =>
    httpsDo_part h hok hworks beyond hcap (hreceived.trans (answer_part hawaits hok hrun))⟩

-- ============================================================================
-- A call of a built-in route
-- ============================================================================

/-- Annotating a connection leaves the configuration alone. -/
theorem modConn_config (g : Gateway) (k : ConnId) (F : Conn → Conn) :
    (g.modConn k F).mw = g.mw ∧ (g.modConn k F).oauthEnabled = g.oauthEnabled ∧
      (g.modConn k F).router = g.router := by
  unfold Gateway.modConn
  split <;> exact ⟨rfl, rfl, rfl⟩

/-- Without middleware a built-in route answers at once. -/
theorem carryOut_builtin {req : NtcRequest} {rt : RouteT} {params : List NtcHeader}
    (hc : g.conns k = some c) (hadmin : c.isAdmin = false) (hmw : g.mw = none)
    (hoauth : g.oauthEnabled = false) (hown : ntcSliceStartsWith req.path (lit "/_ntc/") = false)
    (hmatch : ntcRouterMatch g.router req.method req.path = .found rt params)
    (hbuiltin : ∀ svc, rt.handler ≠ .forward svc) (hio : ∀ n, (E.io n).ok = true)
    (hbody : runBuiltin params true rt.handler = some body) :
    ∃ g₁, carryOut E g k c (.ready req) = sendResp E g₁ k 200 ctJson body ∧
      g₁.conns k = some { c with
        acceptGzip := sliceHas (ntcHttpHeader req (lit "accept-encoding")) (lit "gzip") } ∧
      g₁.sent = g.sent := by
  obtain ⟨hmw', hoauth', hrouter'⟩ := modConn_config g k fun c => { c with
    acceptGzip := sliceHas (ntcHttpHeader req (lit "accept-encoding")) (lit "gzip") }
  have hconn := modConn_conn hc fun c => { c with
    acceptGzip := sliceHas (ntcHttpHeader req (lit "accept-encoding")) (lit "gzip") }
  have hsent := modConn_sent g k fun c => { c with
    acceptGzip := sliceHas (ntcHttpHeader req (lit "accept-encoding")) (lit "gzip") }
  rw [carryOut, if_neg (by rw [hadmin]; exact Bool.false_ne_true)]
  generalize g.modConn k (fun c => { c with
    acceptGzip := sliceHas (ntcHttpHeader req (lit "accept-encoding")) (lit "gzip") }) = g₁
    at hmw' hoauth' hrouter' hconn hsent ⊢
  have hno : runMiddleware E g₁ k c req = (none, (g₁.ask E).2) := by
    rw [runMiddleware]
    dsimp only
    rw [show (g₁.ask E).2.mw = none from hmw'.trans hmw]
  refine ⟨((g₁.ask E).2.ask E).2, ?_, hconn, hsent⟩
  rw [hno]
  dsimp only
  rw [gwDispatch, show (g₁.ask E).2.oauthEnabled = false from hoauth'.trans hoauth, Bool.false_and,
    if_neg Bool.false_ne_true, hown, if_neg Bool.false_ne_true,
    show (g₁.ask E).2.router = g.router from hrouter', hmatch]
  dsimp only
  split
  · rename_i svc hforward
    exact absurd hforward (hbuiltin svc)
  · have hask : ((g₁.ask E).2.ask E).1.ok = true := hio _
    rw [hask, hbody]

/-- The client asks for no gzip. -/
theorem httpsRequest_plain :
    sliceHas (ntcHttpHeader (httpsRequest method u e) (lit "accept-encoding")) (lit "gzip") =
      false := by
  have hno : ∀ d ∈ (httpsRequest method u e).headers,
      ¬ islabelEq d.name (lit "accept-encoding") = true := by
    intro d hd
    rw [httpsRequest] at hd
    rcases List.mem_append.mp hd with hd | hd
    · simp only [List.mem_cons, List.not_mem_nil, or_false] at hd
      obtain rfl | rfl | rfl | rfl := hd
      · exact (by decide : ¬ islabelEq (lit "Host") (lit "accept-encoding") = true)
      · decide
      · decide
      · decide
    · cases e with
      | none => cases hd
      | some e =>
          simp only [Option.elim_some, List.mem_cons, List.not_mem_nil, or_false] at hd
          obtain rfl | rfl := hd
          · exact (by decide : ¬ islabelEq (lit "Content-Type") (lit "accept-encoding") = true)
          · exact (by decide : ¬ islabelEq (lit "Content-Length") (lit "accept-encoding") = true)
  rw [ntcHttpHeader, List.find?_eq_none.mpr hno]
  decide

/-- An engine that takes all that is written to it. -/
def takingExt : Ext := .ofAnswers fun _ =>
  { quietAnswer with rounds := [⟨[ntcStreamMaxBuf], true, false, false⟩] }

/-- A gateway with the built-in routes, and a TLS client on it. -/
def echoConnected : Gateway :=
  step takingExt (bootGateway [] builtinRouter (.empty 65))
    (.event (.listen false true [⟨.empty 46, true⟩]))

/-- It has read the first nine bytes, and a tick has passed. -/
def echoHalf (sent : Bytes) : Gateway :=
  step takingExt (step takingExt echoConnected (tlsEvent 0 ⟨true, [sent.take 9], false⟩)) .tick

/-- It has read the whole request. -/
def echoDone (sent : Bytes) : Gateway :=
  step takingExt (echoHalf sent) (tlsEvent 0 ⟨true, [sent.drop 9], false⟩)

/-- The network to it. -/
def echoNet : HttpsNet where
  anchors := 1
  connects _ _ := true
  calloc := true
  resets _ := true
  sends _ := true
  malloc := true
  received sent := (echoDone sent).sent 0
  lastError _ := 0

theorem echoNet_received (sent : Bytes) : echoNet.received sent = (echoDone sent).sent 0 := by
  rw [echoNet]

/-- The URL of the call, taken apart. -/
def echoUrl : HttpsUrl := ⟨lit "peer", lit "8443", lit "/api/echo/ann"⟩

theorem echoUrl_ok :
    HttpsCallOk (lit "GET") (lit "https://peer:8443/api/echo/ann") echoUrl none where
  token := by decide
  clean c hc := by
    have hall : ((lit "https://peer:8443/api/echo/ann").all fun c =>
        !isSpace c && c != 0) = true := by decide
    have hc := List.all_eq_true.mp hall c hc
    rw [Bool.and_eq_true, Bool.not_eq_true', bne_iff_ne] at hc
    exact hc
  ctype d hd := by cases hd
  parsed := by decide
  fits := by decide
  room := by decide

theorem echoAnswer_ok : AnswerOk ctJson [] (lit "\x7b\"echo\":\"ann\"\x7d") where
  type := by decide
  lines l hl := by cases hl
  head := by decide +kernel
  word := by decide +kernel
  room := by decide +kernel

/-- The gateway when nine bytes have come. -/
structure EchoReads (g : Gateway) : Prop where
  conn : g.conns 0 = some { tls := true, rbuf := (httpsBytes (lit "GET") echoUrl none).take 9 }
  mw : g.mw.isNone = true
  oauth : g.oauthEnabled = false
  route : (ntcRouterMatch g.router (lit "GET") (lit "/api/echo/ann") =
    .found ⟨lit "GET", lit "/api/echo/:name",
      [⟨lit "api", false⟩, ⟨lit "echo", false⟩, ⟨lit "name", true⟩], .echo, by decide⟩
      [⟨lit "name", lit "ann"⟩])
  sent : g.sent 0 = []

theorem echoHalf_reads : EchoReads (echoHalf (httpsBytes (lit "GET") echoUrl none)) := by
  constructor
  all_goals decide +kernel

/-- The call of a peer that answers: its route echoes the name in the path. -/
theorem httpsDo_gateway_echo :
    httpsDo echoNet [] (lit "GET") (some (lit "https://peer:8443/api/echo/ann")) none 64 =
      .returned (lit "\x7b\"echo\":\"ann\"\x7d") := by
  obtain ⟨harrives, hreturns⟩ := httpsDo_gateway echoUrl_ok
  obtain ⟨hc, hmw, hoauth, hroute, hsent⟩ := echoHalf_reads
  have hstart : echoConnected.conns 0 = some { tls := true } := by decide +kernel
  have hrun : TlsRun takingExt 0 echoConnected
      [⟨true, [(httpsBytes (lit "GET") echoUrl none).take 9], false⟩]
      (echoHalf (httpsBytes (lit "GET") echoUrl none)) :=
    .event ⟨⟨rfl, rfl⟩, rfl⟩
      (.done ⟨⟨by decide +kernel, by decide +kernel⟩, by decide +kernel⟩)
  have hstep := harrives (i := ⟨true, [(httpsBytes (lit "GET") echoUrl none).drop 9], false⟩)
    hstart rfl rfl rfl (Or.inr (by decide)) hrun (by rw [hc]; rfl)
    (fun j hj => by
      rcases List.mem_pair.mp hj with rfl | rfl
      · exact ⟨rfl, by decide, rfl⟩
      · exact ⟨rfl, by decide, rfl⟩)
    (by decide) (by decide)
  have hnet := echoNet_received (httpsBytes (lit "GET") echoUrl none)
  have hall : (echoDone (httpsBytes (lit "GET") echoUrl none)).sent 0 =
      answerHead ctJson [] (lit "\x7b\"echo\":\"ann\"\x7d") ++ lit "\x7b\"echo\":\"ann\"\x7d" := by
    decide +kernel
  rw [← echoDone] at hstep
  generalize echoDone (httpsBytes (lit "GET") echoUrl none) = g' at hstep hnet hall
  generalize echoHalf (httpsBytes (lit "GET") echoUrl none) = g at hc hmw hoauth hroute hsent hstep
  have hpath : (httpsRequest (lit "GET") echoUrl none).path = lit "/api/echo/ann" := by decide
  have hconn := modConn_conn hc fun c => { c with rbuf := httpsBytes (lit "GET") echoUrl none }
  obtain ⟨hmw', hoauth', hrouter'⟩ :=
    modConn_config g 0 fun c => { c with rbuf := httpsBytes (lit "GET") echoUrl none }
  have hbody : runBuiltin [⟨lit "name", lit "ann"⟩] true .echo =
      some (lit "\x7b\"echo\":\"ann\"\x7d") := by decide
  obtain ⟨g₁, hhandled, hg₁, hsent₁⟩ :=
    carryOut_builtin (E := takingExt) hconn rfl
    (hmw'.trans (Option.isNone_iff_eq_none.mp hmw)) (hoauth'.trans hoauth)
    (by rw [hpath]; decide) (by rw [hrouter', hpath]; exact hroute) (fun svc hsvc => by cases hsvc)
    (fun _ => rfl) hbody
  rw [hhandled] at hstep
  have hawaits : AwaitsAnswer g₁ 0 _ [] :=
    ⟨hg₁, rfl, rfl, httpsRequest_plain, ⟨le_rfl, le_rfl⟩, rfl, by rw [hsent₁, modConn_sent, hsent]⟩
  have hdone : TlsRun takingExt 0 (rearmed takingExt 0
      (sendResp takingExt g₁ 0 200 ctJson (lit "\x7b\"echo\":\"ann\"\x7d"))) [] g' := by
    rw [← hstep]
    exact .done ⟨⟨rfl, rfl⟩, rfl⟩
  have hworks : echoNet.Works echoUrl (httpsBytes (lit "GET") echoUrl none) :=
    ⟨by decide, rfl, rfl, rfl, rfl, rfl⟩
  have hcap : (lit "\x7b\"echo\":\"ann\"\x7d").length < 64 := by decide
  obtain ⟨out, -, hout, hret⟩ | ⟨hshort, -⟩ :=
    hreturns [] hawaits echoAnswer_ok hdone hworks (hnet ▸ List.prefix_refl _) hcap
  · rw [hnet, hall] at hout
    rw [hret, ← List.append_cancel_left hout]
  · rw [hnet, hall, List.length_append] at hshort
    omega

end Naitron
