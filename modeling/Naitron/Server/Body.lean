/-
  Naitron.Server.Body

  Which bytes of the read buffer become the body of a dispatched request.

  The parser gives a request everything behind its header block as body, and
  `process_request` only waits until the declared length is there: bytes past
  it stay in the body, are validated and forwarded with it.  The body is the
  declared one exactly when the buffer holds nothing more.
-/

import Naitron.Server.Validation

namespace Naitron

variable (E : Ext)

-- ============================================================================
-- The declared body
-- ============================================================================

/-- Where the bytes behind the header block start. -/
def headerEnd (rbuf : Bytes) : Nat :=
  match findEoh rbuf with
  | none => rbuf.length
  | some eoh => eoh + 4

/-- The bytes behind the header block that the request declares as its body. -/
def declaredBody (rbuf : Bytes) (req : NtcRequest) : Bytes :=
  (rbuf.drop (headerEnd rbuf)).take (declaredLength req)

/-- The most a body may hold: `max_body`, or the read buffer when it is 0. -/
def bodyLimit (g : Gateway) : Nat := if g.maxBody = 0 then ntcConnRbuf else g.maxBody

/-- The body of a request is the declared one, also on the wire, and within
    the declared length and the limit. -/
structure BodyDelimited (g : Gateway) (rbuf : Bytes) (req : NtcRequest) : Prop where
  body : req.body = declaredBody rbuf req
  forwarded : ∀ (c : Conn) (params : List NtcHeader) (enc : Bytes),
    ntcWireEncodeRequest (enrichRequest c req params) encodeCap = some enc →
      (putU32 (declaredBody rbuf req).length ++ declaredBody rbuf req) <:+ enc
  declared : req.body.length ≤ declaredLength req
  limit : req.body.length ≤ bodyLimit g

/-- A request ready to go has at least its declared bytes behind the header
    block, all of them its body, and declares no more than `max_body`. -/
theorem frameRequest_ready {maxBody : Nat} {rbuf : Bytes} {eof : Bool} {req : NtcRequest}
    (h : frameRequest maxBody rbuf eof = .ready req) :
    req.body = rbuf.drop (headerEnd rbuf) ∧
      headerEnd rbuf + declaredLength req ≤ rbuf.length ∧
      (maxBody ≠ 0 → declaredLength req ≤ maxBody) := by
  unfold frameRequest at h
  split at h
  · split at h
    · cases h
    · split at h <;> cases h
  · cases h
  · rename_i req' consumed hparse
    obtain ⟨hle, ⟨eoh, heoh, rfl⟩, hbody, hdecl⟩ := ntcHttpParseRequest_spec hparse
    have hend : headerEnd rbuf = eoh + 4 := by rw [headerEnd, heoh]
    split at h
    · cases h
    · rename_i hmax
      split at h
      · cases h
      · split at h
        · split at h
          · cases h
          · split at h <;> cases h
        · rename_i hneed
          cases h
          rw [hend, hdecl]
          refine ⟨hbody, ?_, fun hpos => ?_⟩
          · cases hcl : req.hasContentLength with
            | false => simpa using hle
            | true => simpa [hcl] using hneed
          · cases hcl : req.hasContentLength with
            | false => simp
            | true => simpa [hcl, hpos] using hmax

/-- A request on the wire ends with its body, behind the body's length. -/
theorem ntcWireEncodeRequest_suffix {req : NtcRequest} {cap : Nat} {enc : Bytes}
    (h : ntcWireEncodeRequest req cap = some enc) :
    (putU32 req.body.length ++ req.body) <:+ enc := by
  simp only [ntcWireEncodeRequest, Option.bind_eq_bind, Option.bind_eq_some_iff] at h
  obtain ⟨method, -, path, -, query, -, hs, -, ps, -, sub, -, scope, -, hout⟩ := h
  split at hout
  · cases hout
  · cases hout
    rw [List.append_assoc _ (putU32 _)]
    exact List.suffix_append _ _

-- ============================================================================
-- Dispatched requests
-- ============================================================================

/-- A request that the middleware lets pass is dispatched. -/
theorem processRequest_dispatched {g : Gateway} {k : ConnId} {c : Conn} (hc : g.conns k = some c)
    (hmain : c.isAdmin = false) {eof : Bool} {req : NtcRequest}
    (hready : frameRequest g.maxBody c.rbuf eof = .ready req) {g' : Gateway}
    (hmw : runMiddleware E (g.modConn k fun c => { c with
      acceptGzip := sliceHas (ntcHttpHeader req (lit "accept-encoding")) (lit "gzip") }) k c req =
        (none, g')) : processRequest E g k eof = gwDispatch E g' k req := by
  simp only [processRequest, hc, hready, hmain, Bool.false_eq_true, if_false, hmw]

/-- A request that goes on to dispatch has its declared body exactly when the
    read buffer ends with that body. -/
theorem dispatched_body_is_declared_iff {g : Gateway} {k : ConnId} {c : Conn}
    (hc : g.conns k = some c) (hfits : c.rbuf.length ≤ ntcConnRbuf) (hmain : c.isAdmin = false)
    {eof : Bool} {req : NtcRequest} (hready : frameRequest g.maxBody c.rbuf eof = .ready req)
    {g' : Gateway}
    (hmw : runMiddleware E (g.modConn k fun c => { c with
      acceptGzip := sliceHas (ntcHttpHeader req (lit "accept-encoding")) (lit "gzip") }) k c req =
        (none, g')) :
    processRequest E g k eof = gwDispatch E g' k req ∧
      (BodyDelimited g c.rbuf req ↔
        c.rbuf.length = headerEnd c.rbuf + declaredLength req) := by
  obtain ⟨hbody, hthere, hmax⟩ := frameRequest_ready hready
  refine ⟨processRequest_dispatched E hc hmain hready hmw, ?_⟩
  constructor
  · intro h
    have hlen := h.declared
    rw [hbody, List.length_drop] at hlen
    omega
  · intro hexact
    have hlen : req.body.length = declaredLength req := by
      rw [hbody, List.length_drop]
      omega
    have hdeclared : declaredBody c.rbuf req = req.body := by
      rw [declaredBody, ← hbody, ← hlen, List.take_length]
    refine ⟨hdeclared.symm, ?_, hlen.le, ?_⟩
    · intro c' params enc henc
      rw [hdeclared]
      have hsuffix := ntcWireEncodeRequest_suffix henc
      exact hsuffix
    · rw [hlen, bodyLimit]
      split
      · omega
      · rename_i hpos
        exact hmax hpos

/-! ## One request, and one with another behind it -/

/-- A request with a declared body of five bytes, and what was sent after it. -/
def postBytes (more : Bytes) : Bytes :=
  lit "POST /hello HTTP/1.1\r\nContent-Length: 5\r\n\r\nhello" ++ more

/-- What the parser makes of it. -/
def postRequest (more : Bytes) : NtcRequest :=
  { method := lit "POST", target := lit "/hello", path := lit "/hello", minorVersion := 1
    headers := [⟨lit "Content-Length", lit "5"⟩]
    hasContentLength := true, contentLength := 5, body := lit "hello" ++ more }

/-- The gateway once those bytes are read. -/
def postRead (more : Bytes) : Gateway :=
  (helloConnected quietExt).modConn 0 fun c => { c with rbuf := postBytes more }

/-- Without middleware a request goes straight on. -/
theorem runMiddleware_off {g : Gateway} (h : g.mw = none) (k : ConnId) (c : Conn)
    (req : NtcRequest) : runMiddleware E g k c req = (none, (g.ask E).2) := by
  have hask : (g.ask E).2.mw = none := h
  unfold runMiddleware
  dsimp only
  rw [hask]

/-- The body alone is dispatched as it was declared. -/
theorem dispatched_body_hello :
    frameRequest (postRead []).maxBody (postBytes []) false = .ready (postRequest []) ∧
      BodyDelimited (postRead []) (postBytes []) (postRequest []) := by
  have hready : frameRequest (postRead []).maxBody (postBytes []) false =
      .ready (postRequest []) := by decide +kernel
  refine ⟨hready, ?_⟩
  exact (dispatched_body_is_declared_iff quietExt (g := postRead []) (k := 0)
    (c := { acceptedConn with rbuf := postBytes [] }) (by decide +kernel) (by decide +kernel) rfl
    hready (runMiddleware_off quietExt (by decide +kernel) 0 _ _)).2.mpr (by decide +kernel)

/-- A request that a client sends behind another one. -/
def pipelined : Bytes := lit "GET / HTTP/1.1\r\n\r\n"

/-- A request sent behind it becomes part of the body that is dispatched. -/
theorem pipelined_request_joins_body :
    ¬ ∀ (E : Ext) (g : Gateway), Reachable E g → ∀ (k : ConnId) (c : Conn) (rs : List RecvResult)
      (rbuf : Bytes) (req : NtcRequest) (g' : Gateway), g.conns k = some c → c.state = .csRead →
      c.isAdmin = false → connRecv rs c.rbuf = (.open, rbuf) →
      frameRequest g.maxBody rbuf false = .ready req →
      runMiddleware E ((g.modConn k fun c => { c with rbuf := rbuf }).modConn k fun c => { c with
        acceptGzip := sliceHas (ntcHttpHeader req (lit "accept-encoding")) (lit "gzip") }) k
        { c with rbuf := rbuf } req = (none, g') →
      onReadable E g k rs = gwDispatch E g' k req → BodyDelimited g rbuf req := by
  intro h
  have hready : frameRequest (postRead pipelined).maxBody
      (postBytes pipelined) false =
        .ready (postRequest pipelined) := by decide +kernel
  have hconn : (helloConnected quietExt).conns 0 = some acceptedConn := by decide +kernel
  have hread : connRecv (recvOf (postBytes pipelined)) acceptedConn.rbuf =
      (.open, postBytes pipelined) := by decide +kernel
  have hmw := runMiddleware_off quietExt (g := (postRead pipelined).modConn 0
    fun c => { c with acceptGzip := sliceHas (ntcHttpHeader
      (postRequest pipelined) (lit "accept-encoding")) (lit "gzip") })
    (by decide +kernel) 0 { acceptedConn with rbuf := postBytes pipelined }
    (postRequest pipelined)
  have hbody := h quietExt (helloConnected quietExt) (helloConnected_reachable quietExt trivial)
    0 acceptedConn (recvOf (postBytes pipelined))
    (postBytes pipelined) (postRequest pipelined) _
    hconn rfl rfl hread hready hmw (by
      have hpost : (postRead pipelined).conns 0 =
          some { acceptedConn with rbuf := postBytes pipelined } := by
        decide +kernel
      rw [onReadable, hconn]
      dsimp only
      rw [hread]
      dsimp only
      exact processRequest_dispatched quietExt hpost rfl hready hmw)
  have hlong : ¬ (postRequest pipelined).body.length ≤
      declaredLength (postRequest pipelined) := by decide +kernel
  exact hlong hbody.declared

end Naitron
