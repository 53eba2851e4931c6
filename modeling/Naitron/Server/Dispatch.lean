/-
  Naitron.Server.Dispatch

  From bytes on a client socket to a forwarded request: `gw_forward`,
  `gw_ws_upgrade`, `gw_validate_body`, `gw_dispatch`, `handle_admin`,
  `process_request` and the read handlers of server.c.

  `frameRequest` is the part of `process_request` that decides, from the
  buffered bytes alone, whether to wait, to refuse or to go on with a request;
  `processRequest` acts on its verdict.
-/

import Naitron.Server.Control

namespace Naitron

variable (E : Ext)

-- ============================================================================
-- Forwarding
-- ============================================================================

/-- Room for an encoded request. -/
def encodeCap : Nat := ntcConnRbuf + 1024

/-- The replica a request goes to, with the service's cursor moved; `none`
    for a disabled service or one with no live replica. -/
def pickTarget (g : Gateway) (svc : Nat) : Option (CtrlId × Gateway) :=
  match g.services[svc]? with
  | none => none
  | some s =>
      if s.disabled then none
      else
        (svcPick s).map fun (ct, rr) => (ct, g.modService svc fun s => { s with rr := rr })

/-- `gw_forward`. -/
def gwForward (g : Gateway) (k : ConnId) (req : NtcRequest) (svc : Nat) : Rc × Gateway :=
  match pickTarget g svc with
  | none => respondAndFlush E g k 503 (lit "\x7b\"error\":\"service unavailable\"\x7d")
  | some (target, g) =>
      let (a, g) := g.ask E
      if !a.ok then respondAndFlush E g k 500 (lit "\x7b\"error\":\"oom\"\x7d")
      else
        match ntcWireEncodeRequest req encodeCap with
        | none => respondAndFlush E g k 500 (lit "\x7b\"error\":\"encode failed\"\x7d")
        | some enc =>
            match gwAllocId g k with
            | none => respondAndFlush E g k 503 (lit "\x7b\"error\":\"too many in-flight\"\x7d")
            | some (id, g) =>
                match ctrlQueue E g target k .request id enc with
                | (.neg, g) =>
                    respondAndFlush E (gwFreeSlot g (idSlot id)) k 503
                      (lit "\x7b\"error\":\"queue full\"\x7d")
                | (.zero, g) =>
                    (.zero, g.modConn k fun c =>
                      { c with
                        state := .csWait, reqId := id, inflight := true
                        waitCtrl := some target })

/-- The head of a 101 answer. -/
def upgradeHead (accept : Bytes) : Bytes :=
  lit "HTTP/1.1 101 Switching Protocols\r\nUpgrade: websocket\r\nConnection: Upgrade\r\n"
    ++ lit "Sec-WebSocket-Accept: " ++ accept ++ lit "\r\n\r\n"

/-- `gw_ws_upgrade`. -/
def gwWsUpgrade (g : Gateway) (k : ConnId) (req : NtcRequest) (svc : Nat) : Rc × Gateway :=
  match g.conns k with
  | none => (.neg, g)
  | some c =>
      if c.tls then respondAndFlush E g k 400 (lit "\x7b\"error\":\"wss not supported yet\"\x7d")
      else
        match pickTarget g svc with
        | none => respondAndFlush E g k 503 (lit "\x7b\"error\":\"service unavailable\"\x7d")
        | some (target, g) =>
            let key := ntcHttpHeader req (lit "sec-websocket-key")
            if key.isEmpty ∨ 64 < key.length then
              respondAndFlush E g k 400 (lit "\x7b\"error\":\"missing Sec-WebSocket-Key\"\x7d")
            else
              let (a, g) := g.ask E
              if !a.ok then respondAndFlush E g k 500 (lit "\x7b\"error\":\"oom\"\x7d")
              else
                match ntcWireEncodeRequest req encodeCap with
                | none => respondAndFlush E g k 500 (lit "\x7b\"error\":\"encode failed\"\x7d")
                | some enc =>
                    match gwAllocId g k with
                    | none =>
                        respondAndFlush E g k 503 (lit "\x7b\"error\":\"too many in-flight\"\x7d")
                    | some (id, g) =>
                        match ctrlQueue E g target k .wsOpen id enc with
                        | (.neg, g) =>
                            respondAndFlush E (gwFreeSlot g (idSlot id)) k 503
                              (lit "\x7b\"error\":\"queue full\"\x7d")
                        | (.zero, g) =>
                            let g := g.modConn k fun c =>
                              { c with
                                reqId := id, inflight := true, waitCtrl := some target
                                isWs := true, streaming := true, streamHeadSent := true
                                state := .csWs, rbuf := [] }
                            streamPush E (g.noteReply k) k (upgradeHead (E.wsAcceptKey key))

-- ============================================================================
-- Dispatch
-- ============================================================================

/-- The body of the 400 answer to an invalid body. -/
def validationError (detail : Bytes) : Bytes :=
  lit "\x7b\"error\":\"validation failed\",\"detail\":\"" ++ detail ++ lit "\"\x7d"

/-- The 400 body `gw_validate_body` answers with, `none` when the request may
    proceed.  `ok` is whether the arena has room for the error text. -/
def validationReply (root : Option (List (Bytes × (Bytes → Verdict)))) (req : NtcRequest)
    (ok : Bool) : Option Bytes :=
  match gwSchemaFor root req.method req.path with
  | none => none
  | some sch =>
      if !bodyMethod req.method then none
      else if req.body.isEmpty then some (lit "\x7b\"error\":\"request body required\"\x7d")
      else
        match sch req.body with
        | .valid => none
        | .badJson => some (lit "\x7b\"error\":\"invalid JSON body\"\x7d")
        | .invalid detail =>
            if ok then some (validationError detail)
            else some (lit "\x7b\"error\":\"validation failed\"\x7d")

/-- `gw_validate_body`: zero to proceed.  What a reply returns is what
    `respond_and_flush` returns, and that is zero too when the client's socket
    would block. -/
def gwValidateBody (g : Gateway) (k : ConnId) (req : NtcRequest) : Rc × Gateway :=
  let (a, g) := g.ask E
  match validationReply g.schemaRoot req a.ok with
  | none => (.zero, g)
  | some body => respondAndFlush E g k 400 body

/-- Send a page computed outside the model. -/
def sendPage (g : Gateway) (k : ConnId) (p : Page) : Rc × Gateway :=
  let g :=
    match p.headers with
    | none => g
    | some h => g.modConn k fun c => { c with extraHeaders := h }
  sendResp E g k p.status p.contentType p.body

/-- The reserved `/_ntc/` namespace. -/
def serveReserved (g : Gateway) (k : ConnId) (req : NtcRequest) : Rc × Gateway :=
  if req.path = lit "/_ntc/health" then
    sendResp E g k 200 ctJson (lit "\x7b\"status\":\"ok\"\x7d")
  else if req.path = lit "/_ntc/ready" then
    sendResp E g k 200 ctJson (lit "\x7b\"status\":\"ready\"\x7d")
  else if req.path = lit "/_ntc/openapi.json" then
    sendPage E g k (E.page .openapi g.tick req)
  else sendResp E g k 404 ctJson (lit "\x7b\"error\":\"not found\"\x7d")

/-- No route: static files, the landing page, or 404. -/
def serveUnrouted (g : Gateway) (k : ConnId) (req : NtcRequest) : Rc × Gateway :=
  match E.staticFile g.tick req with
  | some p => sendPage E g k p
  | none =>
      let (a, g) := g.ask E
      if req.path = lit "/" ∧ a.ok then sendPage E g k (E.page .landing g.tick req)
      else respondAndFlush E g k 404 (lit "\x7b\"error\":\"not found\"\x7d")

/-- The forwarded request: path parameters and the connection's identity
    added. -/
def enrichRequest (c : Conn) (req : NtcRequest) (params : List NtcHeader) : NtcRequest :=
  { req with
    params := params.take ntcMaxParams
    authSub := c.authSub.bytes
    authScope := c.authScope.bytes }

/-- The forward branch of `gw_dispatch`. -/
def dispatchForward (g : Gateway) (k : ConnId) (req : NtcRequest) (params : List NtcHeader)
    (svc : Nat) : Rc × Gateway :=
  match gwValidateBody E g k req with
  | (.neg, g) => (.neg, g)
  | (.zero, g) =>
      match g.conns k with
      | none => (.neg, g)
      | some c =>
          let fr := enrichRequest c req params
          if ntcHttpHeader fr (lit "upgrade") = lit "websocket" then gwWsUpgrade E g k fr svc
          else gwForward E g k fr svc

/-- The value of a captured parameter (`ntc_params_get`). -/
def ntcParamsGet (params : List NtcHeader) (name : Bytes) : Bytes :=
  match params.find? fun p => p.name == name with
  | some p => p.value
  | none => []

/-- The built-in handlers of builtin.c; `none` is a non-zero result. -/
def runBuiltin (params : List NtcHeader) (ok : Bool) : Handler → Option Bytes
  | .health => some (lit "\x7b\"status\":\"ok\",\"service\":\"naitron-c\"\x7d")
  | .version => some (lit "\x7b\"name\":\"naitron-c\",\"version\":\"0.0.1\"\x7d")
  | .echo =>
      if ok then
        some (lit "\x7b\"echo\":\"" ++ cstr (ntcParamsGet params (lit "name")) ++ lit "\"\x7d")
      else none
  | .forward _ => some []

/-- `gw_dispatch`. -/
def gwDispatch (g : Gateway) (k : ConnId) (req : NtcRequest) : Rc × Gateway :=
  if g.oauthEnabled && ntcSliceStartsWith req.path (lit "/auth/") then
    sendPage E g k (E.page .oauth g.tick req)
  else if ntcSliceStartsWith req.path (lit "/_ntc/") then serveReserved E g k req
  else
    match ntcRouterMatch g.router req.method req.path with
    | .notFound => serveUnrouted E g k req
    | .methodNotAllowed =>
        respondAndFlush E g k 405 (lit "\x7b\"error\":\"method not allowed\"\x7d")
    | .found rt params =>
        match rt.handler with
        | .forward svc => dispatchForward E g k req params svc
        | h =>
            let (a, g) := g.ask E
            match runBuiltin params a.ok h with
            | none => respondAndFlush E g k 500 (lit "\x7b\"error\":\"internal error\"\x7d")
            | some body => sendResp E g k 200 ctJson body

-- ============================================================================
-- Admin port
-- ============================================================================

/-- Whether an admin request carries the control token. -/
def adminAuthorized (g : Gateway) (req : NtcRequest) : Bool :=
  let auth := ntcHttpHeader req (lit "authorization")
  7 < auth.length && auth.take 7 == lit "Bearer " && auth.drop 7 == g.token.bytes

/-- The control command an admin request runs (`/_ntc/mcp`), cut to the 1024
    bytes of `incore_mcp_exec`. -/
def adminCommand (g : Gateway) (req : NtcRequest) : Option Bytes :=
  if req.path = lit "/_ntc/mcp" ∧ req.method = lit "POST" ∧ adminAuthorized g req = true then
    (E.mcpCommand req.body).map (clip 1024)
  else none

/-- The `/_ntc/mcp` branch of `handle_admin` once authorized. -/
def handleMcp (g : Gateway) (k : ConnId) (req : NtcRequest) : Rc × Gateway :=
  let (a, g) := g.ask E
  if !a.ok then sendResp E g k 500 ctJson (lit "\x7b\x7d")
  else
    let (out, g) :=
      match adminCommand E g req with
      | none => (none, g)
      | some cmd =>
          let r := execControlCommand E g cmd
          (some r.1, r.2)
    let reply := E.mcpReply req.body out
    if reply.isEmpty then sendResp E g k 202 ctJson [] else sendResp E g k 200 ctJson reply

/-- `handle_admin`. -/
def handleAdmin (g : Gateway) (k : ConnId) (req : NtcRequest) : Rc × Gateway :=
  if req.path = lit "/_ntc/mcp" then
    if req.method ≠ lit "POST" then
      sendResp E g k 405 ctJson (lit "\x7b\"error\":\"POST only\"\x7d")
    else if !adminAuthorized g req then
      sendResp E g k 401 ctJson (lit "\x7b\"error\":\"unauthorized\"\x7d")
    else handleMcp E g k req
  else if req.method ≠ lit "GET" then
    sendResp E g k 405 ctJson (lit "\x7b\"error\":\"method not allowed\"\x7d")
  else if req.path = lit "/" ∨ req.path = lit "/index.html" then
    sendPage E g k (E.page .dashboard g.tick req)
  else if req.path = lit "/api/stats" then sendPage E g k (E.page .stats g.tick req)
  else if req.path = lit "/api/services" then sendPage E g k (E.page .services g.tick req)
  else if req.path = lit "/api/routes" then sendPage E g k (E.page .routes g.tick req)
  else if req.path = lit "/_ntc/metrics" ∨ req.path = lit "/metrics" then
    sendPage E g k (E.page .metrics g.tick req)
  else sendResp E g k 404 ctJson (lit "\x7b\"error\":\"not found\"\x7d")

-- ============================================================================
-- Framing a request
-- ============================================================================

/-- What the buffered bytes of a connection amount to. -/
inductive Framing where
  | wait
  | close
  | refuse (status : Nat) (body : Bytes)
  | ready (req : NtcRequest)
deriving DecidableEq, Repr

/-- The first half of `process_request`: parse, then check the lengths. -/
def frameRequest (maxBody : Nat) (rbuf : Bytes) (eof : Bool) : Framing :=
  match ntcHttpParseRequest rbuf with
  | .incomplete =>
      if eof then .close
      else if rbuf.length < ntcConnRbuf then .wait
      else .refuse 431 (lit "\x7b\"error\":\"headers too large\"\x7d")
  | .error => .refuse 400 (lit "\x7b\"error\":\"bad request\"\x7d")
  | .ok req consumed =>
      if req.hasContentLength ∧ maxBody ≠ 0 ∧ maxBody < req.contentLength then
        .refuse 413 (lit "\x7b\"error\":\"request body too large\"\x7d")
      else if req.hasContentLength ∧ sizeMax ≤ consumed + req.contentLength then
        .refuse 400 (lit "\x7b\"error\":\"bad length\"\x7d")
      else if req.hasContentLength ∧ rbuf.length < consumed + req.contentLength then
        if eof then .close
        else if rbuf.length < ntcConnRbuf then .wait
        else .refuse 413 (lit "\x7b\"error\":\"body too large\"\x7d")
      else .ready req

-- ============================================================================
-- process_request
-- ============================================================================

/-- The session lookup of `process_request`: an identity when the request
    carries a live session cookie. -/
def sessionOf (g : Gateway) (req : NtcRequest) (a : Answer) : Option (CStr 128 × CStr 256) :=
  if g.hasSessions && !(ntcHttpHeader req (lit "cookie")).isEmpty then a.session else none

/-- The middleware block of `process_request`: the answer to send at once, if
    any, and the connection annotated. -/
def runMiddleware (g : Gateway) (k : ConnId) (c : Conn) (req : NtcRequest) :
    Option NtcMwResult × Gateway :=
  let (s, g) := g.ask E
  let sess := sessionOf g req s
  match g.mw with
  | none => (none, g)
  | some mw =>
      let (a, g) := g.ask E
      let b := ntcMwBefore E.jwt a.mw mw req c.clientIp.bytes a.now sess.isSome
      let ident := sess.getD (b.2.1.authSub, b.2.1.authScope)
      let g := { g with mw := some b.2.2 }
      let g := g.modConn k fun c =>
        { c with
          extraHeaders := b.2.1.extraHeaders, requestId := b.2.1.requestId
          authSub := ident.1, authScope := ident.2 }
      (if b.1 then some b.2.1 else none, g)

/-- `process_request`. -/
def processRequest (g : Gateway) (k : ConnId) (eof : Bool) : Rc × Gateway :=
  match g.conns k with
  | none => (.neg, g)
  | some c =>
      match frameRequest g.maxBody c.rbuf eof with
      | .wait => (.zero, g)
      | .close => (.neg, connClose E g k)
      | .refuse status body => respondAndFlush E g k status body
      | .ready req =>
          let gzip := sliceHas (ntcHttpHeader req (lit "accept-encoding")) (lit "gzip")
          let g := g.modConn k fun c => { c with acceptGzip := gzip }
          if c.isAdmin then handleAdmin E g k req
          else
            match runMiddleware E g k c req with
            | (some r, g) => sendResp E g k r.status r.contentType r.body
            | (none, g) => gwDispatch E g k req

-- ============================================================================
-- Reading
-- ============================================================================

/-- How a `recv` loop on a client socket ended. -/
inductive ReadEnd where
  | open
  | eof
  | failed
deriving DecidableEq, Repr

/-- The `recv` loop of `on_readable`; a `recv` never returns more than the
    room it was given. -/
def connRecv : List RecvResult → Bytes → ReadEnd × Bytes
  | rs, buf =>
      if ntcConnRbuf ≤ buf.length then (.open, buf)
      else
        match rs with
        | [] => (.open, buf)
        | .data b bs :: rs => connRecv rs (buf ++ (b :: bs).take (ntcConnRbuf - buf.length))
        | .eof :: _ => (.eof, buf)
        | .eintr :: rs => connRecv rs buf
        | .eagain :: _ => (.open, buf)
        | .error :: _ => (.failed, buf)

/-- `on_readable`. -/
def onReadable (g : Gateway) (k : ConnId) (rs : List RecvResult) : Rc × Gateway :=
  match g.conns k with
  | none => (.neg, g)
  | some c =>
      let r := connRecv rs c.rbuf
      match r.1 with
      | .failed => (.neg, connClose E g k)
      | .eof => processRequest E (g.modConn k fun c => { c with rbuf := r.2 }) k true
      | .open => processRequest E (g.modConn k fun c => { c with rbuf := r.2 }) k false

/-- `on_wait_readable`: one `recv`, only to notice a client that is gone. -/
def onWaitReadable (g : Gateway) (k : ConnId) (rs : List RecvResult) : Gateway :=
  match rs with
  | .eof :: _ => connClose E g k
  | .error :: _ => connClose E g k
  | _ => g

-- ============================================================================
-- WebSocket reads
-- ============================================================================

/-- The `recv` loop of `on_ws_readable`; a full buffer counts as a failure. -/
def wsRecv : List RecvResult → Bytes → Option Bytes
  | rs, buf =>
      if ntcConnRbuf ≤ buf.length then none
      else
        match rs with
        | [] => some buf
        | .data b bs :: rs => wsRecv rs (buf ++ (b :: bs).take (ntcConnRbuf - buf.length))
        | .eof :: _ => none
        | .eintr :: rs => wsRecv rs buf
        | .eagain :: _ => some buf
        | .error :: _ => none

/-- What `on_ws_readable` does with one decoded frame; `neg` when the
    connection was closed. -/
def onWsFrame (g : Gateway) (k : ConnId) (f : WsFrame) : Rc × Gateway :=
  if f.opcode = NtcWsOpcode.close.code then (.neg, connClose E g k)
  else if f.opcode = NtcWsOpcode.ping.code then
    let pay := if 125 < f.payload.length then [] else f.payload
    match ntcWsEncode .pong pay 160 with
    | none => (.zero, g)
    | some pong => streamPush E g k pong
  else if f.opcode = NtcWsOpcode.pong.code then (.zero, g)
  else
    match g.conns k with
    | none => (.neg, g)
    | some c =>
        match c.waitCtrl with
        | none => (.zero, g)
        | some ct =>
            if !c.inflight then (.zero, g)
            else
              let opcode := if f.opcode = NtcWsOpcode.bin.code then NtcWsOpcode.bin else .text
              let (a, g) := g.ask E
              if !a.ok then (.zero, g)
              else
                match ntcWireEncodeWsMsg opcode.code f.payload (f.payload.length + 16) with
                | none => (.zero, g)
                | some enc => (.zero, (ctrlQueue E g ct k .wsMsg c.reqId enc).2)

/-- The decode loop of `on_ws_readable` over the buffered bytes.  A frame
    takes at least two bytes, so their number is fuel enough. -/
def wsLoop (k : ConnId) : Nat → Gateway → Bytes → Rc × Gateway
  | 0, g, buf => (.zero, g.modConn k fun c => { c with rbuf := buf })
  | fuel + 1, g, buf =>
      match ntcWsDecode buf with
      | .needMore => (.zero, g.modConn k fun c => { c with rbuf := buf })
      | .bad => (.neg, connClose E g k)
      | .frame f consumed =>
          match onWsFrame E g k f with
          | (.neg, g) => (.neg, g)
          | (.zero, g) => wsLoop k fuel g (buf.drop consumed)

/-- `on_ws_readable`. -/
def onWsReadable (g : Gateway) (k : ConnId) (rs : List RecvResult) : Rc × Gateway :=
  match g.conns k with
  | none => (.neg, g)
  | some c =>
      match wsRecv rs c.rbuf with
      | none => (.neg, connClose E g k)
      | some buf => wsLoop E k buf.length g buf

-- ============================================================================
-- TLS reads
-- ============================================================================

/-- What the TLS engine holds when a TLS event is handled: whether the pump
    worked, the decrypted pieces, and whether the peer closed. -/
structure TlsInput where
  pumpOk : Bool
  plain : List Bytes
  closed : Bool
deriving DecidableEq, Repr

/-- The `ntc_tls_recv` loop of `tls_drive_read`. -/
def tlsRecv : List Bytes → Bytes → Bytes
  | [], buf => buf
  | d :: ds, buf =>
      if ntcConnRbuf ≤ buf.length ∨ d = [] then buf
      else tlsRecv ds (buf ++ d.take (ntcConnRbuf - buf.length))

/-- `tls_drive_read`. -/
def tlsDriveRead (g : Gateway) (k : ConnId) (c : Conn) (i : TlsInput) : Rc × Gateway :=
  let buf := tlsRecv i.plain c.rbuf
  if buf = c.rbuf ∧ i.closed = false then (.zero, g)
  else processRequest E (g.modConn k fun c => { c with rbuf := buf }) k i.closed

/-- What `on_tls_event` does in the state of the connection. -/
def tlsDrive (g : Gateway) (k : ConnId) (c : Conn) (i : TlsInput) : Rc × Gateway :=
  match c.state with
  | .csRead => tlsDriveRead E g k c i
  | .csWait => if i.closed then (.neg, connClose E g k) else (.zero, g)
  | .csWrite | .csStream | .csWs => tlsDriveWrite E g k c

/-- `on_tls_event`. -/
def onTlsEvent (g : Gateway) (k : ConnId) (i : TlsInput) : Gateway :=
  match g.conns k with
  | none => g
  | some c =>
      if !i.pumpOk then connClose E g k
      else
        match tlsDrive E g k c i with
        | (.neg, g) => g
        | (.zero, g) => (tlsSetInterest E g k).2

end Naitron
