/-
  Naitron.Server.Conn

  Client connections: closing, responding and writing, plaintext and TLS
  (`conn_close` .. `on_writable`, `stream_kick`, `stream_push` and the TLS
  write driver of server.c).

  Every function here that returns a negative number has closed the
  connection.  A zero return leaves it open, whether everything was written or
  the socket would block.
-/

import Naitron.Server.State

namespace Naitron

variable (E : Ext)

-- ============================================================================
-- Controller queue
-- ============================================================================

/-- `ctrl_queue`: append a frame to the controller's write buffer; `neg` when
    the buffer cannot grow.  The connection is there for the record only. -/
def ctrlQueue (g : Gateway) (ct : CtrlId) (k : ConnId) (type : NtcMsgType) (rid : Nat)
    (payload : Bytes) : Rc × Gateway :=
  let (a, g) := g.ask E
  let q : QueuedFrame := ⟨ct, k, type, rid, payload⟩
  if a.ok then (.zero, g.enqueue q) else (.neg, { g with lost := g.lost ++ [q] })

-- ============================================================================
-- Closing
-- ============================================================================

/-- A WebSocket that goes away tells its controller. -/
def notifyWsClose (g : Gateway) (k : ConnId) (c : Conn) : Gateway :=
  match c.waitCtrl with
  | some ct =>
      if c.isWs && c.inflight then
        (ctrlQueue E g ct k .wsClose c.reqId (ntcWireEncodeWsClose 1000)).2
      else g
  | none => g

/-- Free the slot of a connection and clear its `inflight` flag. -/
def releaseSlot (g : Gateway) (k : ConnId) (slot : Nat) : Gateway :=
  (gwFreeSlot g slot).modConn k fun c => { c with inflight := false }

/-- Take a connection out of the table (`close(fd)`, `free(c)`). -/
def dropConn (g : Gateway) (k : ConnId) : Gateway :=
  { g with conns := Function.update g.conns k none }

/-- `conn_close`. -/
def connClose (g : Gateway) (k : ConnId) : Gateway :=
  match g.conns k with
  | none => g
  | some c =>
      let g := notifyWsClose E g k c
      let g := if c.inflight then releaseSlot g k (idSlot c.reqId) else g
      dropConn g k

-- ============================================================================
-- Responding
-- ============================================================================

/-- `ctype_compressible`. -/
def ctypeCompressible (ct : Bytes) : Bool :=
  ntcSliceStartsWith ct (lit "text/") || sliceHas ct (lit "json") || sliceHas ct (lit "javascript")
    || sliceHas ct (lit "xml") || sliceHas ct (lit "svg")

/-- The gzip step of `conn_respond`: the body to send and the extra headers.
    `ok` is whether the arena has room for the compressed copy. -/
def gzipBody (c : Conn) (ok : Bool) (ctype body : Bytes) : Bytes × CStr 512 :=
  if c.acceptGzip && ntcGzipMin ≤ body.length && ctypeCompressible ctype
      && !sliceHas c.extraHeaders.bytes (lit "Content-Encoding") then
    match E.gzip body with
    | none => (body, c.extraHeaders)
    | some gz =>
        if ok then (gz, .set 512 (c.extraHeaders.bytes ++ lit "Content-Encoding: gzip\r\n"))
        else (body, c.extraHeaders)
  else (body, c.extraHeaders)

/-- `conn_respond`: format the response into the connection's write buffer. -/
def connRespond (g : Gateway) (k : ConnId) (status : Nat) (ctype body : Bytes) : Rc × Gateway :=
  let (gz, g) := g.ask E
  let (a, g) := g.ask E
  match g.conns k with
  | none => (.neg, g)
  | some c =>
      let z := gzipBody E c gz.ok ctype body
      let g := g.modConn k fun c => { c with extraHeaders := z.2 }
      match ntcHttpFormatResponseEx status ctype z.2.bytes z.1 with
      | none => (.neg, g)
      | some resp =>
          if a.ok then
            (.zero,
              (g.modConn k fun c =>
                { c with wbuf := resp, wsent := 0, state := .csWrite }).noteReply k)
          else (.neg, g)

-- ============================================================================
-- Plaintext writes
-- ============================================================================

/-- How a `send` loop ended. -/
inductive SendEnd where
  | done
  | blocked
  | failed
deriving DecidableEq, Repr

/-- The `while (sent < len) send(..)` loop.  A list that runs out stands for a
    socket that would block. -/
def sendLoop (len : Nat) : List SendResult → Nat → SendEnd × Nat
  | [], sent => (if len ≤ sent then .done else .blocked, sent)
  | r :: rs, sent =>
      if len ≤ sent then (.done, sent)
      else
        match r with
        | .more n => sendLoop len rs (sent + min (n + 1) (len - sent))
        | .eintr => sendLoop len rs sent
        | .eagain => (.blocked, sent)
        | .error => (.failed, sent)

/-- The bytes of a buffer between two offsets. -/
def slicePart (buf : Bytes) (i j : Nat) : Bytes := (buf.drop i).take (j - i)

/-- `on_writable`, streaming half. -/
def onWritableStream (g : Gateway) (k : ConnId) (c : Conn) : Rc × Gateway :=
  let (a, g) := g.ask E
  let r := sendLoop c.swbuf.length a.sends c.swsent
  let g := g.emit k (slicePart c.swbuf c.swsent r.2)
  match r.1 with
  | .failed => (.neg, connClose E g k)
  | .blocked => (.zero, g.modConn k fun c => { c with swsent := r.2 })
  | .done =>
      let g := g.modConn k fun c => { c with swbuf := [], swsent := 0 }
      if c.streamEnded then (.neg, connClose E g k)
      else
        let (p, g) := g.ask E
        if p.ok then (.zero, g) else (.neg, connClose E g k)

/-- `on_writable`, atomic half. -/
def onWritableAtomic (g : Gateway) (k : ConnId) (c : Conn) : Rc × Gateway :=
  let (a, g) := g.ask E
  let r := sendLoop c.wbuf.length a.sends c.wsent
  let g := g.emit k (slicePart c.wbuf c.wsent r.2)
  match r.1 with
  | .failed => (.neg, connClose E g k)
  | .blocked => (.zero, g.modConn k fun c => { c with wsent := r.2 })
  | .done => (.neg, connClose E g k)

-- ============================================================================
-- TLS writes
-- ============================================================================

/-- How `tls_drive_write` left its loop. -/
inductive TlsEnd where
  | closed
  | idle
  | drained
deriving DecidableEq, Repr

/-- The inner loop: `ntc_tls_send` until it takes nothing. -/
def tlsSend (len : Nat) : List Nat → Nat → Nat
  | [], sent => sent
  | n :: rest, sent =>
      if len ≤ sent then sent
      else if n = 0 then sent
      else tlsSend len rest (sent + min n (len - sent))

/-- The loop of `tls_drive_write`.  A list that runs out stands for an engine
    that accepts nothing more. -/
def tlsLoop (streaming ended : Bool) (len : Nat) : List TlsRound → Nat → TlsEnd × Nat
  | [], sent => (.idle, sent)
  | r :: rs, sent =>
      let now := tlsSend len r.accepted sent
      if !r.pumpOk then (.closed, now)
      else if r.closed then (.closed, now)
      else if r.wantsWrite then (.idle, now)
      else if len ≤ now then
        if !streaming || ended then (.closed, now) else (.drained, now)
      else if now = sent then (.idle, now)
      else tlsLoop streaming ended len rs now

/-- `tls_drive_write`. -/
def tlsDriveWrite (g : Gateway) (k : ConnId) (c : Conn) : Rc × Gateway :=
  let (a, g) := g.ask E
  let buf := if c.streaming then c.swbuf else c.wbuf
  let start := if c.streaming then c.swsent else c.wsent
  let r := tlsLoop c.streaming c.streamEnded buf.length a.rounds start
  let g := g.emit k (slicePart buf start r.2)
  match r.1 with
  | .closed => (.neg, connClose E g k)
  | .idle =>
      (.zero, g.modConn k fun c =>
        if c.streaming then { c with swsent := r.2 } else { c with wsent := r.2 })
  | .drained => (.zero, g.modConn k fun c => { c with swbuf := [], swsent := 0 })

/-- `tls_set_interest`: fails only when the poller does. -/
def tlsSetInterest (g : Gateway) (k : ConnId) : Rc × Gateway :=
  let (a, g) := g.ask E
  if a.ok then (.zero, g) else (.neg, connClose E g k)

-- ============================================================================
-- Flushing
-- ============================================================================

/-- `on_writable`. -/
def onWritable (g : Gateway) (k : ConnId) : Rc × Gateway :=
  match g.conns k with
  | none => (.neg, g)
  | some c =>
      if c.tls then tlsDriveWrite E g k c
      else if c.streaming then onWritableStream E g k c
      else onWritableAtomic E g k c

/-- `conn_flush`: drive a TLS connection and re-arm it, or arm the poller and
    write. -/
def connFlush (g : Gateway) (k : ConnId) : Rc × Gateway :=
  match g.conns k with
  | none => (.neg, g)
  | some c =>
      if c.tls then
        match tlsDriveWrite E g k c with
        | (.neg, g) => (.neg, g)
        | (.zero, g) => tlsSetInterest E g k
      else
        let (a, g) := g.ask E
        if a.ok then onWritable E g k else (.neg, connClose E g k)

/-- `stream_kick`: as `conn_flush`, with read interest kept. -/
def streamKick (g : Gateway) (k : ConnId) : Rc × Gateway := connFlush E g k

/-- `send_resp`. -/
def sendResp (g : Gateway) (k : ConnId) (status : Nat) (ctype body : Bytes) : Rc × Gateway :=
  match connRespond E g k status ctype body with
  | (.neg, g) => (.neg, connClose E g k)
  | (.zero, g) => connFlush E g k

/-- `respond_and_flush`. -/
def respondAndFlush (g : Gateway) (k : ConnId) (status : Nat) (json : Bytes) : Rc × Gateway :=
  sendResp E g k status ctJson json

/-- `stream_push`: append to the drain buffer, then push.  Consumed bytes are
    dropped first; a client that cannot keep up is disconnected. -/
def streamPush (g : Gateway) (k : ConnId) (data : Bytes) : Rc × Gateway :=
  match g.conns k with
  | none => (.neg, g)
  | some c =>
      if data.isEmpty then streamKick E g k
      else
        let rest := c.swbuf.drop c.swsent
        let g := g.modConn k fun c => { c with swbuf := rest, swsent := 0 }
        if ntcStreamMaxBuf < rest.length + data.length then (.neg, connClose E g k)
        else
          let (a, g) := g.ask E
          if a.ok then
            streamKick E (g.modConn k fun c => { c with swbuf := rest ++ data }) k
          else (.neg, connClose E g k)

end Naitron
