/-
  Naitron.Server.Deliver

  Frames from a controller, delivered to the client their id names:
  `gw_deliver`, `gw_deliver_begin`, `_chunk`, `_end`, `gw_ws_deliver` and
  `gw_ws_deliver_close` of server.c.

  None of them looks at which controller sent the frame: the id alone selects
  the client.
-/

import Naitron.Server.Conn

namespace Naitron

variable (E : Ext)

/-- `NTC_STREAM_FLAG_SSE`, bit 0 of the flags. -/
def flagSse (flags : Nat) : Bool := flags % 2 == 1

/-- The header merge of `gw_deliver`: what fits of the blob behind the
    headers already there. -/
def mergeHeaders (c : Conn) (hdrs : Bytes) : CStr 512 :=
  let room := 512 - c.extraHeaders.bytes.length
  .set 512 (c.extraHeaders.bytes ++ hdrs.take (room - 1))

/-- `gw_deliver`. -/
def gwDeliver (g : Gateway) (id : Nat) (payload : Bytes) : Gateway :=
  match gwConnForId g.toFlight id with
  | none => g
  | some k =>
      let g := releaseSlot g k (idSlot id)
      match ntcWireDecodeResponseEx payload with
      | none =>
          (respondAndFlush E g k 502 (lit "\x7b\"error\":\"bad upstream response\"\x7d")).2
      | some r =>
          let g :=
            if r.headers.isEmpty then g
            else g.modConn k fun c => { c with extraHeaders := mergeHeaders c r.headers }
          (sendResp E g k r.status r.ctype r.body).2

/-- `gw_deliver_begin`. -/
def gwDeliverBegin (g : Gateway) (id : Nat) (payload : Bytes) : Gateway :=
  match gwConnForId g.toFlight id with
  | none => g
  | some k =>
      match ntcWireDecodeResponseBegin payload with
      | none =>
          (respondAndFlush E (releaseSlot g k (idSlot id)) k 502
            (lit "\x7b\"error\":\"bad stream begin\"\x7d")).2
      | some (status, flags, ctype) =>
          let g := g.modConn k fun c =>
            { c with streaming := true, streamSse := flagSse flags, state := .csStream }
          match g.conns k with
          | none => g
          | some c =>
              let (a, g) := g.ask E
              match ntcHttpFormatStreamHead status ctype c.streamSse c.extraHeaders.bytes with
              | none => connClose E g k
              | some head =>
                  if a.ok then
                    let g := g.modConn k fun c => { c with streamHeadSent := true }
                    (streamPush E (g.noteReply k) k head).2
                  else connClose E g k

/-- The three pushes of a chunk on a chunked stream; a push that closes the
    connection ends it. -/
def pushChunk (g : Gateway) (k : ConnId) (data : Bytes) : Gateway :=
  match streamPush E g k (hex data.length ++ crlf) with
  | (.neg, g) => g
  | (.zero, g) =>
      match streamPush E g k data with
      | (.neg, g) => g
      | (.zero, g) => (streamPush E g k crlf).2

/-- `gw_deliver_chunk`. -/
def gwDeliverChunk (g : Gateway) (id : Nat) (payload : Bytes) : Gateway :=
  match gwConnForId g.toFlight id with
  | none => g
  | some k =>
      match g.conns k with
      | none => g
      | some c =>
          if !c.streaming then g
          else
            match ntcWireDecodeChunk payload with
            | none => g
            | some data =>
                if data.isEmpty then g
                else if c.streamSse then (streamPush E g k data).2
                else pushChunk E g k data

/-- `gw_deliver_end`. -/
def gwDeliverEnd (g : Gateway) (id : Nat) : Gateway :=
  match gwConnForId g.toFlight id with
  | none => g
  | some k =>
      let g := releaseSlot g k (idSlot id)
      match g.conns k with
      | none => g
      | some c =>
          if !c.streaming then connClose E g k
          else
            let g := g.modConn k fun c => { c with streamEnded := true }
            if c.streamSse then (streamPush E g k []).2
            else (streamPush E g k (lit "0\r\n\r\n")).2

/-- `gw_ws_deliver`. -/
def gwWsDeliver (g : Gateway) (id : Nat) (payload : Bytes) : Gateway :=
  match gwConnForId g.toFlight id with
  | none => g
  | some k =>
      match g.conns k with
      | none => g
      | some c =>
          if !c.isWs then g
          else
            match ntcWireDecodeWsMsg payload with
            | none => g
            | some (opcode, data) =>
                let wsop := if opcode = NtcWsOpcode.bin.code then NtcWsOpcode.bin else .text
                let (a, g) := g.ask E
                if !a.ok then g
                else
                  match ntcWsEncode wsop data (data.length + 16) with
                  | none => g
                  | some frame => (streamPush E g k frame).2

/-- `gw_ws_deliver_close`. -/
def gwWsDeliverClose (g : Gateway) (id : Nat) : Gateway :=
  match gwConnForId g.toFlight id with
  | none => g
  | some k =>
      let g := releaseSlot g k (idSlot id)
      match ntcWsEncode .close [] 4 with
      | none => connClose E g k
      | some cf =>
          let g := g.modConn k fun c => { c with streamEnded := true }
          (streamPush E g k cf).2

/-- The `switch (h.type)` of `on_ctrl_readable`. -/
def dispatchFrame (g : Gateway) (f : WireFrame) : Gateway :=
  match NtcMsgType.ofCode f.hdr.type with
  | some .response => gwDeliver E g f.hdr.requestId f.payload
  | some .responseBegin => gwDeliverBegin E g f.hdr.requestId f.payload
  | some .responseChunk => gwDeliverChunk E g f.hdr.requestId f.payload
  | some .responseEnd => gwDeliverEnd E g f.hdr.requestId
  | some .wsMsg => gwWsDeliver E g f.hdr.requestId f.payload
  | some .wsClose => gwWsDeliverClose E g f.hdr.requestId
  | _ => g

end Naitron
