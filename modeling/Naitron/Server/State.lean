/-
  Naitron.Server.State

  The gateway of `src/core/server.c`: its data and its environment.

  `Flight` is the part every request passes through: client connections,
  controller connections, the services that own the controllers, and the
  in-flight slot table.  Objects that the C code allocates and frees are
  entries of a partial map; the key plays the pointer and is never used twice.
  An operation on an object that is gone does nothing here, where the C code
  would touch freed memory: that this never happens, or exactly when it does,
  is for the theorems to say.

  The operating system answers through `Ext.io`, an arbitrary stream of
  answers that `Gateway.ask` consumes one by one, so a statement for every
  `Ext` covers every behaviour of sockets, poller, memory and clocks.

  Metrics, logging and the access log are left out.
-/

import Naitron.Lib.GenTable
import Naitron.Schema
import Naitron.Middleware
import Naitron.Wire
import Naitron.HttpResponse
import Naitron.Ws
import Naitron.Registry

namespace Naitron

-- ============================================================================
-- Constants
-- ============================================================================

/-- `NTC_CONN_RBUF`. -/
def ntcConnRbuf : Nat := 64 * 1024

/-- `NTC_MAX_INFLIGHT`. -/
def ntcMaxInflight : Nat := 4096

/-- The 20 bits of a generation that an id carries. -/
def ntcGenSpan : Nat := 2 ^ 20

/-- Range of the `uint32_t` generation counters. -/
def ntcGenWrap : Nat := 2 ^ 32

/-- `NTC_CTRL_MAX_RBUF`. -/
def ntcCtrlMaxRbuf : Nat := 4 * 1024 * 1024

/-- `NTC_STREAM_MAX_BUF`. -/
def ntcStreamMaxBuf : Nat := 4 * 1024 * 1024

/-- `NTC_BACKOFF_BASE`. -/
def ntcBackoffBase : Int := 200

/-- `NTC_BACKOFF_MAX`. -/
def ntcBackoffMax : Int := 5000

/-- `NTC_STABLE_MS`. -/
def ntcStableMs : Int := 5000

/-- `NTC_MAX_SERVICES`. -/
def ntcMaxServices : Nat := 256

/-- `NTC_MAX_REPLICAS`. -/
def ntcMaxReplicas : Nat := 8

/-- `NTC_GZIP_MIN`. -/
def ntcGzipMin : Nat := 256

/-- The content type `JSON`. -/
def ctJson : Bytes := lit "application/json"

-- ============================================================================
-- Objects
-- ============================================================================

/-- The key of a client connection. -/
abbrev ConnId := Nat

/-- The key of a controller connection. -/
abbrev CtrlId := Nat

/-- The key of a control-plane client. -/
abbrev CctrlId := Nat

/-- `CS_READ` .. `CS_WS`. -/
inductive ConnState where
  | csRead | csWait | csWrite | csStream | csWs
deriving DecidableEq, Repr

/-- `conn`.  `rlen`, `wlen` and `swlen` are the lengths of the buffers. -/
structure Conn where
  state : ConnState := .csRead
  isAdmin : Bool := false
  tls : Bool := false
  inflight : Bool := false
  reqId : Nat := 0
  waitCtrl : Option CtrlId := none
  clientIp : CStr 46 := .empty 46
  requestId : CStr 40 := .empty 40
  extraHeaders : CStr 512 := .empty 512
  authSub : CStr 128 := .empty 128
  authScope : CStr 256 := .empty 256
  acceptGzip : Bool := false
  rbuf : Bytes := []
  wbuf : Bytes := []
  wsent : Nat := 0
  streaming : Bool := false
  streamSse : Bool := false
  streamHeadSent : Bool := false
  streamEnded : Bool := false
  isWs : Bool := false
  swbuf : Bytes := []
  swsent : Nat := 0
deriving DecidableEq

/-- `ctrl`.  `slot` is the index of this controller in its service's
    `conns[]`, kept here as a ghost. -/
structure Ctrl where
  svc : Nat
  slot : Nat
  rbuf : Bytes := []
  wbuf : Bytes := []
  wsent : Nat := 0
deriving DecidableEq

theorem one_le_ntcMaxReplicas : 1 ≤ ntcMaxReplicas := by decide

/-- `service`.  The replica count is within the bounds every writer of it
    checks. -/
structure Service where
  name : Bytes
  bin : Bytes
  conns : Nat → Option CtrlId := fun _ => none
  replicas : Nat := 1
  rr : Nat := 0
  disabled : Bool := false
  restartAt : Nat → Int := fun _ => 0
  spawnedAt : Nat → Int := fun _ => 0
  backoffMs : Nat → Int := fun _ => 0
  binMtime : Int := 0
  replicas_pos : 0 < replicas := by exact Nat.one_pos
  replicas_le : replicas ≤ ntcMaxReplicas := by exact one_le_ntcMaxReplicas

/-- `cctrl`. -/
structure Cctrl where
  buf : Bytes := []
deriving DecidableEq

/-- An id handed out by `gw_alloc_id`: to whom, and how often its slot had
    been freed by then. -/
structure Issue where
  id : Nat
  conn : ConnId
  freed : Nat
deriving DecidableEq, Repr

/-- A frame handed to `ctrl_queue`, with the connection it is for. -/
structure QueuedFrame where
  ctrl : CtrlId
  conn : ConnId
  type : NtcMsgType
  id : Nat
  payload : Bytes
deriving DecidableEq, Repr

/-- The bytes of the frame. -/
def QueuedFrame.bytes (q : QueuedFrame) : Bytes :=
  ntcWireWriteHeader q.type.code q.id q.payload.length ++ q.payload

/-- Connections, controllers, control clients and the in-flight table.
    `issued`, `replies`, `sent`, `received`, `delivered`, `queued`, `lost` and
    `written` are ghosts: the ids handed out, the responses started and the
    bytes handed to the socket per connection, the bytes received and the
    frames dispatched per controller, the frames queued and those there was no
    memory for, and the bytes handed to the socket per controller. -/
structure Flight where
  conns : ConnId → Option Conn
  nconn : Nat
  ctrls : CtrlId → Option Ctrl
  nctrl : Nat
  services : List Service
  cctrls : CctrlId → Option Cctrl
  ncctrl : Nat
  slots : Lib.GenTable ConnId
  issued : List Issue
  replies : ConnId → Nat
  sent : ConnId → Bytes
  received : CtrlId → Bytes
  delivered : CtrlId → List WireFrame
  queued : List QueuedFrame
  lost : List QueuedFrame
  written : CtrlId → Bytes

/-- What a request schema says of a body: `ntc_json_parse` followed by
    `ntc_schema_validate`, with the escaped error text. -/
inductive Verdict where
  | valid
  | badJson
  | invalid (detail : Bytes)
deriving DecidableEq, Repr

/-- `gateway`. -/
structure Gateway extends Flight where
  router : NtcRouter
  reg : NtcRegistry
  mw : Option (NtcMw Float)
  token : CStr 65
  appName : CStr 128
  oauthEnabled : Bool
  hasSessions : Bool
  schemaRoot : Option (List (Bytes × (Bytes → Verdict)))
  maxBody : Nat
  devWatch : Bool
  devLastPollMs : Int
  stop : Bool
  tick : Nat

-- ============================================================================
-- The environment
-- ============================================================================

/-- Result of one `send`: some bytes went out (`more n` is `n + 1` of them),
    or the call failed. -/
inductive SendResult where
  | more (n : Nat)
  | eintr
  | eagain
  | error
deriving DecidableEq, Repr

/-- Result of one `recv`. -/
inductive RecvResult where
  | data (b : UInt8) (bs : Bytes)
  | eof
  | eintr
  | eagain
  | error
deriving DecidableEq, Repr

/-- One round of `tls_drive_write`: the byte counts `ntc_tls_send` accepted,
    then the state of the engine after the pump. -/
structure TlsRound where
  accepted : List Nat
  pumpOk : Bool
  closed : Bool
  wantsWrite : Bool
deriving DecidableEq, Repr

/-- One answer of the operating system; a call reads the fields it needs. -/
structure Answer where
  ok : Bool := true
  sends : List SendResult := []
  rounds : List TlsRound := []
  now : Int := 0
  mtime : Int := -1
  mw : MwWorld
  session : Option (CStr 128 × CStr 256) := none

/-- A response computed outside the modelled code; `headers` replaces the
    connection's extra headers. -/
structure Page where
  status : Nat
  contentType : Bytes
  body : Bytes
  headers : Option (CStr 512) := none

/-- The pages whose text the model leaves open. -/
inductive PageKind where
  | oauth | openapi | landing | dashboard | stats | services | routes | metrics
deriving DecidableEq, Repr

/-- What the gateway calls outside the modelled code. -/
structure Ext where
  io : Nat → Answer
  gzip : Bytes → Option Bytes
  wsAcceptKey : Bytes → Bytes
  jwt : JwtOps
  page : PageKind → Nat → NtcRequest → Page
  staticFile : Nat → NtcRequest → Option Page
  /-- The command `ntc_mcp_handle` runs for a message, if it runs one. -/
  mcpCommand : Bytes → Option Bytes
  /-- The reply of `ntc_mcp_handle`, given the output of the command. -/
  mcpReply : Bytes → Option Bytes → Bytes
  /-- The reply of `status`, `service-list` and `route-list`. -/
  report : Bytes → Nat → Bytes

variable (E : Ext)

/-- The next answer of the environment. -/
def Gateway.ask (g : Gateway) : Answer × Gateway :=
  (E.io g.tick, { g with tick := g.tick + 1 })

/-- Result of a C function that returns 0 or a negative number. -/
inductive Rc where
  | zero
  | neg
deriving DecidableEq, Repr

-- ============================================================================
-- Elementary updates
-- ============================================================================

/-- Change a connection that is still there. -/
def Gateway.modConn (g : Gateway) (k : ConnId) (f : Conn → Conn) : Gateway :=
  match g.conns k with
  | none => g
  | some c => { g with conns := Function.update g.conns k (some (f c)) }

/-- Change a controller connection that is still there. -/
def Gateway.modCtrl (g : Gateway) (ct : CtrlId) (f : Ctrl → Ctrl) : Gateway :=
  match g.ctrls ct with
  | none => g
  | some t => { g with ctrls := Function.update g.ctrls ct (some (f t)) }

/-- Change a service. -/
def Gateway.modService (g : Gateway) (i : Nat) (f : Service → Service) : Gateway :=
  { g with services := g.services.modify i f }

/-- Bytes handed to the socket or TLS engine of a connection. -/
def Gateway.emit (g : Gateway) (k : ConnId) (out : Bytes) : Gateway :=
  { g with sent := Function.update g.sent k (g.sent k ++ out) }

/-- Bytes handed to the socket of a controller. -/
def Gateway.write (g : Gateway) (ct : CtrlId) (out : Bytes) : Gateway :=
  { g with written := Function.update g.written ct (g.written ct ++ out) }

/-- Append a frame to the write buffer of a controller that is still there. -/
def Gateway.enqueue (g : Gateway) (q : QueuedFrame) : Gateway :=
  match g.ctrls q.ctrl with
  | none => g
  | some t =>
      { g with
        ctrls := Function.update g.ctrls q.ctrl (some { t with wbuf := t.wbuf ++ q.bytes })
        queued := g.queued ++ [q] }

/-- A response to a connection is started. -/
def Gateway.noteReply (g : Gateway) (k : ConnId) : Gateway :=
  { g with replies := Function.update g.replies k (g.replies k + 1) }

-- ============================================================================
-- The in-flight slot table
-- ============================================================================

/-- The id of a slot: 20 bits of its generation, then the slot. -/
def encodeId (gen slot : Nat) : Nat := gen % ntcGenSpan * ntcMaxInflight + slot

/-- The slot of an id (`id & NTC_INFLIGHT_MASK`). -/
def idSlot (id : Nat) : Nat := id % ntcMaxInflight

/-- The generation bits of an id (`id >> NTC_INFLIGHT_BITS`). -/
def idGen (id : Nat) : Nat := id / ntcMaxInflight

/-- `gw_alloc_id`; `none` is the result -1. -/
def gwAllocId (g : Gateway) (k : ConnId) : Option (Nat × Gateway) :=
  match g.slots.alloc k with
  | none => none
  | some (slot, slots) =>
      let id := encodeId (g.slots.gen slot) slot
      some (id,
        { g with slots := slots, issued := ⟨id, k, g.slots.freed slot⟩ :: g.issued })

/-- `gw_free_slot`. -/
def gwFreeSlot (g : Gateway) (slot : Nat) : Gateway :=
  { g with slots := g.slots.free ntcGenWrap slot }

/-- `gw_conn_for_id`. -/
def gwConnForId (f : Flight) (id : Nat) : Option ConnId :=
  match f.slots.pending (idSlot id) with
  | none => none
  | some k => if f.slots.gen (idSlot id) % ntcGenSpan = idGen id then some k else none

end Naitron
