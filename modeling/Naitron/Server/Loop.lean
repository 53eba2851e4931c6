/-
  Naitron.Server.Loop

  The event loop of `ntc_server_run`: accepting, dispatching one poll event,
  a batch of them, and the work between batches.

  An event carries the object that was registered with the poller, the
  readiness bits, and what the socket will give while it is handled.
  `Reachable` is every state that events and ticks in any order lead to.
-/

import Naitron.Server.Dispatch

namespace Naitron

variable (E : Ext)

-- ============================================================================
-- Accepting
-- ============================================================================

/-- One accepted client; `ok` is whether memory, TLS engine and poller accept
    it too. -/
structure Accepted where
  ip : CStr 46
  ok : Bool

/-- The body of the `accept_conns` loop for one client. -/
def acceptConn (isAdmin isTls : Bool) (g : Gateway) (a : Accepted) : Gateway :=
  if a.ok then
    { g with
      conns := Function.update g.conns g.nconn
        (some { isAdmin := isAdmin, tls := isTls, clientIp := a.ip })
      nconn := g.nconn + 1
      replies := Function.update g.replies g.nconn 0
      sent := Function.update g.sent g.nconn [] }
  else g

/-- `accept_conns`. -/
def acceptConns (g : Gateway) (isAdmin isTls : Bool) (as : List Accepted) : Gateway :=
  as.foldl (acceptConn isAdmin isTls) g

/-- `accept_control` for one client. -/
def acceptCctrl (g : Gateway) (ok : Bool) : Gateway :=
  if ok then
    { g with
      cctrls := Function.update g.cctrls g.ncctrl (some {})
      ncctrl := g.ncctrl + 1 }
  else g

-- ============================================================================
-- Events
-- ============================================================================

/-- What a client socket gives while its event is handled. -/
structure ClientInput where
  recvs : List RecvResult := []
  tls : TlsInput := ⟨true, [], false⟩

/-- What a controller socket gives while its event is handled. -/
structure CtrlInput where
  recvs : List RecvResult := []
  sends : List SendResult := []

/-- A poll event: a listener, or an object with its readiness bits. -/
inductive Event where
  | listen (isAdmin isTls : Bool) (as : List Accepted)
  | listenControl (oks : List Bool)
  | control (cc : CctrlId) (read : Bool) (rs : List RecvResult)
  | ctrl (ct : CtrlId) (read write : Bool) (i : CtrlInput)
  | client (k : ConnId) (read write : Bool) (i : ClientInput)

/-- The `KIND_CTRL` branch of the loop. -/
def onCtrlEvent (g : Gateway) (ct : CtrlId) (read write : Bool) (i : CtrlInput) : Gateway :=
  match (if read then onCtrlReadable E g ct i.recvs else (.zero, g)) with
  | (.neg, g) => g
  | (.zero, g) => if write then onCtrlWritable E g ct i.sends else g

/-- The `KIND_HTTP` branch of the loop. -/
def onClientEvent (g : Gateway) (k : ConnId) (read write : Bool) (i : ClientInput) : Gateway :=
  match g.conns k with
  | none => g
  | some c =>
      if c.tls then onTlsEvent E g k i.tls
      else
        match c.state with
        | .csRead => if read then (onReadable E g k i.recvs).2 else g
        | .csWait => if read then onWaitReadable E g k i.recvs else g
        | .csStream =>
            match (if write then onWritable E g k else (.zero, g)) with
            | (.neg, g) => g
            | (.zero, g) => if read then onWaitReadable E g k i.recvs else g
        | .csWs =>
            match (if write then onWritable E g k else (.zero, g)) with
            | (.neg, g) => g
            | (.zero, g) => if read then (onWsReadable E g k i.recvs).2 else g
        | .csWrite => if write then (onWritable E g k).2 else g

/-- One iteration of the `for` loop over a batch. -/
def handleEvent (g : Gateway) : Event → Gateway
  | .listen isAdmin isTls as => acceptConns g isAdmin isTls as
  | .listenControl oks => oks.foldl acceptCctrl g
  | .control cc read rs => if read then onControlReadable E g cc rs else g
  | .ctrl ct read write i => onCtrlEvent E g ct read write i
  | .client k read write i => onClientEvent E g k read write i

/-- The work after a batch. -/
def afterBatch (g : Gateway) : Gateway := supervise E (devTick E g)

/-- One turn of the main loop. -/
def serveBatch (g : Gateway) (evs : List Event) : Gateway :=
  afterBatch E (evs.foldl (handleEvent E) g)

-- ============================================================================
-- Runs
-- ============================================================================

/-- A step of the gateway: an event, or the work between batches. -/
inductive Input where
  | event (e : Event)
  | tick

/-- The state after a step. -/
def step (g : Gateway) : Input → Gateway
  | .event e => handleEvent E g e
  | .tick => afterBatch E g

/-- The gateway as `ntc_server_run` enters its loop: no client yet, no slot in
    use; registry, router and configuration are whatever was loaded. -/
structure Fresh (g : Gateway) : Prop where
  conns : ∀ k, g.conns k = none
  ctrls : ∀ ct, g.ctrls ct = none
  noReplica : ∀ i s, slotAt g.toFlight i s = none
  slots : g.slots = Lib.GenTable.init ConnId ntcMaxInflight
  issued : g.issued = []
  received : ∀ ct, g.received ct = []
  delivered : ∀ ct, g.delivered ct = []
  queued : g.queued = []

/-- The gateway that `ntc_server_run` sets up for a list of services and
    routes, with nothing else configured. -/
def bootGateway (services : List Service) (router : NtcRouter) (token : CStr 65) : Gateway where
  conns _ := none
  nconn := 0
  ctrls _ := none
  nctrl := 0
  services := services
  cctrls _ := none
  ncctrl := 0
  slots := Lib.GenTable.init ConnId ntcMaxInflight
  issued := []
  replies _ := 0
  sent _ := []
  received _ := []
  delivered _ := []
  queued := []
  lost := []
  written _ := []
  router := router
  reg := {}
  mw := none
  token := token
  appName := .set 128 (lit "naitron-c app")
  oauthEnabled := false
  hasSessions := false
  schemaRoot := none
  maxBody := ntcConnRbuf
  devWatch := false
  devLastPollMs := 0
  stop := false
  tick := 0

theorem bootGateway_fresh {services : List Service} (h : ∀ svc ∈ services, ∀ s, svc.conns s = none)
    (router : NtcRouter) (token : CStr 65) : Fresh (bootGateway services router token) where
  conns _ := rfl
  ctrls _ := rfl
  noReplica i s := by
    change ((services[i]?).bind fun svc => svc.conns s) = none
    cases hsvc : services[i]? with
    | none => rfl
    | some svc => exact h svc (List.mem_of_getElem? hsvc) s
  slots := rfl
  issued := rfl
  received _ := rfl
  delivered _ := rfl
  queued := rfl

/-- An answer of an environment in which every call succeeds and every socket
    would block. -/
def quietAnswer : Answer := { mw := ⟨.empty 40, 0, 0, 0, none⟩ }

/-- The environment with the given answers and nothing to say otherwise. -/
def Ext.ofAnswers (io : Nat → Answer) : Ext where
  io := io
  gzip _ := none
  wsAcceptKey _ := []
  jwt := ⟨fun _ => none, fun _ _ _ => none, fun _ _ _ _ => none, fun _ _ _ => none, fun _ => none⟩
  page _ _ _ := ⟨200, ctJson, [], none⟩
  staticFile _ _ := none
  mcpCommand _ := none
  mcpReply _ _ := []
  report _ _ := []

/-- The spawn loop before the first batch. -/
def startServices (g : Gateway) : Gateway :=
  (List.range g.services.length).foldl (spawnReplicas E) g

/-- States reached from a start by steps that satisfy `P`. -/
inductive ReachableBy (P : Gateway → Input → Prop) : Gateway → Prop
  | start (g : Gateway) (h : Fresh g) : ReachableBy P (startServices E g)
  | step (g : Gateway) (i : Input) (hg : ReachableBy P g) (hi : P g i) : ReachableBy P (step E g i)

/-- Every state of every run. -/
abbrev Reachable (g : Gateway) : Prop := ReachableBy E (fun _ _ => True) g

/-- A batch handled event by event. -/
theorem Reachable.handleEvents {g : Gateway} (hg : Reachable E g) (evs : List Event) :
    Reachable E (evs.foldl (handleEvent E) g) := by
  induction evs generalizing g with
  | nil => exact hg
  | cons e evs ih => exact ih (.step g (.event e) hg trivial)

/-- A whole turn of the main loop leads from a state of a run to another. -/
theorem Reachable.serveBatch {g : Gateway} (hg : Reachable E g) (evs : List Event) :
    Reachable E (serveBatch E g evs) :=
  .step _ .tick (Reachable.handleEvents E hg evs) trivial

end Naitron
