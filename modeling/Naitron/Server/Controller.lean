/-
  Naitron.Server.Controller

  Controller connections: replica selection, spawning, death, the frame loop
  and the write loop (`svc_pick` .. `spawn_service`, `controller_died`,
  `on_ctrl_writable` and `on_ctrl_readable` of server.c).
-/

import Naitron.Server.Deliver

namespace Naitron

variable (E : Ext)

-- ============================================================================
-- Replicas
-- ============================================================================

/-- `svc_pick`: round-robin over the live replicas, with the cursor moved. -/
def svcPick (svc : Service) : Option (CtrlId × Nat) :=
  (List.range svc.replicas).findSome? fun k =>
    let i := (svc.rr + k) % svc.replicas
    (svc.conns i).map fun ct => (ct, (i + 1) % svc.replicas)

/-- `svc_slot_of`; `none` is the result -1. -/
def svcSlotOf (svc : Service) (ct : CtrlId) : Option Nat :=
  (List.range ntcMaxReplicas).find? fun i => svc.conns i == some ct

/-- Double a backoff up to `NTC_BACKOFF_MAX`. -/
def nextBackoff (b : Int) : Int :=
  min (if b ≠ 0 then b * 2 else ntcBackoffBase) ntcBackoffMax

/-- Put `v` into one entry of a service's `conns[]`. -/
def Service.setConn (svc : Service) (s : Nat) (v : Option CtrlId) : Service :=
  { svc with conns := Function.update svc.conns s v }

/-- `spawn_service`: the environment decides whether process, handshake and
    registration succeed. -/
def spawnService (g : Gateway) (i slot : Nat) : Rc × Gateway :=
  let (a, g) := g.ask E
  if a.ok then
    let ct := g.nctrl
    let g := g.modService i fun svc =>
      { svc.setConn slot (some ct) with
        spawnedAt := Function.update svc.spawnedAt slot a.now }
    (.zero,
      { g with
        ctrls := Function.update g.ctrls ct (some { svc := i, slot := slot })
        nctrl := ct + 1
        received := Function.update g.received ct []
        delivered := Function.update g.delivered ct []
        written := Function.update g.written ct [] })
  else (.neg, g)

-- ============================================================================
-- Death
-- ============================================================================

/-- One iteration of the loop that fails the requests waiting on a
    controller: free the slot, then cut a response already begun or answer
    502. -/
def failSlot (ct : CtrlId) (body : Bytes) (g : Gateway) (i : Nat) : Gateway :=
  match g.slots.pending i with
  | none => g
  | some k =>
      match g.conns k with
      | none => g
      | some c =>
          if c.waitCtrl ≠ some ct then g
          else
            let g := releaseSlot g k i
            if c.streamHeadSent then connClose E g k
            else (respondAndFlush E g k 502 body).2

/-- The loop over all slots, shared by `controller_died` and
    `dev_teardown_slot`. -/
def failInflight (ct : CtrlId) (body : Bytes) (g : Gateway) : Gateway :=
  (List.range ntcMaxInflight).foldl (failSlot E ct body) g

/-- Free a controller object. -/
def dropCtrl (g : Gateway) (ct : CtrlId) : Gateway :=
  { g with ctrls := Function.update g.ctrls ct none }

/-- The service entry of a dead controller: slot emptied, backoff doubled,
    restart scheduled. -/
def noteDeath (now : Int) (ct : CtrlId) (svc : Service) : Service :=
  match svcSlotOf svc ct with
  | none => svc
  | some s =>
      let b := nextBackoff (svc.backoffMs s)
      { svc.setConn s none with
        backoffMs := Function.update svc.backoffMs s b
        restartAt := Function.update svc.restartAt s (now + b) }

/-- The end of `controller_died`: schedule the restart and free the object. -/
def buryCtrl (g : Gateway) (i : Nat) (ct : CtrlId) : Gateway :=
  let (a, g) := g.ask E
  dropCtrl (g.modService i (noteDeath a.now ct)) ct

/-- `controller_died`. -/
def controllerDied (g : Gateway) (ct : CtrlId) : Gateway :=
  match g.ctrls ct with
  | none => g
  | some t =>
      buryCtrl E (failInflight E ct (lit "\x7b\"error\":\"controller died\"\x7d") g) t.svc ct

-- ============================================================================
-- Writing
-- ============================================================================

/-- `on_ctrl_writable` on a socket that answers with `ss`. -/
def onCtrlWritable (g : Gateway) (ct : CtrlId) (ss : List SendResult) : Gateway :=
  match g.ctrls ct with
  | none => g
  | some t =>
      let r := sendLoop t.wbuf.length ss t.wsent
      let g := g.write ct (slicePart t.wbuf t.wsent r.2)
      match r.1 with
      | .failed => controllerDied E g ct
      | .blocked => g.modCtrl ct fun t => { t with wsent := r.2 }
      | .done => g.modCtrl ct fun t => { t with wbuf := [], wsent := 0 }

-- ============================================================================
-- Reading
-- ============================================================================

/-- The `recv` loop of `on_ctrl_readable` on the bytes already buffered:
    whether it gives up on the controller (end of file, error, no memory, more
    than `NTC_CTRL_MAX_RBUF` bytes) and the bytes buffered by then.  A list
    that runs out stands for a socket that would block. -/
def ctrlRecv : List RecvResult → Bytes → Bool × Bytes
  | [], buf => (false, buf)
  | .data b bs :: rs, buf =>
      let buf := buf ++ b :: bs
      if ntcCtrlMaxRbuf < buf.length then (true, buf) else ctrlRecv rs buf
  | .eof :: _, buf => (true, buf)
  | .eintr :: rs, buf => ctrlRecv rs buf
  | .eagain :: _, buf => (false, buf)
  | .error :: _, buf => (true, buf)

/-- One turn of the frame loop: dispatch, and note it. -/
def deliverFrame (ct : CtrlId) (g : Gateway) (f : WireFrame) : Gateway :=
  let g := dispatchFrame E g f
  { g with delivered := Function.update g.delivered ct (g.delivered ct ++ [f]) }

/-- The controller's buffer after the `recv` loop. -/
def fillCtrl (g : Gateway) (ct : CtrlId) (t : Ctrl) (buf : Bytes) : Gateway :=
  let g := g.modCtrl ct fun t => { t with rbuf := buf }
  { g with
    received := Function.update g.received ct (g.received ct ++ buf.drop t.rbuf.length) }

/-- The frame loop of `on_ctrl_readable`.  It reads `ct->rbuf`, which nothing
    it calls changes, so the frames are cut beforehand. -/
def readFrames (g : Gateway) (ct : CtrlId) (buf : Bytes) : Rc × Gateway :=
  let s := scanFrames buf.length buf
  let g := s.1.foldl (deliverFrame E ct) g
  match s.2.1 with
  | .bad => (.neg, controllerDied E g ct)
  | .needMore => (.zero, g.modCtrl ct fun t => { t with rbuf := s.2.2 })

/-- `on_ctrl_readable`. -/
def onCtrlReadable (g : Gateway) (ct : CtrlId) (rs : List RecvResult) : Rc × Gateway :=
  match g.ctrls ct with
  | none => (.neg, g)
  | some t =>
      let r := ctrlRecv rs t.rbuf
      let g := fillCtrl g ct t r.2
      if r.1 then (.neg, controllerDied E g ct) else readFrames E g ct r.2

end Naitron
