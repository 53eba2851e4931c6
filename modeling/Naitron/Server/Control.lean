/-
  Naitron.Server.Control

  Services over time: supervision, dev-mode reloads and the control plane
  (`dev_teardown_slot` .. `supervise`, `find_service`, `service_add_live`,
  `exec_control_command`, `process_control` and `on_control_readable` of
  server.c).

  Four places destroy a controller connection.  `controller_died` and
  `dev_teardown_slot` first fail the requests that wait on it;
  `service-rm` and `service-scale` go through `destroyReplica`, which does
  not.
-/

import Naitron.Server.Controller

namespace Naitron

variable (E : Ext)

-- ============================================================================
-- Dev mode
-- ============================================================================

/-- `NTC_DEV_POLL_MS`. -/
def ntcDevPollMs : Int := 400

/-- The controller in one entry of a service's `conns[]`. -/
def slotAt (f : Flight) (i s : Nat) : Option CtrlId :=
  (f.services[i]?).bind fun svc => svc.conns s

/-- Take a replica out of its service and free it. -/
def dropReplica (g : Gateway) (i s : Nat) (ct : CtrlId) : Gateway :=
  dropCtrl (g.modService i fun svc => svc.setConn s none) ct

/-- `dev_teardown_slot`. -/
def devTeardownSlot (g : Gateway) (i slot : Nat) : Gateway :=
  match slotAt g.toFlight i slot with
  | none => g
  | some ct =>
      dropReplica (failInflight E ct (lit "\x7b\"error\":\"reloading\"\x7d") g) i slot ct

/-- One iteration of `dev_reload_service`. -/
def devReloadSlot (i : Nat) (g : Gateway) (s : Nat) : Gateway :=
  let g := devTeardownSlot E g i s
  let (a, g) := g.ask E
  g.modService i fun svc =>
    { svc with
      backoffMs := Function.update svc.backoffMs s 0
      restartAt := Function.update svc.restartAt s a.now }

/-- `dev_reload_service`. -/
def devReloadService (g : Gateway) (i : Nat) : Gateway :=
  match g.services[i]? with
  | none => g
  | some svc => (List.range svc.replicas).foldl (devReloadSlot E i) g

/-- The binary watch of `dev_tick` for one service. -/
def devWatchService (g : Gateway) (i : Nat) : Gateway :=
  match g.services[i]? with
  | none => g
  | some svc =>
      if svc.disabled then g
      else
        let (a, g) := g.ask E
        if a.mtime < 0 then g
        else if svc.binMtime = 0 then g.modService i fun svc => { svc with binMtime := a.mtime }
        else if a.mtime ≠ svc.binMtime then
          devReloadService E (g.modService i fun svc => { svc with binMtime := a.mtime }) i
        else g

/-- `dev_tick`.  The source watch only runs the build command. -/
def devTick (g : Gateway) : Gateway :=
  if !g.devWatch then g
  else
    let (a, g) := g.ask E
    if g.devLastPollMs ≠ 0 ∧ a.now - g.devLastPollMs < ntcDevPollMs then g
    else
      let g := { g with devLastPollMs := a.now }
      (List.range g.services.length).foldl (devWatchService E) g

-- ============================================================================
-- Supervision
-- ============================================================================

/-- The body of `supervise` for one replica. -/
def superviseSlot (t : Int) (i : Nat) (g : Gateway) (s : Nat) : Gateway :=
  match g.services[i]? with
  | none => g
  | some svc =>
      match svc.conns s with
      | none =>
          if t < svc.restartAt s then g
          else
            match spawnService E g i s with
            | (.zero, g) => g
            | (.neg, g) =>
                g.modService i fun svc =>
                  let b := nextBackoff (svc.backoffMs s)
                  { svc with
                    backoffMs := Function.update svc.backoffMs s b
                    restartAt := Function.update svc.restartAt s (t + b) }
      | some _ =>
          if ntcBackoffBase < svc.backoffMs s ∧ ntcStableMs < t - svc.spawnedAt s then
            g.modService i fun svc =>
              { svc with backoffMs := Function.update svc.backoffMs s ntcBackoffBase }
          else g

/-- The body of `supervise` for one service. -/
def superviseService (t : Int) (g : Gateway) (i : Nat) : Gateway :=
  match g.services[i]? with
  | none => g
  | some svc =>
      if svc.disabled then g else (List.range svc.replicas).foldl (superviseSlot E t i) g

/-- `supervise`. -/
def supervise (g : Gateway) : Gateway :=
  let (a, g) := g.ask E
  (List.range g.services.length).foldl (superviseService E a.now) g

/-- The spawn loop of `ntc_server_run` for one service. -/
def spawnReplicas (g : Gateway) (i : Nat) : Gateway :=
  match g.services[i]? with
  | none => g
  | some svc => (List.range svc.replicas).foldl (fun g s => (spawnService E g i s).2) g

-- ============================================================================
-- Services
-- ============================================================================

/-- `find_service`: the index of the first service of that name. -/
def findService (f : Flight) (name : Bytes) : Option Nat :=
  f.services.findIdx? fun svc => svc.name == name

/-- `service_add_live`; `neg` is the NULL result. -/
def serviceAddLive (g : Gateway) (name bin : Bytes) : Rc × Gateway :=
  match findService g.toFlight name with
  | some i => (.zero, g.modService i fun svc => { svc with bin := bin, disabled := false })
  | none =>
      if ntcMaxServices ≤ g.services.length then (.neg, g)
      else
        let (a, g) := g.ask E
        if a.ok then
          let i := g.services.length
          let g := { g with services := g.services ++ [{ name := name, bin := bin }] }
          (.zero, (spawnService E g i 0).2)
        else (.neg, g)

/-- Destroy one replica without looking at the requests that wait on it, as
    `service-rm` and `service-scale` do. -/
def destroyReplica (i : Nat) (g : Gateway) (s : Nat) : Gateway :=
  match slotAt g.toFlight i s with
  | none => g
  | some ct => dropReplica g i s ct

/-- The replicas `service-rm` destroys. -/
def serviceRmSlots : List Nat := List.range ntcMaxReplicas

/-- The replicas `service-scale` to `n` destroys. -/
def serviceScaleSlots (svc : Service) (n : Nat) : List Nat :=
  (List.range svc.replicas).filter fun s => n ≤ s

/-- Take a service out of use and destroy its replicas. -/
def disableService (g : Gateway) (i : Nat) : Gateway :=
  serviceRmSlots.foldl (destroyReplica i)
    (g.modService i fun svc => { svc with disabled := true })

-- ============================================================================
-- Commands
-- ============================================================================

/-- `service-add`. -/
def cmdServiceAdd (g : Gateway) (save : Bytes) : Bytes × Gateway :=
  match strtokR save with
  | none => (lit "ERR usage: service-add <name> <bin>\n", g)
  | some (name, save) =>
      match strtokR save with
      | none => (lit "ERR usage: service-add <name> <bin>\n", g)
      | some (bin, _) =>
          let (a, g) := g.ask E
          if !a.ok then (lit "ERR registry write failed\n", g)
          else
            let g := { g with reg := ntcRegistryAddService g.reg name bin }
            match serviceAddLive E g name bin with
            | (.neg, g) => (lit "ERR too many services\n", g)
            | (.zero, g) => (lit "OK service added\n", g)

/-- `route-add`. -/
def cmdRouteAdd (g : Gateway) (save : Bytes) : Bytes × Gateway :=
  let usage := lit "ERR usage: route-add <METHOD> <pattern> <service>\n"
  match strtokR save with
  | none => (usage, g)
  | some (method, save) =>
      match strtokR save with
      | none => (usage, g)
      | some (pattern, save) =>
          match strtokR save with
          | none => (usage, g)
          | some (svcname, _) =>
              let (a, g) := g.ask E
              match (if a.ok then ntcRegistryAddRoute g.reg method pattern svcname else none) with
              | none => (lit "ERR unknown service\n", g)
              | some reg =>
                  let g := { g with reg := reg }
                  match findService g.toFlight svcname with
                  | none => (lit "ERR service not loaded\n", g)
                  | some i =>
                      -- the route table grows and copies both strings first
                      let (m, g) := g.ask E
                      match (if m.ok then ntcRouterAdd g.router method pattern (.forward i)
                        else none) with
                      | none => (lit "ERR route register failed\n", g)
                      | some router => (lit "OK route added\n", { g with router := router })

/-- `service-rm`. -/
def cmdServiceRm (g : Gateway) (save : Bytes) : Bytes × Gateway :=
  match strtokR save with
  | none => (lit "ERR usage: service-rm <name>\n", g)
  | some (name, _) =>
      let (a, g) := g.ask E
      let (found, reg) := if a.ok then ntcRegistryRemoveService g.reg name else (false, g.reg)
      let g := { g with reg := reg }
      let g :=
        match findService g.toFlight name with
        | none => g
        | some i => disableService g i
      (if found then lit "OK service removed\n" else lit "ERR not found\n", g)

/-- `service-scale`. -/
def cmdServiceScale (g : Gateway) (save : Bytes) : Bytes × Gateway :=
  let usage := lit "ERR usage: service-scale <name> <replicas>\n"
  match strtokR save with
  | none => (usage, g)
  | some (name, save) =>
      match strtokR save with
      | none => (usage, g)
      | some (ns, _) =>
          let n := (atoi ns).toNat
          if hn : 0 < n ∧ n ≤ ntcMaxReplicas then
            match findService g.toFlight name with
            | none => (lit "ERR service not loaded\n", g)
            | some i =>
                match g.services[i]? with
                | none => (lit "ERR service not loaded\n", g)
                | some svc =>
                    let g := (serviceScaleSlots svc n).foldl (destroyReplica i) g
                    let g := g.modService i fun svc =>
                      { svc with replicas := n, replicas_pos := hn.1, replicas_le := hn.2 }
                    let (a, g) := g.ask E
                    let key := clip 160 (lit "replicas:" ++ name)
                    let g := { g with
                      reg := if a.ok then ntcRegistrySetConfig g.reg key ns else g.reg }
                    (lit "OK scaled " ++ name ++ lit " to " ++ decimal n ++ lit " replicas\n", g)
          else (lit "ERR replicas must be 1..8\n", g)

/-- `config-set`. -/
def cmdConfigSet (g : Gateway) (save : Bytes) : Bytes × Gateway :=
  let usage := lit "ERR usage: config-set <key> <value>\n"
  match strtokR save with
  | none => (usage, g)
  | some (key, save) =>
      let val := save.dropWhile (· == chSpace)
      if val.isEmpty then (usage, g)
      else
        let (a, g) := g.ask E
        if !a.ok then (lit "ERR write failed\n", g)
        else
          let g := { g with reg := ntcRegistrySetConfig g.reg key val }
          (lit "OK config set\n",
            if key = lit "app.name" then { g with appName := .set 128 val } else g)

/-- `config-get`. -/
def cmdConfigGet (g : Gateway) (save : Bytes) : Bytes × Gateway :=
  match strtokR save with
  | none => (lit "ERR usage: config-get <key>\n", g)
  | some (key, _) =>
      let (a, g) := g.ask E
      match (if a.ok then ntcRegistryGetConfig g.reg key 512 else none) with
      | some val => (lit "OK " ++ val ++ [chLf], g)
      | none => (lit "ERR not found\n", g)

/-- `exec_control_command`: the reply line, before `snprintf` cuts it to the
    caller's buffer, and the gateway afterwards. -/
def execControlCommand (g : Gateway) (cmdline : Bytes) : Bytes × Gateway :=
  match strtokR cmdline with
  | none => (lit "ERR empty command\n", g)
  | some (cmd, save) =>
      if cmd = lit "ping" then (lit "OK pong\n", g)
      else if cmd = lit "status" then (E.report cmd g.tick, g)
      else if cmd = lit "service-add" then cmdServiceAdd E g save
      else if cmd = lit "route-add" then cmdRouteAdd E g save
      else if cmd = lit "service-rm" then cmdServiceRm E g save
      else if cmd = lit "service-scale" then cmdServiceScale E g save
      else if cmd = lit "service-list" then (E.report cmd g.tick, g)
      else if cmd = lit "route-list" then (E.report cmd g.tick, g)
      else if cmd = lit "config-set" then cmdConfigSet E g save
      else if cmd = lit "config-get" then cmdConfigGet E g save
      else if cmd = lit "stop" then (lit "OK stopping\n", { g with stop := true })
      else (lit "ERR unknown command\n", g)

-- ============================================================================
-- Control clients
-- ============================================================================

/-- Size of a control client's buffer. -/
def cctrlBuf : Nat := 4096

/-- The command of a control line, `none` when the token is wrong: the line
    ends at a newline or NUL and is cut at its first space. -/
def controlCommand (token : Bytes) (buf : Bytes) : Option Bytes :=
  let line := cstr (buf.takeWhile (· != chLf))
  if line.takeWhile (· != chSpace) = token then
    some ((line.dropWhile (· != chSpace)).drop 1)
  else none

/-- Drop a control client (`cctrl_reply` closes it after writing). -/
def dropCctrl (g : Gateway) (cc : CctrlId) : Gateway :=
  { g with cctrls := Function.update g.cctrls cc none }

/-- `process_control` on the buffered line. -/
def processControl (g : Gateway) (cc : CctrlId) (buf : Bytes) : Gateway :=
  match controlCommand g.token.bytes buf with
  | none => dropCctrl g cc
  | some cmd => dropCctrl (execControlCommand E g cmd).2 cc

/-- How the `recv` loop of `on_control_readable` ends: with a line to process,
    with the client gone, or waiting for more. -/
inductive ControlRead where
  | line (buf : Bytes)
  | gone
  | wait (buf : Bytes)
deriving DecidableEq, Repr

/-- The `recv` loop of `on_control_readable`; a `recv` never returns more than
    the room it was given. -/
def controlRecv : List RecvResult → Bytes → ControlRead
  | rs, buf =>
      if cctrlBuf - 1 ≤ buf.length then .line buf
      else
        match rs with
        | [] => .wait buf
        | .data b bs :: rs =>
            let buf := buf ++ (b :: bs).take (cctrlBuf - 1 - buf.length)
            if buf.contains chLf then .line buf else controlRecv rs buf
        | .eof :: _ => .gone
        | .eintr :: rs => controlRecv rs buf
        | .eagain :: _ => .wait buf
        | .error :: _ => .gone

/-- `on_control_readable`. -/
def onControlReadable (g : Gateway) (cc : CctrlId) (rs : List RecvResult) : Gateway :=
  match g.cctrls cc with
  | none => g
  | some x =>
      match controlRecv rs x.buf with
      | .line buf => processControl E g cc buf
      | .gone => dropCctrl g cc
      | .wait buf => { g with cctrls := Function.update g.cctrls cc (some ⟨buf⟩) }

end Naitron
