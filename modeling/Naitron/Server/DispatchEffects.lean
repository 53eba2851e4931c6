/-
  Naitron.Server.DispatchEffects

  The functions of Naitron.Server.Dispatch and Naitron.Server.Loop as moves.

  Serving a client touches its own connection, the cursor of the service it
  is sent to, and the slot table (`Serve k`); an admin request may also run a
  control command.  `eventCommand` is the command an event runs, read off the
  state before it, and `Handles` is everything an event can do.
-/

import Naitron.Server.ServiceEffects

namespace Naitron

variable (E : Ext)

/-- What serving a client does. -/
def Serve (k : ConnId) (l : Label) : Prop :=
  Own k l ∨ l = .svc ∨ (∃ ct, l = .alloc k ct) ∨ l = .bounce k

theorem own_serve {k : ConnId} {f f' : Flight} (h : Moves (Own k) f f') : Moves (Serve k) f f' :=
  h.mono fun _ hl => Or.inl hl

-- ============================================================================
-- Forwarding
-- ============================================================================

/-- A slot taken and, since the frame could not be queued, given back. -/
theorem bounce_moves {g g₁ g₂ : Gateway} {k : ConnId} {id : Nat} {target : CtrlId}
    {type : NtcMsgType} {enc : Bytes} (ha : gwAllocId g k = some (id, g₁))
    (hq : ctrlQueue E g₁ target k type id enc = (.neg, g₂)) :
    Moves (Serve k) g.toFlight (gwFreeSlot g₂ (idSlot id)).toFlight := by
  have heq : g₂.toFlight =
      { g₁.toFlight with lost := g₁.lost ++ [⟨target, k, type, id, enc⟩] } := by
    have hcases := ctrlQueue_cases E g₁ target k type id enc
    rw [hq] at hcases
    obtain ⟨_, _, _, _, hrc, _⟩ | ⟨_, hrc, _⟩ | ⟨_, heq⟩ := hcases
    · cases hrc
    · cases hrc
    · exact heq
  unfold gwAllocId at ha
  split at ha
  · cases ha
  · rename_i slot slots halloc
    cases ha
    have hfinal : (gwFreeSlot g₂ (idSlot (encodeId (g.slots.gen slot) slot))).toFlight =
        { g.toFlight with
          lost := g.lost ++ [⟨target, k, type, encodeId (g.slots.gen slot) slot, enc⟩]
          slots := slots.free ntcGenWrap (idSlot (encodeId (g.slots.gen slot) slot))
          issued := ⟨encodeId (g.slots.gen slot) slot, k, g.slots.freed slot⟩ :: g.issued } := by
      simp only [gwFreeSlot, heq]
    rw [hfinal]
    have hlose : Moves (Serve k) g.toFlight { g.toFlight with
        lost := g.lost ++ [⟨target, k, type, encodeId (g.slots.gen slot) slot, enc⟩] } :=
      .one (.lose ⟨target, k, type, _, enc⟩) (Or.inl trivial)
    exact hlose.trans (.one (.bounce k slot slots halloc) (Or.inr (Or.inr (Or.inr rfl))))

/-- A slot taken, the frame queued, and the connection put to wait. -/
theorem enqueue_moves {g g₁ g₂ : Gateway} (h : CtrlInv g.toFlight) {k : ConnId} {c : Conn}
    {id : Nat} {target : CtrlId} {type : NtcMsgType} {enc : Bytes} {F : Conn → Conn}
    (hc : g.conns k = some c) (hidle : IdleConn c)
    (hlive : ∃ i s, slotAt g.toFlight i s = some target) (ha : gwAllocId g k = some (id, g₁))
    (hq : ctrlQueue E g₁ target k type id enc = (.zero, g₂)) (hopen : Opens (F c) type target)
    (hid : (F c).reqId = id) :
    Moves (Serve k) g.toFlight (g₂.modConn k F).toFlight := by
  unfold gwAllocId at ha
  split at ha
  · cases ha
  · rename_i slot slots halloc
    cases ha
    have hlisted : ∃ t, g.ctrls target = some t := by
      obtain ⟨i, s, hat⟩ := hlive
      obtain ⟨t, ht, -⟩ := h.owner i s target hat
      exact ⟨t, ht⟩
    obtain ⟨t, t', ht, hk, heq⟩ : ∃ t t', g.ctrls target = some t ∧ KeepsCtrl t t' ∧
        g₂.toFlight =
          { g.toFlight with
            slots := slots
            issued := ⟨encodeId (g.slots.gen slot) slot, k, g.slots.freed slot⟩ :: g.issued
            ctrls := Function.update g.ctrls target (some t')
            queued := g.queued ++
              [⟨target, k, type, encodeId (g.slots.gen slot) slot, enc⟩] } := by
      have hcases := ctrlQueue_cases E { g with
        slots := slots
        issued := ⟨encodeId (g.slots.gen slot) slot, k, g.slots.freed slot⟩ :: g.issued }
        target k type (encodeId (g.slots.gen slot) slot) enc
      rw [hq] at hcases
      obtain ⟨t, t', ht, hk, -, heq⟩ | ⟨ht, -, -⟩ | ⟨hrc, -⟩ := hcases
      · exact ⟨t, t', ht, hk, heq⟩
      · obtain ⟨t, ht'⟩ := hlisted
        rw [ht'] at ht
        cases ht
      · cases hrc
    have hstep := Micro.alloc k target c (F c) slot slots t t' type enc hc hidle halloc hopen hid
      hlive ht hk
    have hconn : g₂.conns k = some c := by
      rw [heq]
      exact hc
    have hfinal : (g₂.modConn k F).toFlight =
        { g.toFlight with
          conns := Function.update g.conns k (some (F c))
          slots := slots
          issued := ⟨(F c).reqId, k, g.slots.freed slot⟩ :: g.issued
          ctrls := Function.update g.ctrls target (some t')
          queued := g.queued ++ [⟨target, k, type, (F c).reqId, enc⟩] } := by
      simp only [Gateway.modConn, hconn]
      rw [heq, hid]
    rw [hfinal]
    exact .one hstep (Or.inr (Or.inr (Or.inl ⟨target, rfl⟩)))

/-- The picked replica is live, and picking moves only the cursor. -/
theorem pickTarget_moves {g g₁ : Gateway} {svc : Nat} {target : CtrlId}
    (h : pickTarget g svc = some (target, g₁)) :
    Moves (· = .svc) g.toFlight g₁.toFlight ∧ g₁.conns = g.conns ∧
      ∃ i s, slotAt g₁.toFlight i s = some target := by
  unfold pickTarget at h
  split at h
  · cases h
  · rename_i s hs
    split at h
    · cases h
    · obtain ⟨⟨ct, rr⟩, hpick, heq⟩ := Option.map_eq_some_iff.mp h
      cases heq
      have hmove : Moves (· = .svc) g.toFlight
          (g.modService svc fun s => { s with rr := rr }).toFlight :=
        modService_svc_moves fun s => rfl
      obtain ⟨n, -, hn⟩ := List.exists_of_findSome?_eq_some hpick
      obtain ⟨ct', hct', heq⟩ := Option.map_eq_some_iff.mp hn
      cases heq
      refine ⟨hmove, rfl, svc, (s.rr + n) % s.replicas, ?_⟩
      refine (slotAt_modify g.toFlight svc _ svc _).trans ?_
      simp [hs, hct']

theorem svc_serve {k : ConnId} {f f' : Flight} (h : Moves (· = .svc) f f') :
    Moves (Serve k) f f' :=
  h.mono fun _ hl => Or.inr (Or.inl hl)

theorem reply_serve (g : Gateway) (k : ConnId) (status : Nat) (body : Bytes) :
    Moves (Serve k) g.toFlight (respondAndFlush E g k status body).2.toFlight :=
  own_serve (respondAndFlush_moves E g k status body)

theorem gwForward_moves {g : Gateway} (h : CtrlInv g.toFlight) {k : ConnId} {c : Conn}
    (hc : g.conns k = some c) (hidle : IdleConn c) (req : NtcRequest) (svc : Nat) :
    Moves (Serve k) g.toFlight (gwForward E g k req svc).2.toFlight := by
  unfold gwForward
  split
  · exact reply_serve E g k _ _
  · rename_i target g₁ hpick
    obtain ⟨hcursor, hconns, hlive⟩ := pickTarget_moves hpick
    have h₁ := Moves.ctrlInv hcursor h
    refine (svc_serve hcursor).trans ?_
    rw [← hconns] at hc
    dsimp only
    split
    · exact reply_serve E (g₁.ask E).2 k _ _
    · split
      · exact reply_serve E (g₁.ask E).2 k _ _
      · split
        · exact reply_serve E (g₁.ask E).2 k _ _
        · rename_i id g₂ halloc
          split
          · rename_i hq
            exact (bounce_moves E (g := (g₁.ask E).2) halloc hq).trans (reply_serve E _ k _ _)
          · rename_i hq
            refine enqueue_moves E (g := (g₁.ask E).2) h₁ hc hidle hlive halloc hq ?_ rfl
            exact ⟨by simp [hidle.isWs], rfl, rfl, by simp, fun h => by cases h⟩

theorem gwWsUpgrade_moves {g : Gateway} (h : CtrlInv g.toFlight) {k : ConnId} {c : Conn}
    (hc : g.conns k = some c) (hidle : IdleConn c) (req : NtcRequest) (svc : Nat) :
    Moves (Serve k) g.toFlight (gwWsUpgrade E g k req svc).2.toFlight := by
  unfold gwWsUpgrade
  simp only [hc]
  split
  · exact reply_serve E g k _ _
  · split
    · exact reply_serve E g k _ _
    · rename_i target g₁ hpick
      obtain ⟨hcursor, hconns, hlive⟩ := pickTarget_moves hpick
      have h₁ := Moves.ctrlInv hcursor h
      refine (svc_serve hcursor).trans ?_
      rw [← hconns] at hc
      split
      · exact reply_serve E g₁ k _ _
      · split
        · exact reply_serve E (g₁.ask E).2 k _ _
        · split
          · exact reply_serve E (g₁.ask E).2 k _ _
          · split
            · exact reply_serve E (g₁.ask E).2 k _ _
            · rename_i id g₂ halloc
              split
              · rename_i hq
                exact (bounce_moves E (g := (g₁.ask E).2) halloc hq).trans (reply_serve E _ k _ _)
              · rename_i hq
                refine .trans (enqueue_moves E (g := (g₁.ask E).2) h₁ hc hidle hlive halloc hq ?_ rfl)
                  (own_serve ((noteReply_moves _ k).trans (streamPush_moves E _ k _)))
                exact ⟨rfl, rfl, rfl, by simp, fun _ => rfl⟩

-- ============================================================================
-- Dispatch
-- ============================================================================

theorem sendPage_moves (g : Gateway) (k : ConnId) (p : Page) :
    Moves (Own k) g.toFlight (sendPage E g k p).2.toFlight := by
  unfold sendPage
  dsimp only
  split
  · exact sendResp_moves E g k _ _ _
  · refine .trans (modConn_moves' ?_) (sendResp_moves E _ k _ _ _)
    exact fun c => .of_state rfl rfl rfl rfl rfl

theorem serveReserved_moves (g : Gateway) (k : ConnId) (req : NtcRequest) :
    Moves (Own k) g.toFlight (serveReserved E g k req).2.toFlight := by
  unfold serveReserved
  by_cases hhealth : req.path = lit "/_ntc/health"
  · rw [if_pos hhealth]
    exact sendResp_moves E g k _ _ _
  rw [if_neg hhealth]
  by_cases hready : req.path = lit "/_ntc/ready"
  · rw [if_pos hready]
    exact sendResp_moves E g k _ _ _
  rw [if_neg hready]
  by_cases hopenapi : req.path = lit "/_ntc/openapi.json"
  · rw [if_pos hopenapi]
    exact sendPage_moves E g k _
  · rw [if_neg hopenapi]
    exact sendResp_moves E g k _ _ _

theorem serveUnrouted_moves (g : Gateway) (k : ConnId) (req : NtcRequest) :
    Moves (Own k) g.toFlight (serveUnrouted E g k req).2.toFlight := by
  unfold serveUnrouted
  split
  · exact sendPage_moves E g k _
  · dsimp only
    split
    · exact sendPage_moves E (g.ask E).2 k _
    · exact respondAndFlush_moves E (g.ask E).2 k _ _

theorem gwValidateBody_moves (g : Gateway) (k : ConnId) (req : NtcRequest) :
    Moves (Own k) g.toFlight (gwValidateBody E g k req).2.toFlight := by
  unfold gwValidateBody
  dsimp only
  split
  · exact .refl _
  · exact respondAndFlush_moves E (g.ask E).2 k _ _

/-- A connection that its own moves leave there was there, and is the same but
    for its slot. -/
theorem Micro.own_conn {f f' : Flight} {k : ConnId} {l : Label} {c' : Conn} (hm : Micro f l f')
    (hl : Own k l) (hc' : f'.conns k = some c') :
    ∃ c, f.conns k = some c ∧ (Keeps c c' ∨ c' = { c with inflight := false }) := by
  have hsame : ∀ {c : Conn}, Keeps c c := .of_state rfl rfl rfl rfl rfl
  cases hm with
  | tune j d d' hd hk =>
      cases hl
      simp only [Function.update_self] at hc'
      cases hc'
      exact ⟨d, hd, Or.inl hk⟩
  | release j s d hd =>
      cases hl
      simp only [Function.update_self] at hc'
      cases hc'
      exact ⟨d, hd, Or.inr rfl⟩
  | close j | notice j =>
      cases hl
      simp only [Function.update_self] at hc'
      cases hc'
  | emit | reply | queue | write | lose | relay => exact ⟨c', hc', Or.inl hsame⟩
  | _ => cases hl

/-- The connection, if it is there, has no request in flight. -/
def NotInflight (f : Flight) (k : ConnId) : Prop := ∀ c, f.conns k = some c → c.inflight = false

theorem Moves.own_notInflight {f f' : Flight} {k : ConnId} (hm : Moves (Own k) f f')
    (h : NotInflight f k) : NotInflight f' k := by
  refine hm.keep (I := fun x => NotInflight x k) (fun hl hm hs c' hc' => ?_) h
  obtain ⟨c, hc, hk | rfl⟩ := hm.own_conn hl hc'
  · exact hk.inflight.trans (hs c hc)
  · rfl

/-- The connection, if it is there, has not been given to a controller. -/
def StillIdle (f : Flight) (k : ConnId) : Prop := ∀ c, f.conns k = some c → IdleConn c

theorem Moves.own_stillIdle {f f' : Flight} {k : ConnId} (hm : Moves (Own k) f f')
    (h : StillIdle f k) : StillIdle f' k := by
  refine hm.keep (I := fun x => StillIdle x k) (fun hl hm hs c' hc' => ?_) h
  obtain ⟨c, hc, hk | rfl⟩ := hm.own_conn hl hc'
  · exact (hs c hc).keeps hk
  · exact ⟨rfl, (hs c hc).waitCtrl, (hs c hc).isWs⟩

theorem dispatchForward_moves {g : Gateway} (hctrl : CtrlInv g.toFlight) {k : ConnId}
    (h : StillIdle g.toFlight k) (req : NtcRequest) (params : List NtcHeader) (svc : Nat) :
    Moves (Serve k) g.toFlight (dispatchForward E g k req params svc).2.toFlight := by
  unfold dispatchForward
  split
  · rename_i hres
    exact own_serve (Moves.of_result hres (gwValidateBody_moves E g k req))
  · rename_i g₁ hres
    have hvalidate := Moves.of_result hres (gwValidateBody_moves E g k req)
    refine (own_serve hvalidate).trans ?_
    split
    · exact .refl _
    · rename_i c hc
      have hidle := Moves.own_stillIdle hvalidate h c hc
      have hctrl₁ := Moves.ctrlInv hvalidate hctrl
      dsimp only
      split
      · exact gwWsUpgrade_moves E hctrl₁ hc hidle _ _
      · exact gwForward_moves E hctrl₁ hc hidle _ _

theorem gwDispatch_moves {g : Gateway} (hctrl : CtrlInv g.toFlight) {k : ConnId}
    (h : StillIdle g.toFlight k) (req : NtcRequest) :
    Moves (Serve k) g.toFlight (gwDispatch E g k req).2.toFlight := by
  unfold gwDispatch
  split
  · exact own_serve (sendPage_moves E g k _)
  · split
    · exact own_serve (serveReserved_moves E g k req)
    · split
      · exact own_serve (serveUnrouted_moves E g k req)
      · exact reply_serve E g k _ _
      · split
        · exact dispatchForward_moves E hctrl h req _ _
        · dsimp only
          split
          · exact reply_serve E (g.ask E).2 k _ _
          · exact own_serve (sendResp_moves E (g.ask E).2 k _ _ _)

-- ============================================================================
-- Admin requests
-- ============================================================================

/-- What a control command run for a client does, next to serving it. -/
def Admins (f : Flight) (idle : Bool) (k : ConnId) (cmd : Option Bytes) (l : Label) : Prop :=
  Serve k l ∨ ∃ cmdline, cmd = some cmdline ∧ Commands f idle cmdline l

/-- Dropping controllers that `cmd` names harms no request. -/
def IdleCommand (f : Flight) (cmd : Option Bytes) : Prop :=
  ∀ cmdline, cmd = some cmdline → ∀ ct, commandDrops f cmdline ct → ¬ Waits f ct

theorem commandDrops_congr {f f' : Flight} (h : f'.services = f.services) (cmdline : Bytes)
    (ct : CtrlId) : commandDrops f' cmdline ct ↔ commandDrops f cmdline ct := by
  simp only [commandDrops, commandTargets, findService, slotAt, h]

theorem Waits.pull {P : Label → Prop} {f f' : Flight} {ct : CtrlId} (h : Waits f' ct)
    (hm : Moves P f f') (hP : ∀ l, P l → l.shrinks) : Waits f ct := by
  obtain ⟨s, k, c', hs, hc', hw⟩ := h
  obtain ⟨c, hc, heq⟩ := Moves.waitCtrl_shrinks hm hP hc'
  exact ⟨s, k, c, (Moves.pending_shrinks hm hP hs).1, hc, heq ▸ hw⟩

theorem Moves.own_services {f f' : Flight} {k : ConnId} (hm : Moves (Own k) f f') :
    f'.services = f.services :=
  hm.keep (I := fun x => x.services = f.services)
    (fun hl hm hs => (hm.own_services hl).trans hs) rfl

theorem IdleCommand.own {f f' : Flight} {k : ConnId} {cmd : Option Bytes} (h : IdleCommand f cmd)
    (hm : Moves (Own k) f f') : IdleCommand f' cmd := by
  intro cmdline hcmd ct hct hw
  rw [commandDrops_congr (Moves.own_services hm)] at hct
  exact h cmdline hcmd ct hct (hw.pull hm fun l hl => hl.shrinks)

theorem Commands.own {f f' : Flight} {k : ConnId} {idle : Bool} {cmdline : Bytes} {l : Label}
    (h : Commands f' idle cmdline l) (hm : Moves (Own k) f f') : Commands f idle cmdline l := by
  obtain hl | hl | ⟨ct, hct, hl⟩ := h
  · exact Or.inl hl
  · exact Or.inr (Or.inl hl)
  · exact Or.inr (Or.inr ⟨ct, (commandDrops_congr (Moves.own_services hm) cmdline ct).mp hct, hl⟩)

theorem serve_admins {f f' f₀ : Flight} {k : ConnId} {idle : Bool} {cmd : Option Bytes}
    (h : Moves (Serve k) f f') : Moves (Admins f₀ idle k cmd) f f' :=
  h.mono fun _ hl => Or.inl hl

theorem own_admins {f f' f₀ : Flight} {k : ConnId} {idle : Bool} {cmd : Option Bytes}
    (h : Moves (Own k) f f') : Moves (Admins f₀ idle k cmd) f f' :=
  serve_admins (own_serve h)

theorem handleMcp_moves {g : Gateway} (h : Inv g.toFlight) (k : ConnId) (req : NtcRequest)
    (idle : Bool) (hidle : idle = true → IdleCommand g.toFlight (adminCommand E g req)) :
    Moves (Admins g.toFlight idle k (adminCommand E g req)) g.toFlight
      (handleMcp E g k req).2.toFlight := by
  have hask : adminCommand E (g.ask E).2 req = adminCommand E g req := rfl
  unfold handleMcp
  dsimp only
  rw [hask]
  split
  · exact own_admins (sendResp_moves E (g.ask E).2 k _ _ _)
  · cases hcmd : adminCommand E g req with
    | none =>
        dsimp only
        split
        · exact own_admins (sendResp_moves E (g.ask E).2 k _ _ _)
        · exact own_admins (sendResp_moves E (g.ask E).2 k _ _ _)
    | some cmdline =>
        have hexec : Moves (Admins g.toFlight idle k (some cmdline)) g.toFlight
            (execControlCommand E (g.ask E).2 cmdline).2.toFlight :=
          (execControlCommand_moves E (g := (g.ask E).2) h cmdline idle
            fun hi ct hct => hidle hi cmdline hcmd ct hct).mono
              fun l hl => Or.inr ⟨cmdline, rfl, hl⟩
        dsimp only
        split
        · exact hexec.trans (own_admins (sendResp_moves E _ k _ _ _))
        · exact hexec.trans (own_admins (sendResp_moves E _ k _ _ _))

theorem handleAdmin_moves {g : Gateway} (h : Inv g.toFlight) (k : ConnId) (req : NtcRequest)
    (idle : Bool) (hidle : idle = true → IdleCommand g.toFlight (adminCommand E g req)) :
    Moves (Admins g.toFlight idle k (adminCommand E g req)) g.toFlight
      (handleAdmin E g k req).2.toFlight := by
  unfold handleAdmin
  by_cases hmcp : req.path = lit "/_ntc/mcp"
  · rw [if_pos hmcp]
    by_cases hpost : req.method ≠ lit "POST"
    · rw [if_pos hpost]
      exact own_admins (sendResp_moves E g k _ _ _)
    rw [if_neg hpost]
    cases hauth : adminAuthorized g req with
    | false => exact own_admins (sendResp_moves E g k _ _ _)
    | true => exact handleMcp_moves E h k req idle hidle
  rw [if_neg hmcp]
  by_cases hget : req.method ≠ lit "GET"
  · rw [if_pos hget]
    exact own_admins (sendResp_moves E g k _ _ _)
  rw [if_neg hget]
  by_cases hroot : req.path = lit "/" ∨ req.path = lit "/index.html"
  · rw [if_pos hroot]
    exact own_admins (sendPage_moves E g k _)
  rw [if_neg hroot]
  by_cases hstats : req.path = lit "/api/stats"
  · rw [if_pos hstats]
    exact own_admins (sendPage_moves E g k _)
  rw [if_neg hstats]
  by_cases hservices : req.path = lit "/api/services"
  · rw [if_pos hservices]
    exact own_admins (sendPage_moves E g k _)
  rw [if_neg hservices]
  by_cases hroutes : req.path = lit "/api/routes"
  · rw [if_pos hroutes]
    exact own_admins (sendPage_moves E g k _)
  rw [if_neg hroutes]
  by_cases hmetrics : req.path = lit "/_ntc/metrics" ∨ req.path = lit "/metrics"
  · rw [if_pos hmetrics]
    exact own_admins (sendPage_moves E g k _)
  · rw [if_neg hmetrics]
    exact own_admins (sendResp_moves E g k _ _ _)

-- ============================================================================
-- Requests
-- ============================================================================

/-- The control command that the bytes buffered on a connection run. -/
def requestCommand (g : Gateway) (c : Conn) (eof : Bool) : Option Bytes :=
  match frameRequest g.maxBody c.rbuf eof with
  | .ready req => if c.isAdmin then adminCommand E g req else none
  | _ => none

theorem runMiddleware_moves (g : Gateway) (k : ConnId) (c : Conn) (req : NtcRequest) :
    Moves (Own k) g.toFlight (runMiddleware E g k c req).2.toFlight := by
  unfold runMiddleware
  dsimp only
  split
  · exact .refl _
  · refine modConn_moves' (g := { ((g.ask E).2.ask E).2 with mw := _ }) ?_
    exact fun c => .of_state rfl rfl rfl rfl rfl

theorem adminCommand_modConn (g : Gateway) (k : ConnId) (F : Conn → Conn) (req : NtcRequest) :
    adminCommand E (g.modConn k F) req = adminCommand E g req := by
  unfold Gateway.modConn
  split <;> rfl

theorem processRequest_moves {g : Gateway} (h : Inv g.toFlight) {k : ConnId} {c : Conn}
    (hc : g.conns k = some c) (hconn : IdleConn c) (eof idle : Bool)
    (hidle : idle = true → IdleCommand g.toFlight (requestCommand E g c eof)) :
    Moves (Admins g.toFlight idle k (requestCommand E g c eof)) g.toFlight
      (processRequest E g k eof).2.toFlight := by
  unfold processRequest
  simp only [hc]
  cases hframe : frameRequest g.maxBody c.rbuf eof with
  | wait => exact .refl _
  | close => exact own_admins (connClose_moves E g k)
  | refuse status body => exact serve_admins (reply_serve E g k status body)
  | ready req =>
      dsimp only
      have hgzip : Moves (Own k) g.toFlight (g.modConn k fun c => { c with
          acceptGzip := sliceHas (ntcHttpHeader req (lit "accept-encoding")) (lit "gzip")
          }).toFlight :=
        modConn_moves' fun c => .of_state rfl rfl rfl rfl rfl
      have hstill : StillIdle g.toFlight k := fun d hd => by
        rw [hc] at hd
        cases hd
        exact hconn
      refine (own_admins hgzip).trans ?_
      split
      · rename_i hadmin
        have hcmd : requestCommand E g c eof = adminCommand E (g.modConn k fun c => { c with
            acceptGzip := sliceHas (ntcHttpHeader req (lit "accept-encoding")) (lit "gzip")
            }) req := by
          simp only [requestCommand, hframe, hadmin, if_true, adminCommand_modConn]
        rw [hcmd] at hidle ⊢
        refine (handleAdmin_moves E (Moves.inv hgzip h) k req idle
          fun hi => (hidle hi).own hgzip).mono ?_
        rintro l (hl | ⟨cmdline, hcl, hl⟩)
        · exact Or.inl hl
        · exact Or.inr ⟨cmdline, hcl, hl.own hgzip⟩
      · have hmw := runMiddleware_moves E (g.modConn k fun c => { c with
          acceptGzip := sliceHas (ntcHttpHeader req (lit "accept-encoding")) (lit "gzip")
          }) k c req
        split
        · rename_i hres
          exact (own_admins (Moves.of_result hres hmw)).trans
            (own_admins (sendResp_moves E _ k _ _ _))
        · rename_i hres
          have hmw' := Moves.of_result hres hmw
          refine (own_admins hmw').trans (serve_admins (gwDispatch_moves E ?_ ?_ req))
          · exact Moves.ctrlInv hmw' (Moves.ctrlInv hgzip h.ctrls)
          · exact Moves.own_stillIdle hmw' (Moves.own_stillIdle hgzip hstill)

end Naitron
