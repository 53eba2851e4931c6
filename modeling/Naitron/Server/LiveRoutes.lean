/-
  Naitron.Server.LiveRoutes

  Live routing against routing after a restart, over sequences of control
  commands: each command that succeeds is its operation on the stores, so the
  conditions of `Naitron.Server.Stores` decide, command by command, whether a
  restart would change where requests go.
-/

import Naitron.Server.Stores

namespace Naitron

variable (E : Ext)

def Gateway.stores (g : Gateway) : Stores := ⟨g.reg, g.router, serviceFlags g.services⟩

theorem forwardTarget_eq_target (g : Gateway) (method path : Bytes) :
    forwardTarget g.services g.router method path = g.stores.target method path :=
  forwardTarget_eq g.services g.router method path

theorem findService_eq_index (g : Gateway) (name : Bytes) :
    findService g.toFlight name = g.stores.index name := by
  rw [findService, Stores.index, Gateway.stores, serviceFlags, List.findIdx?_map]
  rfl

/-! ## What a successful command does to the stores -/

theorem serviceFlags_modify (services : List Service) {f : Service → Service}
    (f' : Bytes × Bool → Bytes × Bool)
    (h : ∀ svc, ((f svc).name, (f svc).disabled) = f' (svc.name, svc.disabled)) (i : Nat) :
    serviceFlags (services.modify i f) = (serviceFlags services).modify i f' := by
  refine List.ext_getElem? fun j => ?_
  rw [serviceFlags, serviceFlags, List.getElem?_map, List.getElem?_modify, List.getElem?_modify,
    List.getElem?_map]
  cases services[j]? with
  | none => rfl
  | some svc =>
      by_cases hij : i = j
      · simp [hij, h svc]
      · simp [hij]

/-- A change of replicas or counters leaves the flags alone. -/
theorem modService_stores {g : Gateway} {f : Service → Service}
    (h : ∀ svc, (f svc).name = svc.name ∧ (f svc).disabled = svc.disabled) (i : Nat) :
    (g.modService i f).stores = g.stores := by
  have hflags : serviceFlags (g.services.modify i f) = serviceFlags g.services := by
    rw [serviceFlags_modify g.services id fun svc => by rw [(h svc).1, (h svc).2]; rfl]
    exact List.modify_id i _
  rw [Gateway.stores, Gateway.stores, Gateway.modService]
  exact congrArg (Stores.mk g.reg g.router) hflags

theorem spawnService_stores (g : Gateway) (i s : Nat) :
    (spawnService E g i s).2.stores = g.stores := by
  have h := modService_stores (g := (g.ask E).2) (f := fun svc : Service =>
    { svc.setConn s (some g.nctrl) with
      spawnedAt := Function.update svc.spawnedAt s (E.io g.tick).now })
    (fun svc => ⟨rfl, rfl⟩) i
  rw [spawnService]
  dsimp only
  split
  · exact h
  · rfl

theorem destroyReplica_stores (i : Nat) (g : Gateway) (s : Nat) :
    (destroyReplica i g s).stores = g.stores := by
  rw [destroyReplica]
  split
  · rfl
  · rename_i ct _
    exact modService_stores (g := g) (f := fun svc => svc.setConn s none)
      (fun svc => ⟨rfl, rfl⟩) i

theorem foldl_destroyReplica_stores (i : Nat) (slots : List Nat) (g : Gateway) :
    (slots.foldl (destroyReplica i) g).stores = g.stores := by
  induction slots generalizing g with
  | nil => rfl
  | cons s slots ih => rw [List.foldl_cons, ih, destroyReplica_stores]

theorem disableService_stores (g : Gateway) (i : Nat) :
    (disableService g i).stores =
      ⟨g.reg, g.router, (serviceFlags g.services).modify i fun f => (f.1, true)⟩ := by
  rw [disableService, foldl_destroyReplica_stores]
  exact congrArg (Stores.mk g.reg g.router)
    (serviceFlags_modify g.services (fun f => (f.1, true)) (fun _ => rfl) i)

theorem serviceAddLive_stores {g g' : Gateway} {name bin : Bytes}
    (h : serviceAddLive E g name bin = (.zero, g')) :
    g'.stores = ⟨g.reg, g.router, g.stores.enable name⟩ := by
  rw [serviceAddLive, findService_eq_index] at h
  rw [Stores.enable]
  cases hidx : g.stores.index name with
  | some i =>
      rw [hidx] at h
      cases h
      exact congrArg (Stores.mk g.reg g.router)
        (serviceFlags_modify g.services (fun f => (f.1, false)) (fun _ => rfl) i)
  | none =>
      rw [hidx] at h
      dsimp only at h
      by_cases hfull : ntcMaxServices ≤ g.services.length
      · rw [if_pos hfull] at h
        cases h
      · rw [if_neg hfull] at h
        by_cases hok : (g.ask E).1.ok = true
        · rw [if_pos hok] at h
          cases h
          rw [spawnService_stores]
          exact congrArg (Stores.mk g.reg g.router) List.map_append
        · rw [if_neg hok] at h
          cases h

/-- A reply that reports success. -/
def ReplyOk (reply : Bytes) : Prop := ntcSliceStartsWith reply (lit "OK") = true

instance (reply : Bytes) : Decidable (ReplyOk reply) :=
  inferInstanceAs (Decidable (ntcSliceStartsWith reply (lit "OK") = true))

theorem serviceAdd_stores {g : Gateway} {name bin : Bytes}
    (h : ReplyOk (serviceAdd E g name bin).1) :
    (serviceAdd E g name bin).2.stores = g.stores.addService name bin := by
  rw [serviceAdd] at h ⊢
  cases hok : (E.io g.tick).ok with
  | false =>
      have herr : ¬ ReplyOk (lit "ERR registry write failed\n") := by decide
      rw [hok, if_pos (by rfl)] at h
      exact absurd h herr
  | true =>
      rw [hok, if_neg (by decide)] at h
      rw [if_neg (by decide)]
      rcases hlive : serviceAddLive E
        ((g.ask E).2.withReg (ntcRegistryAddService g.reg name bin)) name bin with ⟨rc, g'⟩
      rw [hlive] at h
      cases rc with
      | neg =>
          have herr : ¬ ReplyOk (lit "ERR too many services\n") := by decide
          exact absurd h herr
      | zero => exact serviceAddLive_stores E hlive

/-- `route-add` succeeds only for a service with a row and a pattern the router
    takes. -/
theorem routeAdd_stores {g : Gateway} {method pattern service : Bytes}
    (h : ReplyOk (routeAdd E g method pattern service).1) :
    (∃ bin, (service, bin) ∈ g.reg.services) ∧
      (splitSegments pattern ntcMaxSegments).isSome = true ∧
      (routeAdd E g method pattern service).2.stores =
        g.stores.addRoute method pattern service := by
  rw [routeAdd] at h ⊢
  rcases hreg : (if (E.io g.tick).ok = true then
    ntcRegistryAddRoute g.reg method pattern service else none) with _ | reg
  · rw [hreg] at h
    have herr : ¬ ReplyOk (lit "ERR unknown service\n") := by decide
    exact absurd h herr
  rw [hreg] at h
  rw [findService_eq_index] at h ⊢
  rcases hidx : g.stores.index service with _ | i
  · rw [hidx] at h
    have herr : ¬ ReplyOk (lit "ERR service not loaded\n") := by decide
    exact absurd h herr
  rw [hidx] at h
  dsimp only at h ⊢
  rcases hadd : (if (E.io (g.tick + 1)).ok = true then
    ntcRouterAdd g.router method pattern (.forward i) else none) with _ | router
  · rw [hadd] at h
    have herr : ¬ ReplyOk (lit "ERR route register failed\n") := by decide
    exact absurd h herr
  split_ifs at hreg with hok
  split_ifs at hadd with halloc
  have hsome := (ntcRegistryAddRoute_isSome_iff g.reg method pattern service).mp
    (Option.isSome_of_eq_some hreg)
  obtain ⟨row, hrow, hname⟩ := List.any_eq_true.mp hsome
  have hname' : row.1 = service := by simpa using hname
  refine ⟨⟨row.2, by rw [← hname']; exact hrow⟩, ?_, ?_⟩
  · exact (ntcRouterAdd_isSome_iff g.router method pattern (.forward i)).mp
      (Option.isSome_of_eq_some hadd)
  · have haddReg : ntcRegistryAddRoute g.stores.reg method pattern service = some reg := hreg
    have haddRouter : ntcRouterAdd g.stores.router method pattern (.forward i) = some router := hadd
    rw [Stores.addRoute, haddReg, hidx, Option.getD_some, Option.getD_some, haddRouter]
    rfl

theorem cmdServiceRm_stores {g : Gateway} {save name : Bytes} (htok : commandTokens 1 save = [name])
    (h : ReplyOk (cmdServiceRm E g save).1) :
    (∃ bin, (name, bin) ∈ g.reg.services) ∧
      (cmdServiceRm E g save).2.stores = g.stores.removeService name := by
  obtain ⟨save₁, h₁, -⟩ := commandTokens_cons.mp htok
  rw [cmdServiceRm, h₁] at h ⊢
  dsimp only at h ⊢
  have herr : ¬ ReplyOk (lit "ERR not found\n") := by decide
  by_cases hok : (g.ask E).1.ok = true
  · rw [if_pos hok] at h ⊢
    have hfound : (ntcRegistryRemoveService g.reg name).1 = true := by
      by_contra hnot
      have hnot' : ¬ (ntcRegistryRemoveService (g.ask E).2.reg name).1 = true := hnot
      rw [if_neg hnot'] at h
      exact herr h
    obtain ⟨row, hrow, hname⟩ := List.any_eq_true.mp hfound
    have hname' : row.1 = name := by simpa using hname
    refine ⟨⟨row.2, by rw [← hname']; exact hrow⟩, ?_⟩
    rw [Stores.removeService, Stores.disable]
    have hfind : findService (g.ask E).2.toFlight name = g.stores.index name :=
      findService_eq_index g name
    rw [hfind]
    cases hidx : g.stores.index name with
    | none => rfl
    | some i => exact disableService_stores _ i
  · rw [if_neg hok] at h
    exact absurd h herr

theorem execControlCommand_serviceRm (g : Gateway) {cmdline save : Bytes}
    (h : strtokR cmdline = some (lit "service-rm", save)) :
    execControlCommand E g cmdline = cmdServiceRm E g save := by
  rw [execControlCommand, h]
  dsimp only
  rw [if_neg (by decide), if_neg (by decide), if_neg (by decide), if_neg (by decide), if_pos rfl]

/-- The commands that add or remove services and routes. -/
def routingCommands : List Bytes := [lit "service-add", lit "route-add", lit "service-rm"]

/-- What a successful routing command did. -/
inductive CommandEffect (g g' : Gateway) (cmdline : Bytes) : Prop
  | serviceAdd (name bin : Bytes)
      (line : commandTokens 3 cmdline = [lit "service-add", name, bin])
      (eq : g'.stores = g.stores.addService name bin)
  | routeAdd (method pattern service : Bytes)
      (line : commandTokens 4 cmdline = [lit "route-add", method, pattern, service])
      (known : ∃ bin, (service, bin) ∈ g.reg.services)
      (segs : (splitSegments pattern ntcMaxSegments).isSome = true)
      (eq : g'.stores = g.stores.addRoute method pattern service)
  | serviceRm (name : Bytes) (line : commandTokens 2 cmdline = [lit "service-rm", name])
      (known : ∃ bin, (name, bin) ∈ g.reg.services)
      (eq : g'.stores = g.stores.removeService name)

theorem execControlCommand_effect {g : Gateway} {cmdline : Bytes}
    (hcmd : ∃ cmd ∈ routingCommands, commandTokens 1 cmdline = [cmd])
    (hok : ReplyOk (execControlCommand E g cmdline).1) :
    CommandEffect g (execControlCommand E g cmdline).2 cmdline := by
  obtain ⟨cmd, hcmd, htok⟩ := hcmd
  obtain ⟨save, hline, -⟩ := commandTokens_cons.mp htok
  simp only [routingCommands, List.mem_cons, List.not_mem_nil, or_false] at hcmd
  rcases hcmd with rfl | rfl | rfl
  · rw [execControlCommand_serviceAdd E g hline] at hok ⊢
    by_cases hargs : ∃ name bin, commandTokens 2 save = [name, bin]
    · obtain ⟨name, bin, hargs⟩ := hargs
      rw [cmdServiceAdd_eq E g hargs] at hok ⊢
      exact .serviceAdd name bin (commandTokens_cons.mpr ⟨save, hline, hargs⟩)
        (serviceAdd_stores E hok)
    · have herr : ¬ ReplyOk (lit "ERR usage: service-add <name> <bin>\n") := by decide
      rw [cmdServiceAdd_usage E g fun name bin h => hargs ⟨name, bin, h⟩] at hok
      exact absurd hok herr
  · rw [execControlCommand_routeAdd E g hline] at hok ⊢
    by_cases hargs : ∃ method pattern service, commandTokens 3 save = [method, pattern, service]
    · obtain ⟨method, pattern, service, hargs⟩ := hargs
      rw [cmdRouteAdd_eq E g hargs] at hok ⊢
      obtain ⟨hknown, hsegs, heq⟩ := routeAdd_stores E hok
      exact .routeAdd method pattern service (commandTokens_cons.mpr ⟨save, hline, hargs⟩)
        hknown hsegs heq
    · have herr : ¬ ReplyOk (lit "ERR usage: route-add <METHOD> <pattern> <service>\n") := by decide
      rw [cmdRouteAdd_usage E g fun method pattern service h =>
        hargs ⟨method, pattern, service, h⟩] at hok
      exact absurd hok herr
  · rw [execControlCommand_serviceRm E g hline] at hok ⊢
    by_cases hargs : ∃ name, commandTokens 1 save = [name]
    · obtain ⟨name, hargs⟩ := hargs
      obtain ⟨hknown, heq⟩ := cmdServiceRm_stores E hargs hok
      exact .serviceRm name (commandTokens_cons.mpr ⟨save, hline, hargs⟩) hknown heq
    · have herr : ¬ ReplyOk (lit "ERR usage: service-rm <name>\n") := by decide
      have husage : strtokR save = none := by
        rcases h₁ : strtokR save with _ | ⟨name, save₁⟩
        · rfl
        · exact absurd ⟨name, commandTokens_cons.mpr ⟨save₁, h₁, rfl⟩⟩ hargs
      rw [cmdServiceRm, husage] at hok
      exact absurd hok herr

/-! ## The condition -/

/-- What a routing command must not do: bring back routes of a removed service;
    re-point the row that serves a request, or add a route whose requests an
    old live route takes first; remove a service that hides a row of another
    one. -/
structure SafeCommand (st : Stores) (cmdline : Bytes) : Prop where
  serviceAdd : ∀ name bin, commandTokens 3 cmdline = [lit "service-add", name, bin] →
    ∀ i, st.flags[i]? = some (name, true) → ∀ method path, ¬ st.Serves i method path
  routeAdd : ∀ method pattern service,
    commandTokens 4 cmdline = [lit "route-add", method, pattern, service] →
    ∀ m p, firstRoute builtinRouter m p = none →
      (∀ row, firstRow st.reg m p = some row →
        row.method = method ∧ row.pattern = pattern → row.service = service) ∧
      (firstRow st.reg m p = none → takes method pattern m p = true →
        firstRoute st.router m p = none)
  serviceRm : ∀ name, commandTokens 2 cmdline = [lit "service-rm", name] →
    ∀ method path, st.target method path = some name → ∀ row ∈ st.reg.routes,
      takes row.method row.pattern method path = true → row.service = name

theorem CommandEffect.wired {g g' : Gateway} {cmdline : Bytes} (h : CommandEffect g g' cmdline)
    (hw : g.stores.Wired) : g'.stores.Wired := by
  cases h with
  | serviceAdd name bin _ heq =>
      rw [heq]
      exact Stores.addService_wired hw name bin
  | routeAdd method pattern service _ known _ heq =>
      rw [heq]
      exact Stores.addRoute_wired hw known
  | serviceRm name _ known heq =>
      rw [heq]
      exact Stores.removeService_wired hw name

/-- Two readings of the first words of a line agree. -/
theorem commandTokens_head {n n' : Nat} {s t t' : Bytes} {ts ts' : List Bytes}
    (h : commandTokens (n + 1) s = t :: ts) (h' : commandTokens (n' + 1) s = t' :: ts') :
    t = t' := by
  obtain ⟨save, hs, -⟩ := commandTokens_cons.mp h
  obtain ⟨save', hs', -⟩ := commandTokens_cons.mp h'
  rw [hs] at hs'
  exact (Prod.mk.inj (Option.some_inj.mp hs')).1

/-- After a successful command, both sides agree exactly when it was safe. -/
theorem CommandEffect.same_iff {g g' : Gateway} {cmdline : Bytes} (h : CommandEffect g g' cmdline)
    (hw : g.stores.Wired) (hs : g.stores.Same) :
    g'.stores.Same ↔ SafeCommand g.stores cmdline := by
  cases h with
  | serviceAdd name bin line heq =>
      rw [heq, Stores.addService_same_iff hw hs]
      constructor
      · intro hsafe
        refine ⟨fun name' bin' line' => ?_, fun _ _ _ line' => ?_, fun _ line' => ?_⟩
        · rw [line] at line'
          cases line'
          exact hsafe
        · exact absurd (commandTokens_head line line') (by decide)
        · exact absurd (commandTokens_head line line') (by decide)
      · exact fun hsafe => hsafe.serviceAdd name bin line
  | routeAdd method pattern service line known segs heq =>
      rw [heq, Stores.addRoute_same_iff hw hs known segs]
      constructor
      · intro hsafe
        refine ⟨fun _ _ line' => ?_, fun method' pattern' service' line' => ?_, fun _ line' => ?_⟩
        · exact absurd (commandTokens_head line line') (by decide)
        · rw [line] at line'
          cases line'
          exact hsafe
        · exact absurd (commandTokens_head line line') (by decide)
      · exact fun hsafe => hsafe.routeAdd method pattern service line
  | serviceRm name line known heq =>
      rw [heq, Stores.removeService_same_iff hw hs known]
      constructor
      · intro hsafe
        refine ⟨fun _ _ line' => ?_, fun _ _ _ line' => ?_, fun name' line' => ?_⟩
        · exact absurd (commandTokens_head line line') (by decide)
        · exact absurd (commandTokens_head line line') (by decide)
        · rw [line] at line'
          cases line'
          exact hsafe
      · exact fun hsafe => hsafe.serviceRm name line

/-! ## The start -/

/-- Seeding keeps the registry sound, and it is then not seeded again. -/
theorem seedRegistry_spec (env : BootEnv) {reg : NtcRegistry} (hsound : reg.Sound) :
    (seedRegistry env reg).Sound ∧ Unseeded env (seedRegistry env reg) := by
  rw [seedRegistry]
  split_ifs with hempty
  · cases henv : env.controllerBin with
    | none => exact ⟨hsound, Or.inl henv⟩
    | some bin =>
        have hstep : ∀ (routes : List (Bytes × Bytes)) (reg : NtcRegistry), reg.Sound →
            reg.services ≠ [] →
            (routes.foldl (fun reg mp =>
              (ntcRegistryAddRoute reg mp.1 mp.2 (lit "hello")).getD reg) reg).Sound ∧
            (routes.foldl (fun reg mp =>
              (ntcRegistryAddRoute reg mp.1 mp.2 (lit "hello")).getD reg) reg).services ≠ [] := by
          intro routes
          induction routes with
          | nil => exact fun reg h hne => ⟨h, hne⟩
          | cons mp routes ih =>
              intro reg h hne
              rw [List.foldl_cons]
              cases hadd : ntcRegistryAddRoute reg mp.1 mp.2 (lit "hello") with
              | none => exact ih reg h hne
              | some reg' =>
                  refine ih reg' (Stores.sound_addRoute h hadd) ?_
                  rw [(Stores.ntcRegistryAddRoute_rows hadd).1]
                  exact hne
        obtain ⟨h, hne⟩ := hstep (seedRoutes env) _
          (Stores.sound_addService hsound (lit "hello") bin) (by
            have hmem : ∃ v, (lit "hello", v) ∈ upsertRow reg.services (lit "hello") bin :=
              Stores.mem_upsertRow.mpr (Or.inl rfl)
            obtain ⟨v, hv⟩ := hmem
            exact List.ne_nil_of_mem hv)
        exact ⟨h, Or.inr hne⟩
  · exact ⟨hsound, Or.inr (by simpa using hempty)⟩

/-- The loop over the routes appends routes that forward to services there
    are. -/
theorem foldl_loadRoute_append (services : List Service) :
    ∀ (rows : List RouteRow) (router : NtcRouter),
      ∃ more : NtcRouter, rows.foldl (loadRoute services) router = router ++ more ∧
        ∀ rt ∈ more, ∃ i < services.length, rt.handler = .forward i := by
  intro rows
  induction rows with
  | nil => exact fun router => ⟨[], (List.append_nil router).symm, by simp⟩
  | cons row rows ih =>
      intro router
      rw [List.foldl_cons]
      obtain ⟨more, hmore, hfwd⟩ := ih (loadRoute services router row)
      rw [hmore, loadRoute]
      cases hidx : serviceIndex services (clip 64 row.service) with
      | none => exact ⟨more, rfl, hfwd⟩
      | some i =>
          have hlt : i < services.length := by
            rw [serviceIndex, List.findIdx?_eq_some_iff_getElem] at hidx
            exact hidx.1
          rcases ntcRouterAdd_cases router (clip 8 row.method) (clip 128 row.pattern)
            (.forward i) with ⟨hnone, -⟩ | ⟨rt, -, -, hrth, hsome⟩
          · dsimp only
            rw [hnone]
            exact ⟨more, rfl, hfwd⟩
          · dsimp only
            rw [hsome]
            refine ⟨rt :: more, by simp, fun rt' hrt' => ?_⟩
            rcases List.mem_cons.mp hrt' with rfl | hrt'
            · exact ⟨i, hlt, hrth⟩
            · exact hfwd rt' hrt'

/-- The flags of loaded services: the names of the rows, all enabled. -/
theorem serviceFlags_load {env : BootEnv} {reg : NtcRegistry} (hfit : reg.Fits) :
    serviceFlags ((reg.services.take loadServicesMax).map (loadService env reg)) =
      reg.services.map fun row => (row.1, false) := by
  rw [List.take_of_length_le hfit.services, serviceFlags, List.map_map]
  refine List.map_congr_left fun row hrow => ?_
  have hname : clip 64 row.1 = row.1 := clip_eq_self (hfit.serviceRow row hrow).1
  simp [loadService, hname]

/-- The stores `load_registry` leaves. -/
def loadedStores (env : BootEnv) (reg : NtcRegistry) : Stores :=
  ⟨(loadRegistry env reg builtinRouter).1, (loadRegistry env reg builtinRouter).2.2,
    serviceFlags (loadRegistry env reg builtinRouter).2.1⟩

theorem loadedStores_reg (env : BootEnv) (reg : NtcRegistry) :
    (loadedStores env reg).reg = seedRegistry env reg := by
  rw [loadedStores, loadRegistry]
  dsimp only
  split_ifs <;> rfl

theorem builtinRouter_forwards_nothing : ∀ rt ∈ builtinRouter, ∀ i, rt.handler ≠ .forward i := by
  intro rt hrt i
  rw [builtinRouter] at hrt
  simp only [List.mem_cons, List.not_mem_nil, or_false] at hrt
  rcases hrt with rfl | rfl | rfl <;> simp

theorem loadedStores_wired {env : BootEnv} {reg : NtcRegistry} (hsound : reg.Sound)
    (hfit : (seedRegistry env reg).Fits) : (loadedStores env reg).Wired := by
  have hsound' := (seedRegistry_spec env hsound).1
  by_cases hempty : (seedRegistry env reg).services.isEmpty = true
  · have hst : loadedStores env reg = ⟨seedRegistry env reg, builtinRouter, []⟩ := by
      rw [loadedStores, loadRegistry]
      dsimp only
      rw [if_pos hempty]
      rfl
    rw [hst]
    refine ⟨⟨[], rfl⟩, fun rt hrt i hi => ?_, List.nodup_nil, hsound', fun name => ?_⟩
    · exact absurd hi (builtinRouter_forwards_nothing rt hrt i)
    · rw [List.isEmpty_iff] at hempty
      show (∃ bin, (name, bin) ∈ (seedRegistry env reg).services) ↔ _
      rw [hempty]
      simp
  · obtain ⟨more, hmore, hfwd⟩ := foldl_loadRoute_append
      (((seedRegistry env reg).services.take loadServicesMax).map
        (loadService env (seedRegistry env reg))) (listRoutes (seedRegistry env reg)) builtinRouter
    have hst : loadedStores env reg = ⟨seedRegistry env reg, builtinRouter ++ more,
        (seedRegistry env reg).services.map fun row => (row.1, false)⟩ := by
      rw [loadedStores, loadRegistry]
      dsimp only
      rw [if_neg hempty, hmore, serviceFlags_load hfit]
    rw [hst]
    refine ⟨⟨more, rfl⟩, fun rt hrt i hi => ?_, ?_, hsound', fun name => ?_⟩
    · rcases List.mem_append.mp hrt with hb | hm
      · exact absurd hi (builtinRouter_forwards_nothing rt hb i)
      · obtain ⟨j, hj, hh⟩ := hfwd rt hm
        rw [hh] at hi
        cases hi
        rw [List.length_map, List.length_take] at hj
        rw [List.length_map]
        omega
    · rw [List.map_map]
      exact hsound'.unique
    · simp

/-- At the start both sides agree. -/
theorem loadedStores_same {env : BootEnv} {reg : NtcRegistry} (hsound : reg.Sound)
    (hfit : (seedRegistry env reg).Fits) : (loadedStores env reg).Same := by
  obtain ⟨hsound', hseeded⟩ := seedRegistry_spec env hsound
  intro method path
  have hload : loadRegistry env (seedRegistry env reg) builtinRouter =
      loadRegistry env reg builtinRouter := by
    rw [loadRegistry, loadRegistry, seedRegistry_of_seeded hseeded]
  have htarget := restartTarget_eq hfit hsound' hseeded method path
  rw [restartTarget, hload, forwardTarget_eq] at htarget
  rw [loadedStores_reg]
  exact htarget

/-! ## Runs of commands -/

/-- A line whose command adds or removes services or routes. -/
def RoutingLine (cmdline : Bytes) : Prop :=
  ∃ cmd ∈ routingCommands, commandTokens 1 cmdline = [cmd]

/-- Every request goes where it would go after a restart. -/
def RestartAgrees (env : BootEnv) (g : Gateway) : Prop :=
  ∀ method path, forwardTarget g.services g.router method path =
    restartTarget env g.reg method path

/-- Gateways reached from a start by routing commands that each succeeded and
    met `P` in the stores they found. -/
inductive CommandRun (env : BootEnv) (P : Stores → Bytes → Prop) : Gateway → Prop
  | boot (g : Gateway) (reg : NtcRegistry) (sound : reg.Sound)
      (fits : (seedRegistry env reg).Fits) (loaded : g.stores = loadedStores env reg) :
      CommandRun env P g
  | command (g : Gateway) (cmdline : Bytes) (run : CommandRun env P g)
      (routing : RoutingLine cmdline) (ok : ReplyOk (execControlCommand E g cmdline).1)
      (cond : P g.stores cmdline) : CommandRun env P (execControlCommand E g cmdline).2

/-- The stores stay wired whatever commands run. -/
theorem CommandRun.wired {env : BootEnv} {P : Stores → Bytes → Prop} {g : Gateway}
    (h : CommandRun E env P g) : g.stores.Wired := by
  induction h with
  | boot g reg sound fits loaded =>
      rw [loaded]
      exact loadedStores_wired sound fits
  | command g cmdline _ routing ok _ ih => exact (execControlCommand_effect E routing ok).wired ih

/-- In a run of safe commands both sides agree in every state. -/
theorem CommandRun.same {env : BootEnv} {g : Gateway} (h : CommandRun E env SafeCommand g) :
    g.stores.Same := by
  induction h with
  | boot g reg sound fits loaded =>
      rw [loaded]
      exact loadedStores_same sound fits
  | command g cmdline run routing ok cond ih =>
      exact ((execControlCommand_effect E routing ok).same_iff run.wired ih).mpr cond

/-- Over a registry a restart reads whole, agreement is `Stores.Same`. -/
theorem restartAgrees_iff {env : BootEnv} {g : Gateway} (hw : g.stores.Wired) (hfit : g.reg.Fits)
    (hseed : Unseeded env g.reg) : RestartAgrees env g ↔ g.stores.Same := by
  rw [RestartAgrees, Stores.Same]
  refine forall_congr' fun method => forall_congr' fun path => ?_
  rw [forwardTarget_eq_target, restartTarget_eq hfit hw.sound hseed]
  exact Iff.rfl

/-- In a run of safe commands live routing is what a restart would give, and
    the next command keeps it so exactly when it is safe too. -/
theorem live_routing_survives_restart (env : BootEnv) {g : Gateway}
    (h : CommandRun E env SafeCommand g) :
    (g.reg.Fits → Unseeded env g.reg → RestartAgrees env g) ∧
      ∀ cmdline, RoutingLine cmdline → ReplyOk (execControlCommand E g cmdline).1 →
        (execControlCommand E g cmdline).2.reg.Fits →
        Unseeded env (execControlCommand E g cmdline).2.reg →
        (RestartAgrees env (execControlCommand E g cmdline).2 ↔
          SafeCommand g.stores cmdline) := by
  refine ⟨fun hfit hseed => (restartAgrees_iff h.wired hfit hseed).mpr h.same,
    fun cmdline hline hok hfit hseed => ?_⟩
  have heffect := execControlCommand_effect E hline hok
  rw [restartAgrees_iff (heffect.wired h.wired) hfit hseed]
  exact heffect.same_iff h.wired h.same

/-! ### A route of one service, re-pointed to another -/

/-- A registry with one service and its route. -/
def greeterRegistry : NtcRegistry where
  services := [(lit "greeter", lit "bin/greeter")]
  routes := [⟨lit "GET", lit "/hi", lit "greeter"⟩]

/-- The gateway started over it. -/
def greeterGateway : Gateway :=
  (bootGateway (loadRegistry {} greeterRegistry builtinRouter).2.1
    (loadRegistry {} greeterRegistry builtinRouter).2.2 (.set 65 (lit "secret"))).withReg
    greeterRegistry

theorem greeterRegistry_sound : greeterRegistry.Sound where
  unique := by decide
  foreign row hrow := by
    rw [List.mem_singleton.mp hrow]
    exact ⟨lit "bin/greeter", List.mem_singleton.mpr rfl⟩

instance (cap : Nat) (s : Bytes) : Decidable (FitsText cap s) :=
  inferInstanceAs (Decidable (s.length < cap ∧ 0 ∉ s))

/-- The conditions of `NtcRegistry.Fits`, to be evaluated. -/
theorem NtcRegistry.fits_of {reg : NtcRegistry}
    (h : reg.services.length ≤ loadServicesMax ∧ reg.routes.length ≤ loadRoutesMax ∧
      (∀ row ∈ reg.services, FitsText 64 row.1 ∧ FitsText 256 row.2) ∧
      ∀ row ∈ reg.routes, FitsText 8 row.method ∧ FitsText 128 row.pattern) : reg.Fits :=
  ⟨h.1, h.2.1, h.2.2.1, h.2.2.2⟩

theorem greeterGateway_run (P : Stores → Bytes → Prop) :
    CommandRun quietExt {} P greeterGateway := by
  refine .boot _ greeterRegistry greeterRegistry_sound (NtcRegistry.fits_of (by decide)) ?_
  rw [Gateway.stores, loadedStores]
  rfl

def addWorker : Bytes := lit "service-add worker bin/worker"

def pointToWorker : Bytes := lit "route-add GET /hi worker"

/-- The gateway with the second service added. -/
def workerGateway : Gateway := (execControlCommand quietExt greeterGateway addWorker).2

/-- A new service takes no requests yet. -/
theorem addWorker_safe : SafeCommand greeterGateway.stores addWorker where
  serviceAdd name bin hline i hi := by
    have hflags : greeterGateway.stores.flags = [(lit "greeter", false)] := by decide
    rw [hflags] at hi
    have hmem := List.mem_of_getElem? hi
    rw [List.mem_singleton] at hmem
    exact absurd (congrArg Prod.snd hmem) Bool.noConfusion
  routeAdd method pattern service hline := by
    have hadd : commandTokens 1 addWorker = [lit "service-add"] := by decide
    exact absurd (commandTokens_head hadd hline) (by decide)
  serviceRm name hline := by
    have hadd : commandTokens 1 addWorker = [lit "service-add"] := by decide
    exact absurd (commandTokens_head hadd hline) (by decide)

theorem live_routing_survives_restart_worker : RestartAgrees {} workerGateway := by
  have hrun : CommandRun quietExt {} SafeCommand workerGateway :=
    .command _ _ (greeterGateway_run _) ⟨lit "service-add", by decide, by decide⟩
      (by decide +kernel) addWorker_safe
  exact (live_routing_survives_restart quietExt {} hrun).1 (NtcRegistry.fits_of (by decide +kernel))
    (Or.inl rfl)

/-- `route-add` for a route that another service has: the row changes in
    place, the live router keeps the old route in front. -/
theorem repointed_route_differs :
    ¬ ∀ (E : Ext) (env : BootEnv) (g : Gateway), CommandRun E env (fun _ _ => True) g →
      g.reg.Fits → Unseeded env g.reg → RestartAgrees env g := by
  intro hall
  have hworker : CommandRun quietExt {} (fun _ _ => True) workerGateway :=
    .command _ _ (greeterGateway_run _) ⟨lit "service-add", by decide, by decide⟩
      (by decide +kernel) trivial
  have hrun : CommandRun quietExt {} (fun _ _ => True)
      (execControlCommand quietExt workerGateway pointToWorker).2 :=
    .command _ _ hworker ⟨lit "route-add", by decide, by decide⟩ (by decide +kernel) trivial
  have hagree := hall quietExt {} _ hrun (NtcRegistry.fits_of (by decide +kernel)) (Or.inl rfl)
    (lit "GET") (lit "/hi")
  have hlive : forwardTarget (execControlCommand quietExt workerGateway pointToWorker).2.services
      (execControlCommand quietExt workerGateway pointToWorker).2.router (lit "GET") (lit "/hi") =
      some (lit "greeter") := by decide +kernel
  have hrestart : restartTarget {} (execControlCommand quietExt workerGateway pointToWorker).2.reg
      (lit "GET") (lit "/hi") = some (lit "worker") := by decide +kernel
  rw [hlive, hrestart] at hagree
  exact absurd hagree (by decide)

end Naitron
