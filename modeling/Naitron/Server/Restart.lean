/-
  Naitron.Server.Restart

  What a restart makes of the registry: `load_registry` of server.c, and where
  the services and the router it builds forward a request.

  `restartTarget` runs the rebuilt router; `registryTarget` reads the answer
  off the rows.  They agree on a registry that fits the arrays and row structs
  `load_registry` copies into and that needs no seeding.
-/

import Naitron.Server.Commands

namespace Naitron

-- ============================================================================
-- load_registry
-- ============================================================================

/-- The environment variables `load_registry` reads. -/
structure BootEnv where
  controllerBin : Option Bytes := none
  controllerRoute : Option Bytes := none
  replicas : Option Bytes := none

/-- One `%<cap>s` of `sscanf`: a word of at most `cap` characters, and what is
    left. -/
def scanWord (cap : Nat) (s : Bytes) : Option (Bytes × Bytes) :=
  let s := s.dropWhile isSpace
  let w := (s.takeWhile fun c => !isSpace c).take cap
  if w.isEmpty then none else some (w, s.drop w.length)

/-- `sscanf(tok, "%7s %255s", method, path) >= 1 && path[0]`. -/
def seedRoute (tok : Bytes) : Option (Bytes × Bytes) :=
  (scanWord 7 tok).bind fun m => (scanWord 255 m.2).map fun p => (m.1, p.1)

/-- The routes of the seeded controller. -/
def seedRoutes (env : BootEnv) : List (Bytes × Bytes) :=
  match env.controllerRoute with
  | some (c :: cs) => (Lib.parts 59 (clip 1024 (c :: cs))).filterMap seedRoute
  | _ => [(lit "GET", lit "/api/hello"), (lit "GET", lit "/api/hello/:name")]

/-- The registry after `load_registry` has seeded an empty one. -/
def seedRegistry (env : BootEnv) (reg : NtcRegistry) : NtcRegistry :=
  if reg.services.isEmpty then
    match env.controllerBin with
    | none => reg
    | some bin =>
        (seedRoutes env).foldl
          (fun reg mp => (ntcRegistryAddRoute reg mp.1 mp.2 (lit "hello")).getD reg)
          (ntcRegistryAddService reg (lit "hello") bin)
  else reg

/-- A replica count in range. -/
def replicaCount (s : Bytes) : Option { n : Nat // 0 < n ∧ n ≤ ntcMaxReplicas } :=
  if h : 0 < (atoi s).toNat ∧ (atoi s).toNat ≤ ntcMaxReplicas then some ⟨(atoi s).toNat, h⟩
  else none

/-- `replicas` of a loaded service: the environment before the registry before
    the default. -/
def loadReplicas (env : BootEnv) (reg : NtcRegistry) (name : Bytes) :
    { n : Nat // 0 < n ∧ n ≤ ntcMaxReplicas } :=
  let stored := ntcRegistryGetConfig reg (clip 160 (lit "replicas:" ++ name)) 16
  ((env.replicas.bind replicaCount).or (stored.bind replicaCount)).getD
    ⟨1, Nat.one_pos, one_le_ntcMaxReplicas⟩

/-- Rows `load_registry` reads at most. -/
def loadServicesMax : Nat := 64

def loadRoutesMax : Nat := 256

/-- `ntc_service_row`, loaded. -/
def loadService (env : BootEnv) (reg : NtcRegistry) (row : Bytes × Bytes) : Service :=
  { name := clip 64 row.1
    bin := clip 256 row.2
    replicas := (loadReplicas env reg (clip 64 row.1)).1
    replicas_pos := (loadReplicas env reg (clip 64 row.1)).2.1
    replicas_le := (loadReplicas env reg (clip 64 row.1)).2.2 }

/-- `ntc_registry_list_routes`: the routes of the services that have a row. -/
def listRoutes (reg : NtcRegistry) : List RouteRow :=
  (reg.routes.filter fun row => reg.services.any (·.1 == row.service)).take loadRoutesMax

/-- `find_service` in a list of services. -/
def serviceIndex (services : List Service) (name : Bytes) : Option Nat :=
  services.findIdx? fun svc => svc.name == name

/-- The body of the loop over the routes. -/
def loadRoute (services : List Service) (router : NtcRouter) (row : RouteRow) : NtcRouter :=
  match serviceIndex services (clip 64 row.service) with
  | none => router
  | some i =>
      (ntcRouterAdd router (clip 8 row.method) (clip 128 row.pattern) (.forward i)).getD router

/-- `load_registry`: the registry, services and router it leaves. -/
def loadRegistry (env : BootEnv) (reg : NtcRegistry) (router : NtcRouter) :
    NtcRegistry × List Service × NtcRouter :=
  let reg := seedRegistry env reg
  if reg.services.isEmpty then (reg, [], router)
  else
    let services := (reg.services.take loadServicesMax).map (loadService env reg)
    (reg, services, (listRoutes reg).foldl (loadRoute services) router)

/-- The router `ntc_builtin_register` leaves. -/
def builtinRouter : NtcRouter :=
  [⟨lit "GET", lit "/health", [⟨lit "health", false⟩], .health, by decide⟩,
    ⟨lit "GET", lit "/version", [⟨lit "version", false⟩], .version, by decide⟩,
    ⟨lit "GET", lit "/api/echo/:name",
      [⟨lit "api", false⟩, ⟨lit "echo", false⟩, ⟨lit "name", true⟩], .echo, by decide⟩]

-- ============================================================================
-- Where a request goes
-- ============================================================================

/-- Name and `disabled` of every service. -/
def serviceFlags (services : List Service) : List (Bytes × Bool) :=
  services.map fun svc => (svc.name, svc.disabled)

/-- The service a handler forwards to, if it is in use. -/
def liveService (flags : List (Bytes × Bool)) : Handler → Option Bytes
  | .forward i => (flags[i]?).bind fun f => if f.2 then none else some f.1
  | _ => none

/-- The service a match forwards to. -/
def statusTarget (flags : List (Bytes × Bool)) : NtcRouteStatus → Option Bytes
  | .found rt _ => liveService flags rt.handler
  | _ => none

/-- The service that router and service table forward a request to. -/
def forwardTarget (services : List Service) (router : NtcRouter) (method path : Bytes) :
    Option Bytes :=
  statusTarget (serviceFlags services) (ntcRouterMatch router method path)

/-- The same after a restart that finds `reg`. -/
def restartTarget (env : BootEnv) (reg : NtcRegistry) (method path : Bytes) : Option Bytes :=
  forwardTarget (loadRegistry env reg builtinRouter).2.1 (loadRegistry env reg builtinRouter).2.2
    method path

/-- A route of this method and pattern takes the request. -/
def takes (method pattern reqMethod path : Bytes) : Bool :=
  reqMethod == method && routerMatches pattern path

/-- The first live route that takes a request. -/
def firstRoute (router : NtcRouter) (method path : Bytes) : Option RouteT :=
  router.find? fun rt => takes rt.method rt.pattern method path

/-- The first row that takes a request. -/
def firstRow (reg : NtcRegistry) (method path : Bytes) : Option RouteRow :=
  reg.routes.find? fun row => takes row.method row.pattern method path

/-- The router stops at the first route that takes the request. -/
theorem statusTarget_matchLoop {method path : Bytes} {ps : List SegT}
    (hps : splitSegments path ntcMaxSegments = some ps) (flags : List (Bytes × Bool)) :
    ∀ (router : NtcRouter) (mismatch : Bool),
      statusTarget flags (matchLoop method ps router mismatch) =
        (firstRoute router method path).bind fun rt => liveService flags rt.handler := by
  intro router
  induction router with
  | nil =>
      intro mismatch
      rw [matchLoop]
      cases mismatch <;> rfl
  | cons rt router ih =>
      intro mismatch
      have htakes : takes rt.method rt.pattern method path =
          (method == rt.method && segsMatch rt.segs ps) := by
        rw [takes, routerMatches, rt.hsegs, hps]
      have hcons : firstRoute (rt :: router) method path =
          if takes rt.method rt.pattern method path then some rt
          else firstRoute router method path := by
        rw [firstRoute, List.find?_cons]
        cases takes rt.method rt.pattern method path <;> rfl
      rw [matchLoop, hcons, htakes]
      cases hseg : segsMatch rt.segs ps with
      | false => simp [ih]
      | true =>
          by_cases hm : method = rt.method
          · simp [hm, statusTarget]
          · simp [hm, ih]

theorem forwardTarget_eq (services : List Service) (router : NtcRouter) (method path : Bytes) :
    forwardTarget services router method path =
      (firstRoute router method path).bind fun rt =>
        liveService (serviceFlags services) rt.handler := by
  rw [forwardTarget, ntcRouterMatch]
  cases hps : splitSegments path ntcMaxSegments with
  | some ps => exact statusTarget_matchLoop hps _ router false
  | none =>
      -- a path of too many segments is taken by no route
      have hnone : firstRoute router method path = none := by
        rw [firstRoute, List.find?_eq_none]
        intro rt _
        rw [takes, routerMatches, hps]
        cases splitSegments rt.pattern ntcMaxSegments <;> simp
      rw [hnone]
      rfl

/-- The service the registry's rows send a request to, once a restart has read
    all of them. -/
def registryTarget (reg : NtcRegistry) (method path : Bytes) : Option Bytes :=
  if (firstRoute builtinRouter method path).isSome then none
  else (firstRow reg method path).map (·.service)

-- ============================================================================
-- What a restart loads
-- ============================================================================

/-- A string a `char[cap]` holds whole. -/
def FitsText (cap : Nat) (s : Bytes) : Prop := s.length < cap ∧ 0 ∉ s

theorem clip_eq_self {cap : Nat} {s : Bytes} (h : FitsText cap s) : clip cap s = s :=
  clip_of_fits h.2 h.1

/-- The registry is within what `load_registry` reads: no more rows than its
    arrays hold, no text longer than the row structs. -/
structure NtcRegistry.Fits (reg : NtcRegistry) : Prop where
  services : reg.services.length ≤ loadServicesMax
  routes : reg.routes.length ≤ loadRoutesMax
  serviceRow : ∀ row ∈ reg.services, FitsText 64 row.1 ∧ FitsText 256 row.2
  routeRow : ∀ row ∈ reg.routes, FitsText 8 row.method ∧ FitsText 128 row.pattern

/-- What the schema of the registry enforces. -/
structure NtcRegistry.Sound (reg : NtcRegistry) : Prop where
  unique : (reg.services.map Prod.fst).Nodup
  foreign : ∀ row ∈ reg.routes, ∃ bin, (row.service, bin) ∈ reg.services

theorem firstRoute_append (r₁ r₂ : NtcRouter) (method path : Bytes) :
    firstRoute (r₁ ++ r₂) method path =
      (firstRoute r₁ method path).or (firstRoute r₂ method path) := by
  rw [firstRoute, List.find?_append]
  rfl

/-- A pattern of too many segments takes nothing, and the router refuses it;
    any other is appended. -/
theorem ntcRouterAdd_cases (router : NtcRouter) (method pattern : Bytes) (h : Handler) :
    (ntcRouterAdd router method pattern h = none ∧
      ∀ m p, takes method pattern m p = false) ∨
    ∃ rt : RouteT, rt.method = method ∧ rt.pattern = pattern ∧ rt.handler = h ∧
      ntcRouterAdd router method pattern h = some (router ++ [rt]) := by
  rw [ntcRouterAdd]
  split
  · rename_i hsegs
    refine Or.inl ⟨rfl, fun m p => ?_⟩
    rw [takes, routerMatches, hsegs]
    simp
  · rename_i segs hsegs
    exact Or.inr ⟨⟨method, pattern, segs, h, hsegs⟩, rfl, rfl, rfl, rfl⟩

/-- The service at the index `find_service` returns has that name. -/
theorem serviceFlags_serviceIndex {services : List Service} {name : Bytes} {i : Nat}
    (h : serviceIndex services name = some i) :
    ∃ d, (serviceFlags services)[i]? = some (name, d) := by
  rw [serviceIndex, List.findIdx?_eq_some_iff_getElem] at h
  obtain ⟨hlt, hname, -⟩ := h
  refine ⟨services[i].disabled, ?_⟩
  have hname' : services[i].name = name := by simpa using hname
  rw [serviceFlags, List.getElem?_map, List.getElem?_eq_getElem hlt, Option.map_some, hname']

/-- The loop over the routes adds the targets of its rows behind those of the
    router it starts from. -/
theorem foldl_loadRoute {services : List Service} (hlive : ∀ svc ∈ services, svc.disabled = false)
    (method path : Bytes) :
    ∀ (rows : List RouteRow) (router : NtcRouter),
      (∀ row ∈ rows, FitsText 8 row.method ∧ FitsText 128 row.pattern ∧ FitsText 64 row.service ∧
        ∃ i, serviceIndex services row.service = some i) →
      forwardTarget services (rows.foldl (loadRoute services) router) method path =
        (firstRoute router method path).elim
          ((rows.find? fun row => takes row.method row.pattern method path).map (·.service))
          fun rt => liveService (serviceFlags services) rt.handler := by
  intro rows
  induction rows with
  | nil =>
      intro router _
      rw [List.foldl_nil, forwardTarget_eq]
      cases firstRoute router method path <;> rfl
  | cons row rows ih =>
      intro router hrows
      obtain ⟨hm, hp, hs, i, hi⟩ := hrows row List.mem_cons_self
      have hrest := fun r hr => hrows r (List.mem_cons_of_mem row hr)
      have hstep : loadRoute services router row =
          (ntcRouterAdd router row.method row.pattern (.forward i)).getD router := by
        rw [loadRoute, clip_eq_self hs, hi, clip_eq_self hm, clip_eq_self hp]
      rw [List.foldl_cons, ih _ hrest, hstep, List.find?_cons]
      rcases ntcRouterAdd_cases router row.method row.pattern (.forward i) with
        ⟨hnone, htakes⟩ | ⟨rt, hrtm, hrtp, hrth, hsome⟩
      · rw [hnone, htakes method path]
        rfl
      · rw [hsome, Option.getD_some, firstRoute_append]
        have hlast : firstRoute [rt] method path =
            if takes row.method row.pattern method path then some rt else none := by
          rw [firstRoute, List.find?_singleton, hrtm, hrtp]
        rw [hlast]
        cases hfirst : firstRoute router method path with
        | some rt' => rfl
        | none =>
            cases takes row.method row.pattern method path with
            | false => rfl
            | true =>
                obtain ⟨d, hd⟩ := serviceFlags_serviceIndex hi
                have hmem := List.mem_of_getElem? hd
                obtain ⟨svc, hsvc, hflag⟩ := List.mem_map.mp hmem
                have hd' : d = false := by
                  rw [← hlive svc hsvc]
                  exact (congrArg Prod.snd hflag).symm
                show liveService (serviceFlags services) rt.handler = some row.service
                rw [hrth, liveService, hd, hd']
                rfl

/-- The name of a row is found in the loaded services. -/
theorem serviceIndex_load {env : BootEnv} {reg : NtcRegistry} (hfit : reg.Fits) {name bin : Bytes}
    (h : (name, bin) ∈ reg.services) :
    ∃ i, serviceIndex (reg.services.map (loadService env reg)) name = some i := by
  rw [← Option.isSome_iff_exists, serviceIndex, List.findIdx?_isSome, List.any_map,
    List.any_eq_true]
  refine ⟨(name, bin), h, ?_⟩
  have hname : clip 64 name = name := clip_eq_self (hfit.serviceRow _ h).1
  simp [loadService, hname]

/-- The built-in pages are not forwarded. -/
theorem builtin_not_forwarded {method path : Bytes} {rt : RouteT}
    (h : firstRoute builtinRouter method path = some rt) (flags : List (Bytes × Bool)) :
    liveService flags rt.handler = none := by
  have hmem : rt ∈ builtinRouter := List.mem_of_find?_eq_some h
  rw [builtinRouter] at hmem
  simp only [List.mem_cons, List.not_mem_nil, or_false] at hmem
  rcases hmem with rfl | rfl | rfl <;> rfl

/-- A restart finds a registry it does not seed. -/
def Unseeded (env : BootEnv) (reg : NtcRegistry) : Prop :=
  env.controllerBin = none ∨ reg.services ≠ []

theorem seedRegistry_of_seeded {env : BootEnv} {reg : NtcRegistry}
    (h : Unseeded env reg) : seedRegistry env reg = reg := by
  rw [seedRegistry]
  split_ifs with hempty
  · rcases h with hnone | hne
    · rw [hnone]
    · exact absurd (List.isEmpty_iff.mp hempty) hne
  · rfl

/-- A restart that seeds nothing forwards every request to the service of the
    first row that takes it. -/
theorem restartTarget_eq {env : BootEnv} {reg : NtcRegistry} (hfit : reg.Fits) (hsound : reg.Sound)
    (hseed : Unseeded env reg) (method path : Bytes) :
    restartTarget env reg method path = registryTarget reg method path := by
  have hreg := seedRegistry_of_seeded hseed
  by_cases hempty : reg.services = []
  · -- no service, and so no route either
    have hroutes : reg.routes = [] := by
      rw [List.eq_nil_iff_forall_not_mem]
      intro row hrow
      obtain ⟨bin, hbin⟩ := hsound.foreign row hrow
      rw [hempty] at hbin
      cases hbin
    rw [restartTarget, loadRegistry]
    dsimp only
    rw [hreg, if_pos (by rw [hempty]; rfl), forwardTarget_eq, registryTarget, firstRow, hroutes]
    cases hfirst : firstRoute builtinRouter method path with
    | none => rfl
    | some rt => exact builtin_not_forwarded hfirst _
  · have hservices : reg.services.take loadServicesMax = reg.services :=
      List.take_of_length_le hfit.services
    have hjoin : (reg.routes.filter fun row => reg.services.any (·.1 == row.service)) =
        reg.routes := by
      rw [List.filter_eq_self]
      intro row hrow
      obtain ⟨bin, hbin⟩ := hsound.foreign row hrow
      exact List.any_eq_true.mpr ⟨_, hbin, by simp⟩
    have hroutes : listRoutes reg = reg.routes := by
      rw [listRoutes, hjoin, List.take_of_length_le hfit.routes]
    rw [restartTarget, loadRegistry]
    dsimp only
    rw [hreg, if_neg (by simpa using hempty), hservices, hroutes, foldl_loadRoute]
    · rw [registryTarget, firstRow]
      cases hfirst : firstRoute builtinRouter method path with
      | none => rfl
      | some rt => exact builtin_not_forwarded hfirst _
    · intro svc hsvc
      obtain ⟨row, -, rfl⟩ := List.mem_map.mp hsvc
      rfl
    · intro row hrow
      obtain ⟨bin, hbin⟩ := hsound.foreign row hrow
      exact ⟨(hfit.routeRow row hrow).1, (hfit.routeRow row hrow).2, (hfit.serviceRow _ hbin).1,
        serviceIndex_load hfit hbin⟩

end Naitron
