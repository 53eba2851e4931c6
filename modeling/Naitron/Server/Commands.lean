/-
  Naitron.Server.Commands

  What a control command leaves behind when it fails.

  `service-add` and `route-add` write the registry first and the live
  structures second; when the second half is refused, the reply is an error
  and the row stays.  `service-scale` and `config-set` check before they write
  and have nothing to undo.  A failed command is without effect exactly when
  its second half cannot be refused, or its row was there before.
-/

import Naitron.Server.Slots

namespace Naitron

variable (E : Ext)

/-- The first `n` tokens of a command line. -/
def commandTokens : Nat → Bytes → List Bytes
  | 0, _ => []
  | n + 1, s =>
      match strtokR s with
      | none => []
      | some (t, save) => t :: commandTokens n save

/-- The registry's row of a service is this one. -/
def NtcRegistry.HasService (r : NtcRegistry) (name bin : Bytes) : Prop :=
  (name, bin) ∈ r.services ∧ ∀ row ∈ r.services, row.1 = name → row = (name, bin)

/-- The registry's row of a route is this one. -/
def NtcRegistry.HasRoute (r : NtcRegistry) (method pattern service : Bytes) : Prop :=
  ⟨method, pattern, service⟩ ∈ r.routes ∧
    ∀ row ∈ r.routes, row.method = method ∧ row.pattern = pattern →
      row = ⟨method, pattern, service⟩

/-- The stores a command writes are as they were. -/
def SameStores (g g' : Gateway) : Prop :=
  g'.reg = g.reg ∧ g'.router = g.router ∧ g'.services = g.services

/-- The commands that write. -/
def writingCommands : List Bytes :=
  [lit "service-add", lit "route-add", lit "service-scale", lit "config-set"]

/-- If the command answers with an error, it has changed nothing. -/
def FailsCleanly (g : Gateway) (cmdline : Bytes) : Prop :=
  (∃ cmd ∈ writingCommands, commandTokens 1 cmdline = [cmd]) →
    ntcSliceStartsWith (execControlCommand E g cmdline).1 (lit "ERR") = true →
    SameStores g (execControlCommand E g cmdline).2

/-- The second half of a `service-add` or `route-add` whose first half succeeds
    is not refused, or the first half writes what is already there. -/
structure SecondHalfSafe (g : Gateway) (cmdline : Bytes) : Prop where
  serviceAdd : ∀ name bin, commandTokens 3 cmdline = [lit "service-add", name, bin] →
    (E.io g.tick).ok = true →
    (findService g.toFlight name).isSome ∨
      (g.services.length < ntcMaxServices ∧ (E.io (g.tick + 1)).ok = true) ∨
      g.reg.HasService name bin
  routeAdd : ∀ method pattern service,
    commandTokens 4 cmdline = [lit "route-add", method, pattern, service] →
    (E.io g.tick).ok = true → g.reg.services.any (·.1 == service) = true →
    ((findService g.toFlight service).isSome ∧ (E.io (g.tick + 1)).ok = true ∧
      (splitSegments pattern ntcMaxSegments).isSome) ∨
      g.reg.HasRoute method pattern service

/-! ## Upserts -/

/-- A map over a list changes nothing exactly when it fixes every element. -/
theorem map_eq_self_iff {α : Type} {f : α → α} {xs : List α} :
    xs.map f = xs ↔ ∀ x ∈ xs, f x = x := by
  have h := List.map_inj_left (f := f) (g := id) (l := xs)
  rwa [List.map_id] at h

/-- An upsert changes nothing exactly when every row of that key is the new
    one, and there is one. -/
theorem upsert_eq_self_iff {α : Type} (isKey : α → Prop) [DecidablePred isKey] {q : α → Bool}
    (hq : ∀ r, q r = true ↔ isKey r) (row : α) (hrow : isKey row) (rows : List α) :
    (if rows.any q = true then rows.map fun r => if isKey r then row else r else rows ++ [row]) =
        rows ↔ row ∈ rows ∧ ∀ r ∈ rows, isKey r → r = row := by
  by_cases hany : rows.any q = true
  · rw [if_pos hany, map_eq_self_iff]
    obtain ⟨old, hold, hkey⟩ := List.any_eq_true.mp hany
    constructor
    · intro hfix
      have hval : ∀ r ∈ rows, isKey r → r = row := by
        intro r hr hk
        have := hfix r hr
        rw [if_pos hk] at this
        exact this.symm
      exact ⟨hval old hold ((hq old).mp hkey) ▸ hold, hval⟩
    · rintro ⟨-, hval⟩ r hr
      split_ifs with hk
      · exact (hval r hr hk).symm
      · rfl
  · rw [if_neg hany]
    constructor
    · intro h
      have := congrArg List.length h
      simp at this
    · rintro ⟨hmem, -⟩
      exact absurd (List.any_eq_true.mpr ⟨_, hmem, (hq row).mpr hrow⟩) hany

theorem ntcRegistryAddService_eq_self_iff (r : NtcRegistry) (name bin : Bytes) :
    ntcRegistryAddService r name bin = r ↔ r.HasService name bin := by
  have hrows : upsertRow r.services name bin = r.services ↔ r.HasService name bin :=
    upsert_eq_self_iff (fun row : Bytes × Bytes => row.1 = name) (fun _ => beq_iff_eq)
      (name, bin) rfl r.services
  rw [← hrows, ntcRegistryAddService]
  constructor
  · exact fun h => congrArg NtcRegistry.services h
  · intro h
    rw [h]

theorem ntcRegistryAddRoute_eq_self_iff (r : NtcRegistry) (method pattern service : Bytes)
    (h : r.services.any (·.1 == service) = true) :
    ntcRegistryAddRoute r method pattern service = some r ↔ r.HasRoute method pattern service := by
  have hrows := upsert_eq_self_iff
    (fun row : RouteRow => row.method = method ∧ row.pattern = pattern)
    (q := fun row => row.method == method && row.pattern == pattern) (by simp)
    ⟨method, pattern, service⟩ ⟨rfl, rfl⟩ r.routes
  rw [NtcRegistry.HasRoute, ← hrows, ntcRegistryAddRoute, if_pos h]
  dsimp only
  split_ifs with hany
  · rw [Option.some_inj]
    constructor
    · exact fun h => congrArg NtcRegistry.routes h
    · intro h
      rw [h]
  · rw [Option.some_inj]
    constructor
    · exact fun h => congrArg NtcRegistry.routes h
    · intro h
      rw [h]

/-- `ntc_registry_add_route` finds the service, or fails. -/
theorem ntcRegistryAddRoute_isSome_iff (r : NtcRegistry) (method pattern service : Bytes) :
    (ntcRegistryAddRoute r method pattern service).isSome ↔
      r.services.any (·.1 == service) = true := by
  rw [ntcRegistryAddRoute]
  by_cases h : r.services.any (·.1 == service) = true
  · rw [if_pos h]
    dsimp only
    exact iff_of_true (by split <;> rfl) h
  · rw [if_neg h]
    exact iff_of_false Bool.false_ne_true h

/-! ## Tokens -/

theorem commandTokens_cons {n : Nat} {s t : Bytes} {ts : List Bytes} :
    commandTokens (n + 1) s = t :: ts ↔
      ∃ save, strtokR s = some (t, save) ∧ commandTokens n save = ts := by
  rw [commandTokens]
  rcases strtokR s with _ | ⟨t', save⟩ <;> simp

/-- The gateway over another registry. -/
def Gateway.withReg (g : Gateway) (reg : NtcRegistry) : Gateway := { g with reg := reg }

/-- The gateway over another router. -/
def Gateway.withRouter (g : Gateway) (router : NtcRouter) : Gateway := { g with router := router }

/-- `service-add` with both of its arguments. -/
def serviceAdd (g : Gateway) (name bin : Bytes) : Bytes × Gateway :=
  if !(E.io g.tick).ok then (lit "ERR registry write failed\n", (g.ask E).2)
  else
    match serviceAddLive E ((g.ask E).2.withReg (ntcRegistryAddService g.reg name bin))
        name bin with
    | (.neg, g) => (lit "ERR too many services\n", g)
    | (.zero, g) => (lit "OK service added\n", g)

theorem cmdServiceAdd_eq (g : Gateway) {save name bin : Bytes}
    (h : commandTokens 2 save = [name, bin]) :
    cmdServiceAdd E g save = serviceAdd E g name bin := by
  obtain ⟨save₁, h₁, h⟩ := commandTokens_cons.mp h
  obtain ⟨save₂, h₂, -⟩ := commandTokens_cons.mp h
  simp only [cmdServiceAdd, h₁, h₂]
  rfl

theorem cmdServiceAdd_usage (g : Gateway) {save : Bytes}
    (h : ∀ name bin, commandTokens 2 save ≠ [name, bin]) :
    cmdServiceAdd E g save = (lit "ERR usage: service-add <name> <bin>\n", g) := by
  rw [cmdServiceAdd]
  rcases h₁ : strtokR save with _ | ⟨name, save₁⟩
  · rfl
  rcases h₂ : strtokR save₁ with _ | ⟨bin, save₂⟩
  · dsimp only
    rw [h₂]
  exact absurd (commandTokens_cons.mpr ⟨save₁, h₁, commandTokens_cons.mpr ⟨save₂, h₂, rfl⟩⟩)
    (h name bin)

/-- `route-add` with its three arguments. -/
def routeAdd (g : Gateway) (method pattern service : Bytes) : Bytes × Gateway :=
  match (if (E.io g.tick).ok then ntcRegistryAddRoute g.reg method pattern service else none) with
  | none => (lit "ERR unknown service\n", (g.ask E).2)
  | some reg =>
      let g' := (g.ask E).2.withReg reg
      match findService g.toFlight service with
      | none => (lit "ERR service not loaded\n", g')
      | some i =>
          match (if (E.io (g.tick + 1)).ok then ntcRouterAdd g.router method pattern (.forward i)
            else none) with
          | none => (lit "ERR route register failed\n", (g'.ask E).2)
          | some router => (lit "OK route added\n", (g'.ask E).2.withRouter router)

theorem cmdRouteAdd_eq (g : Gateway) {save method pattern service : Bytes}
    (h : commandTokens 3 save = [method, pattern, service]) :
    cmdRouteAdd E g save = routeAdd E g method pattern service := by
  obtain ⟨save₁, h₁, h⟩ := commandTokens_cons.mp h
  obtain ⟨save₂, h₂, h⟩ := commandTokens_cons.mp h
  obtain ⟨save₃, h₃, -⟩ := commandTokens_cons.mp h
  simp only [cmdRouteAdd, h₁, h₂, h₃]
  rfl

theorem cmdRouteAdd_usage (g : Gateway) {save : Bytes}
    (h : ∀ method pattern service, commandTokens 3 save ≠ [method, pattern, service]) :
    cmdRouteAdd E g save = (lit "ERR usage: route-add <METHOD> <pattern> <service>\n", g) := by
  rw [cmdRouteAdd]
  dsimp only
  rcases h₁ : strtokR save with _ | ⟨method, save₁⟩
  · rfl
  dsimp only
  rcases h₂ : strtokR save₁ with _ | ⟨pattern, save₂⟩
  · rfl
  dsimp only
  rcases h₃ : strtokR save₂ with _ | ⟨service, save₃⟩
  · rfl
  exact absurd (commandTokens_cons.mpr ⟨save₁, h₁, commandTokens_cons.mpr ⟨save₂, h₂,
    commandTokens_cons.mpr ⟨save₃, h₃, rfl⟩⟩⟩) (h method pattern service)

/-! ## Clean failures -/

/-- An error reply goes with unchanged stores. -/
def CleanReply (g : Gateway) (r : Bytes × Gateway) : Prop :=
  ntcSliceStartsWith r.1 (lit "ERR") = true → SameStores g r.2

theorem SameStores.refl (g : Gateway) : SameStores g g := ⟨rfl, rfl, rfl⟩

/-- An error reply whose only effect is on the registry is clean exactly when
    the registry is as before. -/
theorem cleanReply_iff_reg {g : Gateway} {reply : Bytes} {g' : Gateway}
    (hreply : ntcSliceStartsWith reply (lit "ERR") = true) (hrouter : g'.router = g.router)
    (hservices : g'.services = g.services) :
    CleanReply g (reply, g') ↔ g'.reg = g.reg := by
  constructor
  · exact fun h => (h hreply).1
  · exact fun h _ => ⟨h, hrouter, hservices⟩

/-- When `service_add_live` takes the service. -/
theorem serviceAddLive_zero_iff (g : Gateway) (name bin : Bytes) :
    (serviceAddLive E g name bin).1 = .zero ↔
      (findService g.toFlight name).isSome ∨
        (g.services.length < ntcMaxServices ∧ (E.io g.tick).ok = true) := by
  rw [serviceAddLive]
  cases hfind : findService g.toFlight name with
  | some i => simp
  | none =>
      dsimp only
      by_cases hfull : ntcMaxServices ≤ g.services.length
      · rw [if_pos hfull]
        simp [Nat.not_lt.mpr hfull]
      · rw [if_neg hfull]
        by_cases hok : (g.ask E).1.ok = true
        · rw [if_pos hok]
          exact iff_of_true rfl (Or.inr ⟨Nat.not_le.mp hfull, hok⟩)
        · rw [if_neg hok]
          refine iff_of_false (by simp) ?_
          rintro (h | ⟨-, h⟩)
          · cases h
          · exact hok h

/-- A refused service leaves no trace in memory. -/
theorem serviceAddLive_neg {g g' : Gateway} {name bin : Bytes}
    (h : serviceAddLive E g name bin = (.neg, g')) : SameStores g g' := by
  rw [serviceAddLive] at h
  cases hfind : findService g.toFlight name with
  | some i =>
      rw [hfind] at h
      cases h
  | none =>
      rw [hfind] at h
      dsimp only at h
      by_cases hfull : ntcMaxServices ≤ g.services.length
      · rw [if_pos hfull] at h
        cases h
        exact .refl g
      · rw [if_neg hfull] at h
        by_cases hok : (g.ask E).1.ok = true
        · rw [if_pos hok] at h
          cases h
        · rw [if_neg hok] at h
          cases h
          exact .refl g

/-- `service-add`: the row stays behind when the live service is refused. -/
theorem serviceAdd_clean_iff (g : Gateway) (name bin : Bytes) :
    CleanReply g (serviceAdd E g name bin) ↔
      ((E.io g.tick).ok = true →
        (findService g.toFlight name).isSome ∨
          (g.services.length < ntcMaxServices ∧ (E.io (g.tick + 1)).ok = true) ∨
          g.reg.HasService name bin) := by
  rw [serviceAdd]
  cases hok : (E.io g.tick).ok with
  | false => exact iff_of_true (fun _ => SameStores.refl g) (by simp)
  | true =>
      rw [if_neg (by simp)]
      have hzero := serviceAddLive_zero_iff E
        ((g.ask E).2.withReg (ntcRegistryAddService g.reg name bin)) name bin
      rcases hlive : serviceAddLive E
        ((g.ask E).2.withReg (ntcRegistryAddService g.reg name bin)) name bin with ⟨rc, g'⟩
      rw [hlive] at hzero
      cases rc with
      | zero =>
          have hreply : ¬ ntcSliceStartsWith (lit "OK service added\n") (lit "ERR") = true := by
            decide
          refine iff_of_true (fun h => absurd h hreply) fun _ => ?_
          rcases hzero.mp rfl with h | h
          · exact Or.inl h
          · exact Or.inr (Or.inl h)
      | neg =>
          obtain ⟨hreg, hrouter, hservices⟩ := serviceAddLive_neg E hlive
          have hrouter' : g'.router = g.router := hrouter
          have hservices' : g'.services = g.services := hservices
          have hrefused := mt hzero.mpr (by simp)
          obtain ⟨hfind, hroom⟩ := not_or.mp hrefused
          dsimp only
          rw [cleanReply_iff_reg (by decide) hrouter' hservices', hreg]
          show ntcRegistryAddService g.reg name bin = g.reg ↔ _
          rw [ntcRegistryAddService_eq_self_iff]
          constructor
          · exact fun h _ => Or.inr (Or.inr h)
          · intro h
            rcases h rfl with h | h | h
            · exact absurd h hfind
            · exact absurd h hroom
            · exact h

theorem ntcRouterAdd_isSome_iff (r : NtcRouter) (method pattern : Bytes) (h : Handler) :
    (ntcRouterAdd r method pattern h).isSome ↔ (splitSegments pattern ntcMaxSegments).isSome := by
  rw [ntcRouterAdd]
  split
  · rename_i hsegs
    exact iff_of_false Bool.false_ne_true (by simp [hsegs])
  · rename_i segs hsegs
    exact iff_of_true rfl (Option.isSome_of_eq_some hsegs)

/-- `route-add`: the row stays behind when the live route is refused. -/
theorem routeAdd_clean_iff (g : Gateway) (method pattern service : Bytes) :
    CleanReply g (routeAdd E g method pattern service) ↔
      ((E.io g.tick).ok = true → g.reg.services.any (·.1 == service) = true →
        ((findService g.toFlight service).isSome ∧ (E.io (g.tick + 1)).ok = true ∧
          (splitSegments pattern ntcMaxSegments).isSome) ∨
          g.reg.HasRoute method pattern service) := by
  rw [routeAdd]
  cases hok : (E.io g.tick).ok with
  | false => exact iff_of_true (fun _ => SameStores.refl g) (by simp)
  | true =>
      rw [if_pos rfl]
      have hrow := ntcRegistryAddRoute_isSome_iff g.reg method pattern service
      rcases hreg : ntcRegistryAddRoute g.reg method pattern service with _ | reg
      · rw [hreg] at hrow
        refine iff_of_true (fun _ => SameStores.refl g) fun _ hany => ?_
        exact absurd (hrow.mpr hany) (by simp)
      · rw [hreg] at hrow
        have hany := hrow.mp rfl
        have hself := ntcRegistryAddRoute_eq_self_iff g.reg method pattern service hany
        rw [hreg, Option.some_inj] at hself
        dsimp only
        rcases hfind : findService g.toFlight service with _ | i
        · have hclean : CleanReply g (lit "ERR service not loaded\n", (g.ask E).2.withReg reg) ↔
              reg = g.reg := cleanReply_iff_reg (by decide) rfl rfl
          dsimp only
          rw [hclean, hself]
          simp [hany]
        · dsimp only
          have hadd := ntcRouterAdd_isSome_iff g.router method pattern (.forward i)
          rcases hlive : (if (E.io (g.tick + 1)).ok = true then
            ntcRouterAdd g.router method pattern (.forward i) else none) with _ | router
          · have hclean : CleanReply g (lit "ERR route register failed\n",
                (((g.ask E).2.withReg reg).ask E).2) ↔ reg = g.reg :=
              cleanReply_iff_reg (by decide) rfl rfl
            dsimp only
            rw [hclean, hself]
            -- the allocation failed, or the pattern has too many segments
            have hrefused : ¬ ((E.io (g.tick + 1)).ok = true ∧
                (splitSegments pattern ntcMaxSegments).isSome = true) := by
              rintro ⟨halloc, hsegs⟩
              rw [if_pos halloc] at hlive
              rw [hlive] at hadd
              exact absurd (hadd.mpr hsegs) (by simp)
            simp [hany, hrefused]
          · have hreply : ¬ ntcSliceStartsWith (lit "OK route added\n") (lit "ERR") = true := by
              decide
            refine iff_of_true (fun h => absurd h hreply) fun _ _ => Or.inl ?_
            split_ifs at hlive with halloc
            exact ⟨rfl, halloc, hadd.mp (Option.isSome_of_eq_some hlive)⟩

/-- `service-scale` fails before it writes. -/
theorem cmdServiceScale_clean (g : Gateway) (save : Bytes) :
    CleanReply g (cmdServiceScale E g save) := by
  have hreply : ∀ name n, ¬ ntcSliceStartsWith
      (lit "OK scaled " ++ name ++ lit " to " ++ n ++ lit " replicas\n") (lit "ERR") = true := by
    intro name n
    simp only [List.append_assoc, ntcSliceStartsWith]
    exact Bool.false_ne_true
  rw [cmdServiceScale]
  dsimp only
  rcases strtokR save with _ | ⟨name, save₁⟩
  · exact fun _ => .refl g
  dsimp only
  rcases strtokR save₁ with _ | ⟨ns, save₂⟩
  · exact fun _ => .refl g
  dsimp only
  split_ifs with hn
  · rcases findService g.toFlight name with _ | i
    · exact fun _ => .refl g
    dsimp only
    rcases g.services[i]? with _ | svc
    · exact fun _ => .refl g
    · exact fun h => absurd h (hreply _ _)
  · exact fun _ => .refl g

/-- So does `config-set`. -/
theorem cmdConfigSet_clean (g : Gateway) (save : Bytes) :
    CleanReply g (cmdConfigSet E g save) := by
  have hreply : ¬ ntcSliceStartsWith (lit "OK config set\n") (lit "ERR") = true := by decide
  rw [cmdConfigSet]
  dsimp only
  rcases strtokR save with _ | ⟨key, save₁⟩
  · exact fun _ => .refl g
  dsimp only
  split_ifs
  · exact fun _ => .refl g
  · exact fun _ => .refl g
  · exact fun h => absurd h hreply
  · exact fun h => absurd h hreply

/-! ## The command line -/

theorem execControlCommand_serviceAdd (g : Gateway) {cmdline save : Bytes}
    (h : strtokR cmdline = some (lit "service-add", save)) :
    execControlCommand E g cmdline = cmdServiceAdd E g save := by
  rw [execControlCommand, h]
  dsimp only
  rw [if_neg (by decide), if_neg (by decide), if_pos rfl]

theorem execControlCommand_routeAdd (g : Gateway) {cmdline save : Bytes}
    (h : strtokR cmdline = some (lit "route-add", save)) :
    execControlCommand E g cmdline = cmdRouteAdd E g save := by
  rw [execControlCommand, h]
  dsimp only
  rw [if_neg (by decide), if_neg (by decide), if_neg (by decide), if_pos rfl]

theorem execControlCommand_serviceScale (g : Gateway) {cmdline save : Bytes}
    (h : strtokR cmdline = some (lit "service-scale", save)) :
    execControlCommand E g cmdline = cmdServiceScale E g save := by
  rw [execControlCommand, h]
  dsimp only
  rw [if_neg (by decide), if_neg (by decide), if_neg (by decide), if_neg (by decide),
    if_neg (by decide), if_pos rfl]

theorem execControlCommand_configSet (g : Gateway) {cmdline save : Bytes}
    (h : strtokR cmdline = some (lit "config-set", save)) :
    execControlCommand E g cmdline = cmdConfigSet E g save := by
  rw [execControlCommand, h]
  dsimp only
  rw [if_neg (by decide), if_neg (by decide), if_neg (by decide), if_neg (by decide),
    if_neg (by decide), if_neg (by decide), if_neg (by decide), if_neg (by decide), if_pos rfl]

theorem failsCleanly_iff {g : Gateway} {cmdline cmd save : Bytes}
    (h : strtokR cmdline = some (cmd, save)) (hcmd : cmd ∈ writingCommands) :
    FailsCleanly E g cmdline ↔ CleanReply g (execControlCommand E g cmdline) := by
  have htok : commandTokens 1 cmdline = [cmd] := commandTokens_cons.mpr ⟨save, h, rfl⟩
  exact ⟨fun hclean => hclean ⟨cmd, hcmd, htok⟩, fun hclean _ => hclean⟩

/-- A line that is neither a `service-add` nor a `route-add` has no second
    half. -/
theorem secondHalfSafe_of_ne {g : Gateway} {cmdline : Bytes}
    (h : ∀ cmd save, strtokR cmdline = some (cmd, save) →
      cmd ≠ lit "service-add" ∧ cmd ≠ lit "route-add") : SecondHalfSafe E g cmdline where
  serviceAdd _ _ htok := by
    obtain ⟨save, hcmd, -⟩ := commandTokens_cons.mp htok
    exact absurd rfl (h _ _ hcmd).1
  routeAdd _ _ _ htok := by
    obtain ⟨save, hcmd, -⟩ := commandTokens_cons.mp htok
    exact absurd rfl (h _ _ hcmd).2

theorem serviceAdd_ne_routeAdd : lit "service-add" ≠ lit "route-add" := by decide

theorem secondHalfSafe_serviceAdd {g : Gateway} {cmdline save : Bytes}
    (h : strtokR cmdline = some (lit "service-add", save)) :
    SecondHalfSafe E g cmdline ↔ CleanReply g (cmdServiceAdd E g save) := by
  have htok : ∀ {name bin}, commandTokens 3 cmdline = [lit "service-add", name, bin] ↔
      commandTokens 2 save = [name, bin] := by
    intro name bin
    rw [commandTokens_cons]
    constructor
    · rintro ⟨save', hs, hargs⟩
      rw [h] at hs
      cases hs
      exact hargs
    · exact fun hargs => ⟨save, h, hargs⟩
  constructor
  · intro hsafe
    by_cases hargs : ∃ name bin, commandTokens 2 save = [name, bin]
    · obtain ⟨name, bin, hargs⟩ := hargs
      rw [cmdServiceAdd_eq E g hargs, serviceAdd_clean_iff]
      exact hsafe.serviceAdd name bin (htok.mpr hargs)
    · rw [cmdServiceAdd_usage E g fun name bin hh => hargs ⟨name, bin, hh⟩]
      exact fun _ => .refl g
  · intro hclean
    refine ⟨fun name bin hline => ?_, fun _ _ _ hline => ?_⟩
    · rw [cmdServiceAdd_eq E g (htok.mp hline), serviceAdd_clean_iff] at hclean
      exact hclean
    · obtain ⟨_, hs, -⟩ := commandTokens_cons.mp hline
      rw [h] at hs
      exact absurd (Prod.mk.inj (Option.some_inj.mp hs)).1 serviceAdd_ne_routeAdd

theorem secondHalfSafe_routeAdd {g : Gateway} {cmdline save : Bytes}
    (h : strtokR cmdline = some (lit "route-add", save)) :
    SecondHalfSafe E g cmdline ↔ CleanReply g (cmdRouteAdd E g save) := by
  have htok : ∀ {method pattern service},
      commandTokens 4 cmdline = [lit "route-add", method, pattern, service] ↔
      commandTokens 3 save = [method, pattern, service] := by
    intro method pattern service
    rw [commandTokens_cons]
    constructor
    · rintro ⟨save', hs, hargs⟩
      rw [h] at hs
      cases hs
      exact hargs
    · exact fun hargs => ⟨save, h, hargs⟩
  constructor
  · intro hsafe
    by_cases hargs : ∃ method pattern service, commandTokens 3 save = [method, pattern, service]
    · obtain ⟨method, pattern, service, hargs⟩ := hargs
      rw [cmdRouteAdd_eq E g hargs, routeAdd_clean_iff]
      exact hsafe.routeAdd method pattern service (htok.mpr hargs)
    · rw [cmdRouteAdd_usage E g fun method pattern service hh =>
        hargs ⟨method, pattern, service, hh⟩]
      exact fun _ => .refl g
  · intro hclean
    refine ⟨fun _ _ hline => ?_, fun method pattern service hline => ?_⟩
    · obtain ⟨_, hs, -⟩ := commandTokens_cons.mp hline
      rw [h] at hs
      exact absurd (Prod.mk.inj (Option.some_inj.mp hs)).1.symm serviceAdd_ne_routeAdd
    · rw [cmdRouteAdd_eq E g (htok.mp hline), routeAdd_clean_iff] at hclean
      exact hclean

/-- A command that fails changes nothing, exactly when its second half cannot
    fail after the registry was written. -/
theorem failed_command_changes_nothing_iff (g : Gateway) (cmdline : Bytes) :
    FailsCleanly E g cmdline ↔ SecondHalfSafe E g cmdline := by
  by_cases hadd : ∃ save, strtokR cmdline = some (lit "service-add", save)
  · obtain ⟨save, h⟩ := hadd
    rw [failsCleanly_iff E h (by decide), execControlCommand_serviceAdd E g h,
      secondHalfSafe_serviceAdd E h]
  by_cases hroute : ∃ save, strtokR cmdline = some (lit "route-add", save)
  · obtain ⟨save, h⟩ := hroute
    rw [failsCleanly_iff E h (by decide), execControlCommand_routeAdd E g h,
      secondHalfSafe_routeAdd E h]
  have hsafe : SecondHalfSafe E g cmdline := by
    refine secondHalfSafe_of_ne E fun cmd save hcmd => ⟨?_, ?_⟩
    · rintro rfl
      exact hadd ⟨save, hcmd⟩
    · rintro rfl
      exact hroute ⟨save, hcmd⟩
  refine iff_of_true ?_ hsafe
  rintro ⟨cmd, hcmd, htok⟩
  obtain ⟨save, hline, -⟩ := commandTokens_cons.mp htok
  simp only [writingCommands, List.mem_cons, List.not_mem_nil, or_false] at hcmd
  rcases hcmd with rfl | rfl | rfl | rfl
  · exact absurd ⟨save, hline⟩ hadd
  · exact absurd ⟨save, hline⟩ hroute
  · rw [execControlCommand_serviceScale E g hline]
    exact cmdServiceScale_clean E g save
  · rw [execControlCommand_configSet E g hline]
    exact cmdConfigSet_clean E g save

/-! ### A route with too many segments -/

/-- The run of `helloStart`, over a registry that has the greeter's row. -/
def storedStart (E : Ext) : Gateway :=
  startServices E ((bootGateway helloServices helloRouter (.set 65 (lit "secret"))).withReg
    { services := [(lit "greeter", lit "bin/greeter")] })

theorem storedStart_reachable : Reachable E (storedStart E) := by
  have hfresh := bootGateway_fresh helloServices_idle helloRouter (.set 65 (lit "secret"))
  exact .start _ ⟨hfresh.conns, hfresh.ctrls, hfresh.noReplica, hfresh.slots, hfresh.issued,
    hfresh.received, hfresh.delivered, hfresh.queued⟩

/-- A pattern of seventeen segments. -/
def longPattern : Bytes := lit "/a/a/a/a/a/a/a/a/a/a/a/a/a/a/a/a/a"

/-- `route-add` with that pattern is refused by the router and stays in the
    registry. -/
theorem refused_route_stays_in_registry :
    Reachable quietExt (storedStart quietExt) ∧
      ¬ FailsCleanly quietExt (storedStart quietExt)
        (lit "route-add GET " ++ longPattern ++ lit " greeter") := by
  refine ⟨storedStart_reachable quietExt, ?_⟩
  have hline : ∃ save, strtokR (lit "route-add GET " ++ longPattern ++ lit " greeter") =
      some (lit "route-add", save) ∧
      commandTokens 3 save = [lit "GET", longPattern, lit "greeter"] :=
    ⟨_, rfl, by decide⟩
  obtain ⟨save, hcmd, hargs⟩ := hline
  rw [failsCleanly_iff quietExt hcmd (by decide), execControlCommand_routeAdd quietExt _ hcmd,
    cmdRouteAdd_eq quietExt _ hargs, routeAdd_clean_iff]
  intro hclean
  rcases hclean rfl (by decide +kernel) with ⟨-, -, hsegs⟩ | ⟨hrow, -⟩
  · exact absurd hsegs (by decide)
  · have hempty : (storedStart quietExt).reg.routes = [] := by decide +kernel
    rw [hempty] at hrow
    cases hrow

end Naitron
