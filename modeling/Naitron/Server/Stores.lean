/-
  Naitron.Server.Stores

  The two places a route is kept, and what the commands do to both.

  The registry updates rows in place and deletes a service's routes with it;
  the live router only appends, and `service-rm` only marks the service.
  `Stores` is what both sides are read from, with the three commands as
  operations on it.  `Same` says that both forward every request to the same
  service, and each operation keeps it exactly when it does not re-point a row
  that serves a request, does not put a route behind one of a removed service,
  does not remove a service that hides a row of another, and does not bring
  routes back whose rows are gone.
-/

import Naitron.Server.Restart

namespace Naitron

-- ============================================================================
-- The stores
-- ============================================================================

/-- Registry, router, and name and `disabled` of every service. -/
structure Stores where
  reg : NtcRegistry
  router : NtcRouter
  flags : List (Bytes × Bool)

namespace Stores

/-- `find_service`. -/
def index (st : Stores) (name : Bytes) : Option Nat := st.flags.findIdx? fun f => f.1 == name

/-- Where the live gateway forwards a request. -/
def target (st : Stores) (method path : Bytes) : Option Bytes :=
  (firstRoute st.router method path).bind fun rt => liveService st.flags rt.handler

/-- Live routing is what a restart would give. -/
def Same (st : Stores) : Prop :=
  ∀ method path, st.target method path = registryTarget st.reg method path

/-- Services and routes refer to each other, on both sides. -/
structure Wired (st : Stores) : Prop where
  builtins : ∃ rest, st.router = builtinRouter ++ rest
  forwards : ∀ rt ∈ st.router, ∀ i, rt.handler = .forward i → i < st.flags.length
  names : (st.flags.map Prod.fst).Nodup
  sound : st.reg.Sound
  enabled : ∀ name, (∃ bin, (name, bin) ∈ st.reg.services) ↔ (name, false) ∈ st.flags

/-- The flags after `service_add_live`: the service of that name is enabled,
    or a new one added. -/
def enable (st : Stores) (name : Bytes) : List (Bytes × Bool) :=
  match st.index name with
  | some i => st.flags.modify i fun f => (f.1, false)
  | none => st.flags ++ [(name, false)]

/-- The flags after `service-rm`. -/
def disable (st : Stores) (name : Bytes) : List (Bytes × Bool) :=
  match st.index name with
  | some i => st.flags.modify i fun f => (f.1, true)
  | none => st.flags

/-- A successful `service-add`. -/
def addService (st : Stores) (name bin : Bytes) : Stores :=
  { st with reg := ntcRegistryAddService st.reg name bin, flags := st.enable name }

/-- A successful `service-rm`. -/
def removeService (st : Stores) (name : Bytes) : Stores :=
  { st with reg := (ntcRegistryRemoveService st.reg name).2, flags := st.disable name }

/-- A successful `route-add`. -/
def addRoute (st : Stores) (method pattern service : Bytes) : Stores :=
  { st with
    reg := (ntcRegistryAddRoute st.reg method pattern service).getD st.reg
    router := (ntcRouterAdd st.router method pattern
      (.forward ((st.index service).getD 0))).getD st.router }

/-! ## Reading targets -/

/-- The first live route that takes the request is one of service `i`. -/
def Serves (st : Stores) (i : Nat) (method path : Bytes) : Prop :=
  ∃ rt, firstRoute st.router method path = some rt ∧ rt.handler = .forward i

theorem index_eq_some {st : Stores} {name : Bytes} {i : Nat} (h : st.index name = some i) :
    ∃ d, st.flags[i]? = some (name, d) := by
  rw [index, List.findIdx?_eq_some_iff_getElem] at h
  obtain ⟨hlt, hname, -⟩ := h
  have hname' : st.flags[i].1 = name := by simpa using hname
  exact ⟨st.flags[i].2, by rw [List.getElem?_eq_getElem hlt, ← hname']⟩

/-- A name stands at one place only. -/
theorem flags_inj {st : Stores} (hnames : (st.flags.map Prod.fst).Nodup) {i j : Nat} {name : Bytes}
    {d d' : Bool} (hi : st.flags[i]? = some (name, d)) (hj : st.flags[j]? = some (name, d')) :
    i = j := by
  have hlt : i < (st.flags.map Prod.fst).length := by
    rw [List.length_map]
    exact (List.getElem?_eq_some_iff.mp hi).1
  refine (List.getElem?_inj hlt hnames).mp ?_
  rw [List.getElem?_map, List.getElem?_map, hi, hj]
  rfl

theorem index_of_flag {st : Stores} (hnames : (st.flags.map Prod.fst).Nodup) {i : Nat}
    {name : Bytes} {d : Bool} (h : st.flags[i]? = some (name, d)) : st.index name = some i := by
  cases hidx : st.index name with
  | some j =>
      obtain ⟨d', hj⟩ := index_eq_some hidx
      rw [flags_inj hnames hj h]
  | none =>
      rw [index, List.findIdx?_eq_none_iff] at hidx
      exact absurd (hidx _ (List.mem_of_getElem? h)) (by simp)

/-- The target of a request whose first route is one of service `i`. -/
theorem target_of_serves {st : Stores} {i : Nat} {method path : Bytes}
    (h : st.Serves i method path) :
    st.target method path = (st.flags[i]?).bind fun f => if f.2 then none else some f.1 := by
  obtain ⟨rt, hrt, hi⟩ := h
  rw [target, hrt, Option.bind_some, hi]
  rfl

theorem target_eq_some {st : Stores} {method path name : Bytes}
    (h : st.target method path = some name) :
    ∃ i, st.Serves i method path ∧ st.flags[i]? = some (name, false) := by
  obtain ⟨rt, hrt, hlive⟩ := Option.bind_eq_some_iff.mp h
  cases hh : rt.handler with
  | forward i =>
      rw [hh] at hlive
      obtain ⟨⟨n, d⟩, hf, hd⟩ := Option.bind_eq_some_iff.mp hlive
      cases d with
      | true => cases hd
      | false =>
          cases hd
          exact ⟨i, ⟨rt, hrt, hh⟩, hf⟩
  | health => rw [hh] at hlive; cases hlive
  | version => rw [hh] at hlive; cases hlive
  | echo => rw [hh] at hlive; cases hlive

/-- A change of flags that leaves service `i` of a request alone leaves its
    target alone. -/
theorem target_congr {st st' : Stores} (hrouter : st'.router = st.router) {method path : Bytes}
    (h : ∀ i, st.Serves i method path → st'.flags[i]? = st.flags[i]?) :
    st'.target method path = st.target method path := by
  rw [target, target, hrouter]
  cases hrt : firstRoute st.router method path with
  | none => rfl
  | some rt =>
      rw [Option.bind_some, Option.bind_some]
      cases hh : rt.handler with
      | forward i => rw [liveService, liveService, h i ⟨rt, hrt, hh⟩]
      | health => rfl
      | version => rfl
      | echo => rfl

theorem Serves.lt {st : Stores} (hw : st.Wired) {i : Nat} {method path : Bytes}
    (h : st.Serves i method path) : i < st.flags.length := by
  obtain ⟨rt, hrt, hi⟩ := h
  exact hw.forwards rt (List.mem_of_find?_eq_some hrt) i hi

theorem target_of_flag {st : Stores} {i : Nat} {method path name : Bytes}
    (h : st.Serves i method path) (hf : st.flags[i]? = some (name, false)) :
    st.target method path = some name := by
  rw [target_of_serves h, hf]
  rfl

theorem registryTarget_eq_some_iff {reg : NtcRegistry} {method path name : Bytes} :
    registryTarget reg method path = some name ↔
      firstRoute builtinRouter method path = none ∧
        ∃ row, firstRow reg method path = some row ∧ row.service = name := by
  rw [registryTarget]
  cases firstRoute builtinRouter method path with
  | some rt => simp
  | none => simp [Option.map_eq_some_iff]

/-! ## service-add -/

theorem addService_router (st : Stores) (name bin : Bytes) :
    (st.addService name bin).router = st.router := rfl

/-- A new or already enabled service changes no target.  One that comes back
    takes its old routes with it. -/
theorem addService_same_iff {st : Stores} (hw : st.Wired) (hs : st.Same) (name bin : Bytes) :
    (st.addService name bin).Same ↔
      ∀ i, st.flags[i]? = some (name, true) → ∀ method path, ¬ st.Serves i method path := by
  have hsame : (st.addService name bin).Same ↔
      ∀ method path, (st.addService name bin).target method path = st.target method path := by
    refine forall_congr' fun method => forall_congr' fun path => ?_
    rw [hs method path]
    exact Iff.rfl
  rw [hsame]
  cases hidx : st.index name with
  | none =>
      refine iff_of_true (fun method path => ?_) fun i hi => ?_
      · refine target_congr (addService_router st name bin) fun i hserves => ?_
        rw [addService, enable, hidx]
        exact List.getElem?_append_left (hserves.lt hw)
      · rw [index_of_flag hw.names hi] at hidx
        cases hidx
  | some j =>
      obtain ⟨d, hj⟩ := index_eq_some hidx
      have hflags : (st.addService name bin).flags = st.flags.modify j fun f => (f.1, false) := by
        rw [addService, enable, hidx]
      have hnew : (st.addService name bin).flags[j]? = some (name, false) := by
        rw [hflags, List.getElem?_modify_eq, hj]
        rfl
      have hold : ∀ i, i ≠ j → (st.addService name bin).flags[i]? = st.flags[i]? := by
        intro i hne
        rw [hflags, List.getElem?_modify_ne _ _ (Ne.symm hne)]
      constructor
      · intro hkeep i hi method path hserves
        have hij : i = j := flags_inj hw.names hi hj
        subst hij
        have hserves' : (st.addService name bin).Serves i method path := hserves
        have htarget := target_of_serves hserves'
        rw [hkeep, target_of_serves hserves, hi, hnew] at htarget
        cases htarget
      · intro hnone method path
        refine target_congr (addService_router st name bin) fun i hserves => ?_
        by_cases hij : i = j
        · subst hij
          cases d with
          | true => exact absurd hserves (hnone i hj method path)
          | false => rw [hnew, hj]
        · exact hold i hij

/-! ## service-rm -/

/-- The rows of the other services are left, in their order. -/
theorem firstRow_remove (reg : NtcRegistry) (name method path : Bytes) :
    firstRow (ntcRegistryRemoveService reg name).2 method path =
      reg.routes.find? fun row =>
        row.service != name && takes row.method row.pattern method path := by
  rw [firstRow, ntcRegistryRemoveService, List.find?_filter]
  congr 1
  funext row
  by_cases hname : row.service = name <;> simp [hname]

/-- A request whose first row is of another service keeps that row. -/
theorem firstRow_remove_of_ne {reg : NtcRegistry} {name method path : Bytes} {row : RouteRow}
    (h : firstRow reg method path = some row) (hne : row.service ≠ name) :
    firstRow (ntcRegistryRemoveService reg name).2 method path = some row := by
  rw [firstRow_remove]
  rw [firstRow, List.find?_eq_some_iff_append] at h
  obtain ⟨htakes, before, after, hrows, hbefore⟩ := h
  rw [List.find?_eq_some_iff_append]
  refine ⟨by simp [hne, htakes], before, after, hrows, fun x hx => ?_⟩
  have := hbefore x hx
  simp only [Bool.not_eq_eq_eq_not, Bool.not_true] at this ⊢
  rw [this, Bool.and_false]

/-- Removing a service is seen by the router exactly as by the registry unless
    it uncovers a row of another service. -/
theorem removeService_same_iff {st : Stores} (hw : st.Wired) (hs : st.Same) {name : Bytes}
    (hname : ∃ bin, (name, bin) ∈ st.reg.services) :
    (st.removeService name).Same ↔
      ∀ method path, st.target method path = some name → ∀ row ∈ st.reg.routes,
        takes row.method row.pattern method path = true → row.service = name := by
  obtain ⟨j, hj⟩ := List.mem_iff_getElem?.mp ((hw.enabled name).mp hname)
  have hidx := index_of_flag hw.names hj
  have hflags : (st.removeService name).flags = st.flags.modify j fun f => (f.1, true) := by
    rw [removeService, disable, hidx]
  have hnew : (st.removeService name).flags[j]? = some (name, true) := by
    rw [hflags, List.getElem?_modify_eq, hj]
    rfl
  have hold : ∀ i, i ≠ j → (st.removeService name).flags[i]? = st.flags[i]? := by
    intro i hne
    rw [hflags, List.getElem?_modify_ne _ _ (Ne.symm hne)]
  have hserves : ∀ {i method path}, (st.removeService name).Serves i method path ↔
      st.Serves i method path := Iff.rfl
  -- what the live router loses is exactly what it forwarded to the service
  have hlive : ∀ method path, (st.removeService name).target method path =
      if st.target method path = some name then none else st.target method path := by
    intro method path
    cases ht : st.target method path with
    | some t =>
        obtain ⟨i, hi, hf⟩ := target_eq_some ht
        by_cases hij : i = j
        · subst hij
          rw [hj] at hf
          cases hf
          rw [if_pos rfl, target_of_serves (hserves.mpr hi), hnew]
          rfl
        · have hne : t ≠ name := by
            rintro rfl
            exact hij (flags_inj hw.names hf hj)
          rw [if_neg (by simpa using hne)]
          exact target_of_flag (hserves.mpr hi) (by rw [hold i hij, hf])
    | none =>
        rw [if_neg (by simp)]
        cases ht' : (st.removeService name).target method path with
        | none => rfl
        | some t =>
            obtain ⟨i, hi, hf⟩ := target_eq_some ht'
            have hij : i ≠ j := by
              rintro rfl
              rw [hnew] at hf
              cases hf
            rw [hold i hij] at hf
            rw [target_of_flag (hserves.mp hi) hf] at ht
            cases ht
  constructor
  · intro hsame method path ht row hrow htakes
    have hreg := hsame method path
    rw [hlive, if_pos ht] at hreg
    have hbuiltin := (registryTarget_eq_some_iff.mp ((hs method path).symm.trans ht)).1
    have hreg' : firstRow (ntcRegistryRemoveService st.reg name).2 method path = none := by
      have : registryTarget (ntcRegistryRemoveService st.reg name).2 method path = none := hreg.symm
      rw [registryTarget, hbuiltin] at this
      simpa using this
    rw [firstRow_remove, List.find?_eq_none] at hreg'
    have := hreg' row hrow
    rw [htakes, Bool.and_true] at this
    simpa using this
  · intro hsafe method path
    show _ = registryTarget (ntcRegistryRemoveService st.reg name).2 method path
    rw [hlive]
    cases ht : st.target method path with
    | some t =>
        have hreg := (hs method path).symm.trans ht
        obtain ⟨hbuiltin, row, hrow, hsvc⟩ := registryTarget_eq_some_iff.mp hreg
        by_cases hne : t = name
        · subst hne
          have hgone : firstRow (ntcRegistryRemoveService st.reg t).2 method path = none := by
            rw [firstRow_remove, List.find?_eq_none]
            intro row hrow
            cases htakes : takes row.method row.pattern method path with
            | false => simp
            | true => simp [hsafe method path ht row hrow htakes]
          rw [if_pos rfl, registryTarget, hbuiltin, hgone]
          rfl
        · rw [if_neg (by simpa using hne)]
          refine (registryTarget_eq_some_iff.mpr ⟨hbuiltin, row, ?_, hsvc⟩).symm
          exact firstRow_remove_of_ne hrow (by rw [hsvc]; exact hne)
    | none =>
        rw [if_neg (by simp)]
        have hreg := (hs method path).symm.trans ht
        cases hreg' : registryTarget (ntcRegistryRemoveService st.reg name).2 method path with
        | none => rfl
        | some t =>
            -- a row that is still there would have served the request before
            obtain ⟨hbuiltin, row, hrow, -⟩ := registryTarget_eq_some_iff.mp hreg'
            rw [firstRow_remove] at hrow
            have hmem := List.mem_of_find?_eq_some hrow
            have htakes := List.find?_some hrow
            rw [Bool.and_eq_true] at htakes
            rw [registryTarget, hbuiltin] at hreg
            have hnone : firstRow st.reg method path = none := by simpa using hreg
            rw [firstRow, List.find?_eq_none] at hnone
            exact absurd htakes.2 (hnone row hmem)

/-! ## route-add -/

/-- The first row of a request after `route-add`: the row it had, with the new
    service if it is the row of that method and pattern, or else the new row. -/
theorem firstRow_addRoute {reg reg' : NtcRegistry} {method pattern service : Bytes}
    (h : ntcRegistryAddRoute reg method pattern service = some reg') (m p : Bytes) :
    firstRow reg' m p =
      (firstRow reg m p).elim
        (if takes method pattern m p then some ⟨method, pattern, service⟩ else none)
        fun row => some (if row.method = method ∧ row.pattern = pattern then
          ⟨method, pattern, service⟩ else row) := by
  rw [ntcRegistryAddRoute] at h
  split_ifs at h with hsvc hany
  · cases h
    -- an update keeps the place and the key of the row
    have hmap : ∀ row : RouteRow,
        takes (if row.method = method ∧ row.pattern = pattern then
          (⟨method, pattern, service⟩ : RouteRow) else row).method
          (if row.method = method ∧ row.pattern = pattern then
          (⟨method, pattern, service⟩ : RouteRow) else row).pattern m p =
        takes row.method row.pattern m p := by
      intro row
      split_ifs with hkey
      · rw [hkey.1, hkey.2]
      · rfl
    rw [firstRow, firstRow, List.find?_map]
    have hpred : ((fun row : RouteRow => takes row.method row.pattern m p) ∘ fun x =>
        if x.method = method ∧ x.pattern = pattern then
          (⟨method, pattern, service⟩ : RouteRow) else x) =
        fun row => takes row.method row.pattern m p := funext hmap
    rw [hpred]
    cases hfirst : reg.routes.find? fun row => takes row.method row.pattern m p with
    | some row => rfl
    | none =>
        obtain ⟨old, hold, hkey⟩ := List.any_eq_true.mp hany
        have hkey : old.method = method ∧ old.pattern = pattern := by simpa using hkey
        have hnot := List.find?_eq_none.mp hfirst old hold
        rw [hkey.1, hkey.2] at hnot
        rw [Option.elim_none, if_neg hnot]
        rfl
  · cases h
    rw [firstRow, List.find?_append, List.find?_singleton]
    show (firstRow reg m p).or _ = _
    cases hfirst : firstRow reg m p with
    | none => rfl
    | some row =>
        have hnkey : ¬ (row.method = method ∧ row.pattern = pattern) := by
          rintro ⟨hm, hp⟩
          refine hany (List.any_eq_true.mpr ⟨row, List.mem_of_find?_eq_some hfirst, ?_⟩)
          simp [hm, hp]
        rw [Option.elim_some, if_neg hnkey]
        rfl

/-- The new route is last in the router and goes where the registry sends it,
    unless its row was re-pointed or an old route stands before it. -/
theorem addRoute_same_iff {st : Stores} (hw : st.Wired) (hs : st.Same)
    {method pattern service : Bytes} (hsvc : ∃ bin, (service, bin) ∈ st.reg.services)
    (hsegs : (splitSegments pattern ntcMaxSegments).isSome) :
    (st.addRoute method pattern service).Same ↔
      ∀ m p, firstRoute builtinRouter m p = none →
        (∀ row, firstRow st.reg m p = some row →
          row.method = method ∧ row.pattern = pattern → row.service = service) ∧
        (firstRow st.reg m p = none → takes method pattern m p = true →
          firstRoute st.router m p = none) := by
  obtain ⟨j, hj⟩ := List.mem_iff_getElem?.mp ((hw.enabled service).mp hsvc)
  have hidx := index_of_flag hw.names hj
  obtain ⟨bin, hbin⟩ := hsvc
  obtain ⟨reg', hreg'⟩ := Option.isSome_iff_exists.mp
    ((ntcRegistryAddRoute_isSome_iff st.reg method pattern service).mpr
      (List.any_eq_true.mpr ⟨_, hbin, by simp⟩))
  obtain ⟨rt, hrtm, hrtp, hrth, hadd⟩ : ∃ rt : RouteT, rt.method = method ∧
      rt.pattern = pattern ∧ rt.handler = .forward j ∧
      ntcRouterAdd st.router method pattern (.forward j) = some (st.router ++ [rt]) := by
    rcases ntcRouterAdd_cases st.router method pattern (.forward j) with ⟨hnone, -⟩ | h
    · have := (ntcRouterAdd_isSome_iff st.router method pattern (.forward j)).mpr hsegs
      rw [hnone] at this
      cases this
    · exact h
  have hlast : ∀ m p, firstRoute (st.addRoute method pattern service).router m p =
      (firstRoute st.router m p).or (if takes method pattern m p then some rt else none) := by
    intro m p
    have hrouter : (st.addRoute method pattern service).router = st.router ++ [rt] := by
      rw [addRoute, hidx, Option.getD_some, hadd]
      rfl
    rw [hrouter, firstRoute_append]
    congr 1
    rw [firstRoute, List.find?_singleton, hrtm, hrtp]
  have hreg : (st.addRoute method pattern service).reg = reg' := by
    rw [addRoute, hreg']
    rfl
  have hnew : liveService st.flags rt.handler = some service := by
    rw [hrth, liveService, hj]
    rfl
  refine forall_congr' fun m => forall_congr' fun p => ?_
  rw [hreg, target, hlast, registryTarget, firstRow_addRoute hreg']
  cases hbuiltin : firstRoute builtinRouter m p with
  | some brt =>
      obtain ⟨rest, hrest⟩ := hw.builtins
      have hfirst : firstRoute st.router m p = some brt := by
        rw [hrest, firstRoute_append, hbuiltin]
        rfl
      refine iff_of_true ?_ (fun h => by cases h)
      rw [hfirst]
      exact builtin_not_forwarded hbuiltin _
  | none =>
      have hbefore := hs m p
      rw [registryTarget, hbuiltin] at hbefore
      cases hrow : firstRow st.reg m p with
      | some row =>
          rw [hrow] at hbefore
          have hbefore' : st.target m p = some row.service := hbefore
          obtain ⟨rt', hrt', hlive⟩ := Option.bind_eq_some_iff.mp hbefore'
          rw [hrt']
          have hl : ((some rt').or (if takes method pattern m p then some rt else none)).bind
              (fun rt => liveService (st.addRoute method pattern service).flags rt.handler) =
              some row.service := hlive
          rw [hl]
          by_cases hkey : row.method = method ∧ row.pattern = pattern
          · simp [hkey]
          · refine iff_of_true (by simp [hkey]) fun _ => ⟨fun row' hrow' hk => ?_, by simp⟩
            cases hrow'
            exact absurd hk hkey
      | none =>
          rw [hrow] at hbefore
          have hbefore' : st.target m p = none := hbefore
          cases hfirst : firstRoute st.router m p with
          | none =>
              refine iff_of_true ?_ (fun _ => ⟨by simp, fun _ _ => rfl⟩)
              cases takes method pattern m p with
              | false => rfl
              | true => exact hnew
          | some rt' =>
              have hl : ((some rt').or (if takes method pattern m p then some rt else none)).bind
                  (fun rt => liveService (st.addRoute method pattern service).flags rt.handler) =
                  none := by
                rw [target, hfirst] at hbefore'
                exact hbefore'
              rw [hl]
              cases takes method pattern m p with
              | false => simp
              | true => simp

/-! ## The wiring stays -/

/-- An upsert adds a key or leaves the keys alone. -/
theorem upsertRow_keys (rows : List (Bytes × Bytes)) (key value : Bytes) :
    (upsertRow rows key value).map Prod.fst =
      if rows.any (·.1 == key) then rows.map Prod.fst else rows.map Prod.fst ++ [key] := by
  rw [upsertRow]
  split_ifs with hany
  · rw [List.map_map]
    refine List.map_congr_left fun row _ => ?_
    by_cases hkey : row.1 = key
    · simp [hkey]
    · simp [hkey]
  · rw [List.map_append]
    rfl

theorem mem_keys {rows : List (Bytes × Bytes)} {name : Bytes} :
    name ∈ rows.map Prod.fst ↔ ∃ v, (name, v) ∈ rows := by
  simp

theorem any_key_iff {rows : List (Bytes × Bytes)} {key : Bytes} :
    rows.any (·.1 == key) = true ↔ key ∈ rows.map Prod.fst := by
  simp

theorem mem_upsertRow {rows : List (Bytes × Bytes)} {key value name : Bytes} :
    (∃ v, (name, v) ∈ upsertRow rows key value) ↔ name = key ∨ ∃ v, (name, v) ∈ rows := by
  rw [← mem_keys, ← mem_keys, upsertRow_keys]
  split_ifs with hany
  · constructor
    · exact Or.inr
    · rintro (rfl | h)
      · exact any_key_iff.mp hany
      · exact h
  · rw [List.mem_append, List.mem_singleton, or_comm]

theorem nodup_upsertRow {rows : List (Bytes × Bytes)} (h : (rows.map Prod.fst).Nodup)
    (key value : Bytes) : ((upsertRow rows key value).map Prod.fst).Nodup := by
  rw [upsertRow_keys]
  split_ifs with hany
  · exact h
  · refine List.nodup_append'.mpr ⟨h, List.nodup_singleton key, ?_⟩
    rw [List.disjoint_singleton]
    exact mt any_key_iff.mpr hany

theorem sound_addService {reg : NtcRegistry} (h : reg.Sound) (name bin : Bytes) :
    (ntcRegistryAddService reg name bin).Sound where
  unique := nodup_upsertRow h.unique name bin
  foreign row hrow := mem_upsertRow.mpr (Or.inr (h.foreign row hrow))

/-- `ntc_registry_add_route` writes no service, and no row but its own. -/
theorem ntcRegistryAddRoute_rows {reg reg' : NtcRegistry} {method pattern service : Bytes}
    (h : ntcRegistryAddRoute reg method pattern service = some reg') :
    reg'.services = reg.services ∧
      ∀ row ∈ reg'.routes, row = ⟨method, pattern, service⟩ ∨ row ∈ reg.routes := by
  rw [ntcRegistryAddRoute] at h
  split_ifs at h with hsvc hany
  · cases h
    refine ⟨rfl, fun row hrow => ?_⟩
    obtain ⟨old, hold, rfl⟩ := List.mem_map.mp hrow
    split_ifs
    · exact Or.inl rfl
    · exact Or.inr hold
  · cases h
    refine ⟨rfl, fun row hrow => ?_⟩
    rcases List.mem_append.mp hrow with hold | hnew
    · exact Or.inr hold
    · exact Or.inl (List.mem_singleton.mp hnew)

theorem sound_addRoute {reg reg' : NtcRegistry} (h : reg.Sound) {method pattern service : Bytes}
    (hadd : ntcRegistryAddRoute reg method pattern service = some reg') : reg'.Sound := by
  obtain ⟨hservices, hrows⟩ := ntcRegistryAddRoute_rows hadd
  have hany := (ntcRegistryAddRoute_isSome_iff reg method pattern service).mp
    (Option.isSome_of_eq_some hadd)
  refine ⟨by rw [hservices]; exact h.unique, fun row hrow => ?_⟩
  rw [hservices]
  rcases hrows row hrow with rfl | hold
  · exact mem_keys.mp (any_key_iff.mp hany)
  · exact h.foreign row hold

/-- Setting a flag leaves the names alone. -/
theorem modify_names (flags : List (Bytes × Bool)) (j : Nat) (b : Bool) :
    (flags.modify j fun f => (f.1, b)).map Prod.fst = flags.map Prod.fst := by
  refine List.ext_getElem? fun i => ?_
  rw [List.getElem?_map, List.getElem?_map, List.getElem?_modify]
  by_cases hij : j = i
  · simp [hij, Function.comp_def]
  · simp [hij]

/-- The enabled services after one flag was set. -/
theorem mem_modify {st : Stores} (hnames : (st.flags.map Prod.fst).Nodup) {name : Bytes} {j : Nat}
    {d : Bool} (hj : st.flags[j]? = some (name, d)) (b : Bool) (n : Bytes) :
    (n, false) ∈ (st.flags.modify j fun f => (f.1, b)) ↔
      if n = name then b = false else (n, false) ∈ st.flags := by
  have hnew : (st.flags.modify j fun f => (f.1, b))[j]? = some (name, b) := by
    rw [List.getElem?_modify_eq, hj]
    rfl
  have hold : ∀ i, i ≠ j → (st.flags.modify j fun f => (f.1, b))[i]? = st.flags[i]? :=
    fun i hne => List.getElem?_modify_ne _ _ (Ne.symm hne)
  constructor
  · intro h
    obtain ⟨i, hi⟩ := List.mem_iff_getElem?.mp h
    by_cases hij : i = j
    · subst hij
      rw [hnew] at hi
      cases hi
      rw [if_pos rfl]
    · rw [hold i hij] at hi
      rw [if_neg]
      · exact List.mem_of_getElem? hi
      · rintro rfl
        exact hij (flags_inj hnames hi hj)
  · intro h
    by_cases hn : n = name
    · rw [if_pos hn] at h
      rw [hn, ← h]
      exact List.mem_of_getElem? hnew
    · rw [if_neg hn] at h
      obtain ⟨i, hi⟩ := List.mem_iff_getElem?.mp h
      have hij : i ≠ j := by
        rintro rfl
        rw [hj] at hi
        cases hi
        exact hn rfl
      exact List.mem_of_getElem? ((hold i hij).trans hi)

theorem addService_wired {st : Stores} (hw : st.Wired) (name bin : Bytes) :
    (st.addService name bin).Wired where
  builtins := hw.builtins
  forwards := by
    intro rt hrt i hi
    have hlt := hw.forwards rt hrt i hi
    rw [addService, enable]
    cases st.index name with
    | none =>
        show i < (st.flags ++ [(name, false)]).length
        rw [List.length_append]
        omega
    | some j => simpa using hlt
  names := by
    rw [addService, enable]
    cases hidx : st.index name with
    | some j =>
        show ((st.flags.modify j _).map Prod.fst).Nodup
        rw [modify_names]
        exact hw.names
    | none =>
        show ((st.flags ++ [(name, false)]).map Prod.fst).Nodup
        rw [index, List.findIdx?_eq_none_iff] at hidx
        rw [List.map_append]
        refine List.nodup_append'.mpr ⟨hw.names, List.nodup_singleton name, ?_⟩
        rw [List.map_singleton, List.disjoint_singleton]
        intro hmem
        obtain ⟨f, hf, hname⟩ := List.mem_map.mp hmem
        exact absurd (hidx f hf) (by simp [hname])
  sound := sound_addService hw.sound name bin
  enabled := by
    intro n
    have hreg : (∃ b, (n, b) ∈ (st.addService name bin).reg.services) ↔
        n = name ∨ (n, false) ∈ st.flags := by
      rw [← hw.enabled n]
      exact mem_upsertRow
    rw [hreg, addService, enable]
    cases hidx : st.index name with
    | none =>
        show _ ↔ (n, false) ∈ st.flags ++ [(name, false)]
        rw [List.mem_append, List.mem_singleton, or_comm]
        simp
    | some j =>
        obtain ⟨d, hj⟩ := index_eq_some hidx
        show _ ↔ (n, false) ∈ st.flags.modify j fun f => (f.1, false)
        rw [mem_modify hw.names hj]
        by_cases hn : n = name
        · simp [hn]
        · simp [hn]

theorem removeService_wired {st : Stores} (hw : st.Wired) (name : Bytes) :
    (st.removeService name).Wired where
  builtins := hw.builtins
  forwards := by
    intro rt hrt i hi
    have hlt := hw.forwards rt hrt i hi
    rw [removeService, disable]
    cases st.index name with
    | none => exact hlt
    | some j => simpa using hlt
  names := by
    rw [removeService, disable]
    cases hidx : st.index name with
    | some j =>
        show ((st.flags.modify j _).map Prod.fst).Nodup
        rw [modify_names]
        exact hw.names
    | none => exact hw.names
  sound :=
    { unique := (List.Sublist.map Prod.fst List.filter_sublist).nodup hw.sound.unique
      foreign := by
        intro row hrow
        obtain ⟨hmem, hne⟩ := List.mem_filter.mp hrow
        obtain ⟨bin, hbin⟩ := hw.sound.foreign row hmem
        exact ⟨bin, List.mem_filter.mpr ⟨hbin, hne⟩⟩ }
  enabled := by
    intro n
    have hreg : (∃ b, (n, b) ∈ (st.removeService name).reg.services) ↔
        n ≠ name ∧ (n, false) ∈ st.flags := by
      rw [← hw.enabled n]
      show (∃ b, (n, b) ∈ st.reg.services.filter (·.1 != name)) ↔ _
      simp [and_comm]
    rw [hreg, removeService, disable]
    cases hidx : st.index name with
    | none =>
        rw [index, List.findIdx?_eq_none_iff] at hidx
        refine and_iff_right_of_imp fun hmem hn => ?_
        exact absurd (hidx _ hmem) (by simp [hn])
    | some j =>
        obtain ⟨d, hj⟩ := index_eq_some hidx
        show _ ↔ (n, false) ∈ st.flags.modify j fun f => (f.1, true)
        rw [mem_modify hw.names hj]
        by_cases hn : n = name
        · simp [hn]
        · simp [hn]

theorem addRoute_wired {st : Stores} (hw : st.Wired) {method pattern service : Bytes}
    (hsvc : ∃ bin, (service, bin) ∈ st.reg.services) :
    (st.addRoute method pattern service).Wired := by
  obtain ⟨j, hj⟩ := List.mem_iff_getElem?.mp ((hw.enabled service).mp hsvc)
  have hidx := index_of_flag hw.names hj
  obtain ⟨bin, hbin⟩ := hsvc
  obtain ⟨reg', hreg'⟩ := Option.isSome_iff_exists.mp
    ((ntcRegistryAddRoute_isSome_iff st.reg method pattern service).mpr
      (List.any_eq_true.mpr ⟨_, hbin, by simp⟩))
  have hservices := (ntcRegistryAddRoute_rows hreg').1
  have hreg : (st.addRoute method pattern service).reg = reg' := by
    rw [addRoute, hreg']
    rfl
  have hrouter : ∃ more : NtcRouter, (st.addRoute method pattern service).router =
      st.router ++ more ∧ ∀ rt ∈ more, rt.handler = .forward j := by
    rw [addRoute, hidx, Option.getD_some]
    rcases ntcRouterAdd_cases st.router method pattern (.forward j) with
      ⟨hnone, -⟩ | ⟨rt, -, -, hrth, hsome⟩
    · exact ⟨[], by rw [hnone, List.append_nil]; rfl, by simp⟩
    · exact ⟨[rt], by rw [hsome]; rfl, by simpa using hrth⟩
  obtain ⟨more, hrouter, hmore⟩ := hrouter
  refine ⟨?_, ?_, hw.names, ?_, ?_⟩
  · obtain ⟨rest, hrest⟩ := hw.builtins
    exact ⟨rest ++ more, by rw [hrouter, hrest, List.append_assoc]⟩
  · intro rt hrt i hi
    rw [hrouter] at hrt
    rcases List.mem_append.mp hrt with hold | hnew
    · exact hw.forwards rt hold i hi
    · rw [hmore rt hnew] at hi
      cases hi
      exact (List.getElem?_eq_some_iff.mp hj).1
  · rw [hreg]
    exact sound_addRoute hw.sound hreg'
  · intro name
    rw [hreg, hservices]
    exact hw.enabled name

end Stores

end Naitron
