/-
  Naitron.Server.ServiceEffects

  The functions of Naitron.Server.Control as moves.

  Supervision and dev-mode reloads spawn into empty entries and drop idle
  controllers only.  A control command drops the controllers of the entries
  it names (`commandDrops`), idle or not.
-/

import Naitron.Server.CtrlEffects

namespace Naitron

variable (E : Ext)

-- ============================================================================
-- Spawning
-- ============================================================================

/-- Moves of supervision: nothing is read from a controller, and none with
    waiting requests is dropped. -/
def Tends : Label → Prop
  | .drop false _ | .read _ => False
  | _ => True

theorem Own.tends {k : ConnId} {l : Label} (h : Own k l) : Tends l := by
  cases l with
  | read => exact h
  | drop => cases h
  | _ => trivial

theorem Reach.tends {may : Prop} {k : ConnId} {l : Label} (h : Reach may k l) : Tends l := by
  obtain h | ⟨-, rfl⟩ := h
  · exact h.tends
  · trivial

theorem DeathOwn.tends {f : Flight} {ct : CtrlId} {l : Label} (h : DeathOwn f ct l) :
    Tends l := by
  obtain ⟨k, -, hl⟩ | rfl := h
  · exact hl.tends
  · trivial

theorem svc_tends {f f' : Flight} (h : Moves (· = .svc) f f') : Moves Tends f f' :=
  h.mono (by rintro l rfl; trivial)

/-- The entries after a spawn. -/
theorem slotAt_spawn {f : Flight} {i s : Nat} {ct : CtrlId} {F : Service → Service}
    (hi : i < f.services.length)
    (hF : ∀ svc, (F svc).conns = Function.update svc.conns s (some ct)) (i' s' : Nat) :
    slotAt { f with services := f.services.modify i F } i' s' =
      if i' = i ∧ s' = s then some ct else slotAt f i' s' := by
  rw [slotAt_modify]
  by_cases hi' : i' = i
  · subst hi'
    rw [if_pos rfl, List.getElem?_eq_getElem hi, Option.bind_some, hF]
    by_cases hs : s' = s
    · simp [hs]
    · simp [hs, slotAt, List.getElem?_eq_getElem hi]
  · simp [hi']

theorem spawnService_moves {g : Gateway} {i s : Nat} (hi : i < g.services.length)
    (hs : s < ntcMaxReplicas) (hfree : slotAt g.toFlight i s = none) :
    Moves (fun l => ∃ ct, l = .spawn ct) g.toFlight (spawnService E g i s).2.toFlight := by
  unfold spawnService
  dsimp only
  split
  · refine .one (.spawn i s (g.services.modify i _) hs hfree ?_) ⟨_, rfl⟩
    exact slotAt_spawn hi fun svc => rfl
  · exact .refl _

/-- A spawn adds no service and touches one entry. -/
theorem spawnService_services (g : Gateway) (i s : Nat) :
    (spawnService E g i s).2.services.length = g.services.length ∧
      ∀ i' s', (i', s') ≠ (i, s) →
        slotAt (spawnService E g i s).2.toFlight i' s' = slotAt g.toFlight i' s' := by
  unfold spawnService
  dsimp only
  split
  · refine ⟨by simp [Gateway.modService, Gateway.ask], fun i' s' hne => ?_⟩
    refine (slotAt_modify g.toFlight i _ i' s').trans ?_
    split
    · rename_i hi
      have hs : s' ≠ s := fun hs => hne (by rw [hi, hs])
      simp [slotAt, Service.setConn, Function.update_of_ne hs]
    · rfl
  · exact ⟨rfl, fun _ _ _ => rfl⟩

theorem spawn_tends {f f' : Flight} (h : Moves (fun l => ∃ ct, l = .spawn ct) f f') :
    Moves Tends f f' :=
  h.mono (by rintro l ⟨ct, rfl⟩; trivial)

/-- The spawn loop of one service, over entries that are all empty. -/
theorem spawnLoop_moves (i : Nat) :
    ∀ (xs : List Nat) (g : Gateway), i < g.services.length → xs.Nodup →
      (∀ s ∈ xs, s < ntcMaxReplicas ∧ slotAt g.toFlight i s = none) →
      Moves Tends g.toFlight (xs.foldl (fun g s => (spawnService E g i s).2) g).toFlight ∧
        (xs.foldl (fun g s => (spawnService E g i s).2) g).services.length = g.services.length ∧
        ∀ i' ≠ i, ∀ s', slotAt (xs.foldl (fun g s => (spawnService E g i s).2) g).toFlight i' s' =
          slotAt g.toFlight i' s' := by
  intro xs
  induction xs with
  | nil =>
      intro g _ _ _
      exact ⟨.refl _, rfl, fun _ _ _ => rfl⟩
  | cons x xs ih =>
      intro g hi hnodup hfree
      obtain ⟨hx, hnodup⟩ := List.nodup_cons.mp hnodup
      obtain ⟨hlen, hrest⟩ := spawnService_services E g i x
      have hspawn := spawnService_moves E hi (hfree x List.mem_cons_self).1
        (hfree x List.mem_cons_self).2
      obtain ⟨hm, hlen', hother⟩ := ih (spawnService E g i x).2 (hlen ▸ hi) hnodup (by
        intro s hs
        obtain ⟨hlt, hnone⟩ := hfree s (List.mem_cons_of_mem x hs)
        refine ⟨hlt, (hrest i s ?_).trans hnone⟩
        rintro ⟨⟩
        exact hx hs)
      refine ⟨(spawn_tends hspawn).trans hm, hlen'.trans hlen, fun i' hi' s' => ?_⟩
      refine (hother i' hi' s').trans (hrest i' s' ?_)
      rintro ⟨⟩
      exact hi' rfl

theorem spawnReplicas_moves {g : Gateway} {i : Nat} (hfree : ∀ s, slotAt g.toFlight i s = none) :
    Moves Tends g.toFlight (spawnReplicas E g i).toFlight ∧
      (spawnReplicas E g i).services.length = g.services.length ∧
      ∀ i' ≠ i, ∀ s', slotAt (spawnReplicas E g i).toFlight i' s' = slotAt g.toFlight i' s' := by
  unfold spawnReplicas
  split
  · exact ⟨.refl _, rfl, fun _ _ _ => rfl⟩
  · rename_i svc hsvc
    refine spawnLoop_moves E i _ g (List.getElem?_eq_some_iff.mp hsvc).1 List.nodup_range ?_
    intro s hs
    exact ⟨(List.mem_range.mp hs).trans_le svc.replicas_le, hfree s⟩

/-- The spawn loop before the first batch. -/
theorem startLoop_moves :
    ∀ (xs : List Nat) (g : Gateway), xs.Nodup → (∀ i ∈ xs, ∀ s, slotAt g.toFlight i s = none) →
      Moves Tends g.toFlight (xs.foldl (spawnReplicas E) g).toFlight := by
  intro xs
  induction xs with
  | nil =>
      intro g _ _
      exact .refl _
  | cons x xs ih =>
      intro g hnodup hfree
      obtain ⟨hx, hnodup⟩ := List.nodup_cons.mp hnodup
      obtain ⟨hm, -, hother⟩ := spawnReplicas_moves E (hfree x List.mem_cons_self)
      refine hm.trans (ih _ hnodup fun i hi s => ?_)
      refine (hother i ?_ s).trans (hfree i (List.mem_cons_of_mem x hi) s)
      rintro rfl
      exact hx hi

-- ============================================================================
-- Supervision and dev mode
-- ============================================================================

/-- Moves of `supervise` alone: services change, controllers come up. -/
def Supervises (l : Label) : Prop := l = .svc ∨ ∃ ct, l = .spawn ct

theorem Supervises.tends {l : Label} (h : Supervises l) : Tends l := by
  obtain rfl | ⟨ct, rfl⟩ := h <;> trivial

theorem superviseSlot_moves {g : Gateway} {i s : Nat} (t : Int) (hs : s < ntcMaxReplicas) :
    Moves Supervises g.toFlight (superviseSlot E t i g s).toFlight := by
  have hsvc : ∀ {f f' : Flight}, Moves (· = .svc) f f' → Moves Supervises f f' :=
    fun h => h.mono fun _ hl => Or.inl hl
  unfold superviseSlot
  split
  · exact .refl _
  · rename_i svc hat
    split
    · rename_i hnone
      split
      · exact .refl _
      · have hspawn : Moves Supervises g.toFlight (spawnService E g i s).2.toFlight :=
          (spawnService_moves E (List.getElem?_eq_some_iff.mp hat).1 hs
            (by simp [slotAt, hat, hnone])).mono fun _ hl => Or.inr hl
        split
        · rename_i hres
          rw [hres] at hspawn
          exact hspawn
        · rename_i hres
          rw [hres] at hspawn
          refine hspawn.trans (hsvc (modService_svc_moves ?_))
          exact fun svc => rfl
    · split
      · refine hsvc (modService_svc_moves ?_)
        exact fun svc => rfl
      · exact .refl _

/-- A loop makes the moves its turns make. -/
theorem tends_foldl {P : Label → Prop} {body : Gateway → Nat → Gateway} (xs : List Nat)
    (g : Gateway) (h : Inv g.toFlight)
    (hbody : ∀ g, Inv g.toFlight → ∀ x ∈ xs, Moves P g.toFlight (body g x).toFlight) :
    Moves P g.toFlight (xs.foldl body g).toFlight :=
  (Lib.Steps.foldl Gateway.toFlight (I := fun x => Inv x.toFlight) xs g h
    fun a ha x hx => ⟨hbody a ha x hx, Moves.inv (hbody a ha x hx) ha⟩).1

theorem supervise_moves {g : Gateway} (h : Inv g.toFlight) :
    Moves Supervises g.toFlight (supervise E g).toFlight := by
  refine tends_foldl (List.range (g.ask E).2.services.length) (g.ask E).2 h fun g hg i _ => ?_
  unfold superviseService
  split
  · exact .refl _
  · rename_i svc _
    split
    · exact .refl _
    · refine tends_foldl _ g hg fun g hg s hs => ?_
      exact superviseSlot_moves E _ ((List.mem_range.mp hs).trans_le svc.replicas_le)

theorem dropReplica_moves {g : Gateway} (h : CtrlInv g.toFlight) {i s : Nat} {ct : CtrlId}
    {idle : Bool} (hct : slotAt g.toFlight i s = some ct)
    (hidle : idle = true → ¬ Waits g.toFlight ct) :
    Moves (· = .drop idle ct) g.toFlight (dropReplica g i s ct).toFlight :=
  drop_moves h hct hidle fun _ _ => rfl

theorem devTeardownSlot_moves {g : Gateway} (h : Inv g.toFlight) (i s : Nat) :
    Moves Tends g.toFlight (devTeardownSlot E g i s).toFlight := by
  unfold devTeardownSlot
  split
  · exact .refl _
  · rename_i ct hct
    have hfail := failInflight_moves E ct (lit "\x7b\"error\":\"reloading\"\x7d") g
    rw [← WaitOwn.slotAt hfail] at hct
    refine (hfail.mono fun l hl => DeathOwn.tends (Or.inl hl)).trans ?_
    exact (dropReplica_moves (Moves.inv hfail h).ctrls hct fun _ => failInflight_idle E _ _ h).mono
      fun l hl => DeathOwn.tends (f := g.toFlight) (Or.inr hl)

theorem devReloadService_moves {g : Gateway} (h : Inv g.toFlight) (i : Nat) :
    Moves Tends g.toFlight (devReloadService E g i).toFlight := by
  unfold devReloadService
  split
  · exact .refl _
  · refine tends_foldl _ g h fun g hg s _ => ?_
    refine (devTeardownSlot_moves E hg i s).trans
      (svc_tends (modService_svc_moves (g := (Gateway.ask E _).2) ?_))
    exact fun svc => rfl

theorem devWatchService_moves {g : Gateway} (h : Inv g.toFlight) (i : Nat) :
    Moves Tends g.toFlight (devWatchService E g i).toFlight := by
  unfold devWatchService
  split
  · exact .refl _
  · split
    · exact .refl _
    · have hmark : Moves Tends g.toFlight ((g.ask E).2.modService i fun svc =>
          { svc with binMtime := (g.ask E).1.mtime }).toFlight :=
        svc_tends (modService_svc_moves (g := (g.ask E).2) fun svc => rfl)
      dsimp only
      split
      · exact .refl _
      · split
        · exact hmark
        · split
          · exact hmark.trans (devReloadService_moves E (Moves.inv hmark h) i)
          · exact .refl _

theorem devTick_moves {g : Gateway} (h : Inv g.toFlight) :
    Moves Tends g.toFlight (devTick E g).toFlight := by
  unfold devTick
  split
  · exact .refl _
  · dsimp only
    split
    · exact .refl _
    · exact tends_foldl _ { (g.ask E).2 with devLastPollMs := (g.ask E).1.now } h
        fun g hg i _ => devWatchService_moves E hg i

theorem afterBatch_moves {g : Gateway} (h : Inv g.toFlight) :
    Moves Tends g.toFlight (afterBatch E g).toFlight :=
  (devTick_moves E h).trans
    ((supervise_moves E (Moves.inv (devTick_moves E h) h)).mono fun _ hl => hl.tends)

/-- The service and the entries whose controllers a command destroys. -/
def commandTargets (f : Flight) (cmdline : Bytes) : Option (Nat × List Nat) :=
  match strtokR cmdline with
  | none => none
  | some (cmd, save) =>
      match strtokR save with
      | none => none
      | some (name, save) =>
          if cmd = lit "service-rm" then (findService f name).map fun i => (i, serviceRmSlots)
          else if cmd = lit "service-scale" then
            match strtokR save with
            | none => none
            | some (ns, _) =>
                let n := (atoi ns).toNat
                if 0 < n ∧ n ≤ ntcMaxReplicas then
                  (findService f name).bind fun i =>
                    (f.services[i]?).map fun svc => (i, serviceScaleSlots svc n)
                else none
          else none

/-- The controllers a command destroys. -/
def commandDrops (f : Flight) (cmdline : Bytes) (ct : CtrlId) : Prop :=
  ∃ i ss, commandTargets f cmdline = some (i, ss) ∧ ∃ s ∈ ss, slotAt f i s = some ct

/-- What a command does to services and controllers; with `idle` it is known
    that no request waits on a controller it destroys. -/
def Commands (f : Flight) (idle : Bool) (cmdline : Bytes) (l : Label) : Prop :=
  l = .svc ∨ (∃ ct, l = .spawn ct) ∨ ∃ ct, commandDrops f cmdline ct ∧ l = .drop idle ct

/-- Changes to services and drops of some controllers. -/
def Removes (D : CtrlId → Prop) (idle : Bool) (l : Label) : Prop :=
  l = .svc ∨ ∃ ct, D ct ∧ l = .drop idle ct

/-- Such moves leave every request alone and only empty entries. -/
theorem Moves.removes {D : CtrlId → Prop} {idle : Bool} {f f' : Flight}
    (h : Moves (Removes D idle) f f') :
    f'.conns = f.conns ∧ f'.slots = f.slots ∧
      ∀ i s ct, slotAt f' i s = some ct → slotAt f i s = some ct := by
  refine h.keep (I := fun x => x.conns = f.conns ∧ x.slots = f.slots ∧
    ∀ i s ct, slotAt x i s = some ct → slotAt f i s = some ct) ?_ ⟨rfl, rfl, fun _ _ _ h => h⟩
  rintro a b l (rfl | ⟨ct, -, rfl⟩) hm ⟨hc, hs, hat⟩
  · cases hm with
    | svc services hsame => exact ⟨hc, hs, fun i s ct h => hat i s ct (hsame i s ▸ h)⟩
  · cases hm with
    | drop _ _ services _ hset =>
        exact ⟨hc, hs, fun i s ct' h => hat i s ct' ((hset i s ct').mp h).1⟩

theorem destroyLoop_moves {g : Gateway} (h : Inv g.toFlight) {i : Nat} (idle : Bool) (ss : List Nat)
    (hidle : idle = true → ∀ ct, (∃ s ∈ ss, slotAt g.toFlight i s = some ct) →
      ¬ Waits g.toFlight ct) :
    Moves (Removes (fun ct => ∃ s ∈ ss, slotAt g.toFlight i s = some ct) idle) g.toFlight
      (ss.foldl (destroyReplica i) g).toFlight := by
  refine (Lib.Steps.foldl Gateway.toFlight
    (I := fun x => Moves (Removes (fun ct => ∃ s ∈ ss, slotAt g.toFlight i s = some ct) idle)
      g.toFlight x.toFlight) ss g (.refl _) ?_).1
  intro a ha s hs
  obtain ⟨hconns, hslots, hat⟩ := Moves.removes ha
  have hstep : Moves (Removes (fun ct => ∃ s ∈ ss, slotAt g.toFlight i s = some ct) idle)
      a.toFlight (destroyReplica i a s).toFlight := by
    unfold destroyReplica
    split
    · exact .refl _
    · rename_i ct hct
      have hmine : ∃ s ∈ ss, slotAt g.toFlight i s = some ct := ⟨s, hs, hat i s ct hct⟩
      refine (dropReplica_moves (Moves.inv ha h).ctrls hct ?_).mono
        fun l hl => Or.inr ⟨ct, hmine, hl⟩
      rintro hidle' ⟨x, k, c, hx, hk, hw⟩
      exact hidle hidle' ct hmine ⟨x, k, c, hslots ▸ hx, hconns ▸ hk, hw⟩
  exact ⟨hstep, ha.trans hstep⟩

theorem serviceAddLive_moves (g : Gateway) (name bin : Bytes) :
    Moves (fun l => l = .svc ∨ ∃ ct, l = .spawn ct) g.toFlight
      (serviceAddLive E g name bin).2.toFlight := by
  unfold serviceAddLive
  split
  · refine Lib.Steps.mono (modService_svc_moves ?_) fun l hl => Or.inl hl
    exact fun svc => rfl
  · split
    · exact .refl _
    · dsimp only
      split
      · -- the new entry is empty, then it is spawned into
        have hnew : ∀ i s, slotAt { g.toFlight with
            services := g.services ++ [{ name := name, bin := bin }] } i s =
              slotAt g.toFlight i s := by
          intro i s
          simp only [slotAt, List.getElem?_append]
          split
          · rfl
          · rename_i hi
            rw [List.getElem?_eq_none (not_lt.mp hi), List.getElem?_singleton]
            split <;> rfl
        refine .trans (.one (.svc _ hnew) (Or.inl rfl)) ?_
        refine Lib.Steps.mono (spawnService_moves E
          (g := { (g.ask E).2 with services := g.services ++ [{ name := name, bin := bin }] })
          (i := g.services.length) (s := 0) ?_ (by decide) ?_) fun l hl => Or.inr hl
        · simp
        · refine (hnew g.services.length 0).trans ?_
          simp [slotAt]
      · exact .refl _

theorem svc_commands {f f' f₀ : Flight} {idle : Bool} {cmdline : Bytes}
    (h : Moves (· = .svc) f f') : Moves (Commands f₀ idle cmdline) f f' :=
  h.mono fun _ hl => Or.inl hl

/-- A result that was taken apart. -/
theorem Moves.of_result {α : Type} {P : Label → Prop} {f : Flight} {r : α × Gateway} {x : α}
    {g : Gateway} (hr : r = (x, g)) (h : Moves P f r.2.toFlight) : Moves P f g.toFlight := by
  rw [hr] at h
  exact h

theorem cmdServiceAdd_moves (g : Gateway) (save : Bytes) :
    Moves (fun l => l = .svc ∨ ∃ ct, l = .spawn ct) g.toFlight
      (cmdServiceAdd E g save).2.toFlight := by
  unfold cmdServiceAdd
  split
  · exact .refl _
  · split
    · exact .refl _
    · dsimp only
      split
      · exact .refl _
      · split
        · rename_i hres
          have hlive := Moves.of_result hres (serviceAddLive_moves E _ _ _)
          exact hlive
        · rename_i hres
          have hlive := Moves.of_result hres (serviceAddLive_moves E _ _ _)
          exact hlive

theorem cmdRouteAdd_flight (g : Gateway) (save : Bytes) :
    (cmdRouteAdd E g save).2.toFlight = g.toFlight := by
  unfold cmdRouteAdd
  dsimp only
  split
  · rfl
  · split
    · rfl
    · split
      · rfl
      · split
        · rfl
        · split
          · rfl
          · split <;> rfl

theorem cmdConfigSet_flight (g : Gateway) (save : Bytes) :
    (cmdConfigSet E g save).2.toFlight = g.toFlight := by
  unfold cmdConfigSet
  dsimp only
  split
  · rfl
  · split
    · rfl
    · split
      · rfl
      · dsimp only
        split <;> rfl

theorem cmdConfigGet_flight (g : Gateway) (save : Bytes) :
    (cmdConfigGet E g save).2.toFlight = g.toFlight := by
  unfold cmdConfigGet
  split
  · rfl
  · dsimp only
    split <;> rfl

theorem disableService_moves {g : Gateway} (h : Inv g.toFlight) {i : Nat} {idle : Bool}
    (hidle : idle = true → ∀ ct, (∃ s ∈ serviceRmSlots, slotAt g.toFlight i s = some ct) →
      ¬ Waits g.toFlight ct) :
    Moves (Removes (fun ct => ∃ s ∈ serviceRmSlots, slotAt g.toFlight i s = some ct) idle)
      g.toFlight (disableService g i).toFlight := by
  have hmark := modService_svc_moves (g := g) (i := i)
    (F := fun svc => { svc with disabled := true }) fun svc => rfl
  obtain ⟨hconns, hslots, hat⟩ := Moves.removes
    (hmark.mono (Q := Removes (fun _ => True) true) fun l hl => Or.inl hl)
  unfold disableService
  refine (hmark.mono fun l hl => Or.inl hl).trans
    ((destroyLoop_moves (Moves.inv hmark h) idle serviceRmSlots ?_).mono ?_)
  · rintro hidle' ct ⟨s, hs, hct⟩ ⟨x, k, c, hx, hk, hw⟩
    exact hidle hidle' ct ⟨s, hs, hat i s ct hct⟩ ⟨x, k, c, hslots ▸ hx, hconns ▸ hk, hw⟩
  · rintro l (hl | ⟨ct, ⟨s, hs, hct⟩, hl⟩)
    · exact Or.inl hl
    · exact Or.inr ⟨ct, ⟨s, hs, hat i s ct hct⟩, hl⟩

/-- Drops of the controllers a command names. -/
theorem removes_commands {f f' f₀ : Flight} {idle : Bool} {cmdline : Bytes} {D : CtrlId → Prop}
    (hD : ∀ ct, D ct → commandDrops f₀ cmdline ct) (h : Moves (Removes D idle) f f') :
    Moves (Commands f₀ idle cmdline) f f' := by
  refine h.mono ?_
  rintro l (hl | ⟨ct, hct, hl⟩)
  · exact Or.inl hl
  · exact Or.inr (Or.inr ⟨ct, hD ct hct, hl⟩)

theorem cmdServiceRm_moves {g : Gateway} (h : Inv g.toFlight) {cmdline save : Bytes} {idle : Bool}
    (hcmd : strtokR cmdline = some (lit "service-rm", save))
    (hidle : idle = true → ∀ ct, commandDrops g.toFlight cmdline ct → ¬ Waits g.toFlight ct) :
    Moves (Commands g.toFlight idle cmdline) g.toFlight (cmdServiceRm E g save).2.toFlight := by
  unfold cmdServiceRm
  split
  · exact .refl _
  · rename_i name rest hname
    dsimp only
    split
    · exact .refl _
    · rename_i i hfind
      have htargets : commandTargets g.toFlight cmdline = some (i, serviceRmSlots) := by
        have hi : findService g.toFlight name = some i := hfind
        simp only [commandTargets, hcmd, hname, hi, if_true, Option.map_some]
      have hdrops : ∀ ct, (∃ s ∈ serviceRmSlots, slotAt g.toFlight i s = some ct) →
          commandDrops g.toFlight cmdline ct := fun ct hct => ⟨i, _, htargets, hct⟩
      refine removes_commands hdrops
        (disableService_moves (g := { (g.ask E).2 with reg := _ }) h ?_)
      exact fun hidle' ct hct => hidle hidle' ct (hdrops ct hct)

theorem cmdServiceScale_moves {g : Gateway} (h : Inv g.toFlight) {cmdline save : Bytes}
    {idle : Bool} (hne : lit "service-scale" ≠ lit "service-rm")
    (hcmd : strtokR cmdline = some (lit "service-scale", save))
    (hidle : idle = true → ∀ ct, commandDrops g.toFlight cmdline ct → ¬ Waits g.toFlight ct) :
    Moves (Commands g.toFlight idle cmdline) g.toFlight
      (cmdServiceScale E g save).2.toFlight := by
  unfold cmdServiceScale
  dsimp only
  split
  · exact .refl _
  · rename_i name rest hname
    split
    · exact .refl _
    · rename_i ns rest' hns
      split
      · rename_i hn
        split
        · exact .refl _
        · rename_i i hfind
          split
          · exact .refl _
          · rename_i svc hsvc
            have htargets : commandTargets g.toFlight cmdline =
                some (i, serviceScaleSlots svc (atoi ns).toNat) := by
              simp only [commandTargets, hcmd, hname, hns, if_neg hne, if_true, if_pos hn, hfind,
                hsvc, Option.bind_some, Option.map_some]
            have hdrops : ∀ ct, (∃ s ∈ serviceScaleSlots svc (atoi ns).toNat,
                slotAt g.toFlight i s = some ct) → commandDrops g.toFlight cmdline ct :=
              fun ct hct => ⟨i, _, htargets, hct⟩
            have hloop := destroyLoop_moves h idle (serviceScaleSlots svc (atoi ns).toNat)
              fun hidle' ct hct => hidle hidle' ct (hdrops ct hct)
            refine (removes_commands hdrops hloop).trans (svc_commands (modService_svc_moves ?_))
            exact fun svc => rfl
      · exact .refl _

/-- A command changes services, spawns, and drops the controllers it names. -/
theorem execControlCommand_moves {g : Gateway} (h : Inv g.toFlight) (cmdline : Bytes) (idle : Bool)
    (hidle : idle = true → ∀ ct, commandDrops g.toFlight cmdline ct → ¬ Waits g.toFlight ct) :
    Moves (Commands g.toFlight idle cmdline) g.toFlight
      (execControlCommand E g cmdline).2.toFlight := by
  unfold execControlCommand
  split
  · exact .refl _
  · rename_i cmd save hcmd
    by_cases hping : cmd = lit "ping"
    · rw [if_pos hping]
      exact .refl _
    rw [if_neg hping]
    by_cases hstatus : cmd = lit "status"
    · rw [if_pos hstatus]
      exact .refl _
    rw [if_neg hstatus]
    by_cases hadd : cmd = lit "service-add"
    · rw [if_pos hadd]
      refine (cmdServiceAdd_moves E g save).mono ?_
      rintro l (hl | hl)
      · exact Or.inl hl
      · exact Or.inr (Or.inl hl)
    rw [if_neg hadd]
    by_cases hroute : cmd = lit "route-add"
    · rw [if_pos hroute]
      exact .of_eq (cmdRouteAdd_flight E g save)
    rw [if_neg hroute]
    by_cases hrm : cmd = lit "service-rm"
    · rw [if_pos hrm]
      exact cmdServiceRm_moves E h (hrm ▸ hcmd) hidle
    rw [if_neg hrm]
    by_cases hscale : cmd = lit "service-scale"
    · rw [if_pos hscale]
      exact cmdServiceScale_moves E h (hscale ▸ hrm) (hscale ▸ hcmd) hidle
    rw [if_neg hscale]
    by_cases hslist : cmd = lit "service-list"
    · rw [if_pos hslist]
      exact .refl _
    rw [if_neg hslist]
    by_cases hrlist : cmd = lit "route-list"
    · rw [if_pos hrlist]
      exact .refl _
    rw [if_neg hrlist]
    by_cases hset : cmd = lit "config-set"
    · rw [if_pos hset]
      exact .of_eq (cmdConfigSet_flight E g save)
    rw [if_neg hset]
    by_cases hget : cmd = lit "config-get"
    · rw [if_pos hget]
      exact .of_eq (cmdConfigGet_flight E g save)
    rw [if_neg hget]
    by_cases hstop : cmd = lit "stop"
    · rw [if_pos hstop]
      exact .refl _
    · rw [if_neg hstop]
      exact .refl _

end Naitron
