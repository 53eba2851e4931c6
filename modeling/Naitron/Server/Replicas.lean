/-
  Naitron.Server.Replicas

  Replica selection over runs: picks interleaved with deaths and respawns.

  `svc_pick` walks round the ring of slots from its cursor.  Between two picks
  of a replica that stays up, the cursor goes round once: seen from the slot
  behind that replica it only moves forward, and it never jumps over a live
  slot.
-/

import Naitron.Server.Dispatch

namespace Naitron

-- ============================================================================
-- Runs
-- ============================================================================

/-- What happens to the replicas of a service. -/
inductive ReplicaEvent where
  /-- `svc_pick`. -/
  | pick
  /-- `controller_died` for a controller of the service. -/
  | died (now : Int) (ct : CtrlId)
  /-- `spawn_service` for a slot, successful. -/
  | spawned (now : Int) (slot : Nat) (ct : CtrlId)

/-- The service after an event. -/
def Service.after (svc : Service) : ReplicaEvent → Service
  | .pick =>
      match svcPick svc with
      | none => svc
      | some (_, rr) => { svc with rr := rr }
  | .died now ct => noteDeath now ct svc
  | .spawned now slot ct =>
      { svc.setConn slot (some ct) with spawnedAt := Function.update svc.spawnedAt slot now }

/-- The slot that `svc_pick` chooses. -/
def svcPickSlot (svc : Service) : Option Nat :=
  ((List.range svc.replicas).find? fun k =>
    (svc.conns ((svc.rr + k) % svc.replicas)).isSome).map fun k => (svc.rr + k) % svc.replicas

/-- The slots picked in a run. -/
def pickedSlots : Service → List ReplicaEvent → List Nat
  | _, [] => []
  | svc, .pick :: es => (svcPickSlot svc).toList ++ pickedSlots (svc.after .pick) es
  | svc, .died now ct :: es => pickedSlots (svc.after (.died now ct)) es
  | svc, .spawned now slot ct :: es => pickedSlots (svc.after (.spawned now slot ct)) es

/-- A slot holds the same controller in every state of a run. -/
def StaysUp (slot : Nat) (ct : CtrlId) : Service → List ReplicaEvent → Prop
  | svc, [] => svc.conns slot = some ct
  | svc, e :: es => svc.conns slot = some ct ∧ StaysUp slot ct (svc.after e) es

@[simp] theorem Service.after_replicas (svc : Service) (e : ReplicaEvent) :
    (svc.after e).replicas = svc.replicas := by
  cases e with
  | pick =>
      rw [Service.after]
      split
      · rfl
      · rfl
  | died now ct =>
      rw [Service.after, noteDeath]
      split
      · rfl
      · rfl
  | spawned now slot ct => rfl

theorem Service.run_replicas (es : List ReplicaEvent) :
    ∀ svc : Service, (es.foldl Service.after svc).replicas = svc.replicas := by
  induction es with
  | nil => exact fun _ => rfl
  | cons e es ih => exact fun svc => (ih _).trans (svc.after_replicas e)

theorem StaysUp.start {slot : Nat} {ct : CtrlId} {svc : Service} {es : List ReplicaEvent}
    (h : StaysUp slot ct svc es) : svc.conns slot = some ct := by
  cases es with
  | nil => exact h
  | cons e es => exact h.1

/-! ## The events are those of the gateway -/

theorem pickTarget_after {g g' : Gateway} {i : Nat} {svc : Service} {ct : CtrlId}
    (hsvc : g.services[i]? = some svc) (h : pickTarget g i = some (ct, g')) :
    (∃ rr, svcPick svc = some (ct, rr)) ∧ g'.services[i]? = some (svc.after .pick) := by
  rw [pickTarget, hsvc] at h
  dsimp only at h
  split_ifs at h
  obtain ⟨⟨ct', rr⟩, hpick, heq⟩ := Option.map_eq_some_iff.mp h
  obtain ⟨rfl, rfl⟩ := Prod.mk.inj heq
  refine ⟨⟨rr, hpick⟩, ?_⟩
  rw [Gateway.modService, List.getElem?_modify_eq, hsvc, Service.after, hpick]
  rfl

theorem buryCtrl_after (E : Ext) {g : Gateway} {i : Nat} {svc : Service} (ct : CtrlId)
    (hsvc : g.services[i]? = some svc) :
    (buryCtrl E g i ct).services[i]? = some (svc.after (.died (g.ask E).1.now ct)) := by
  show (g.services.modify i (noteDeath (g.ask E).1.now ct))[i]? = _
  rw [List.getElem?_modify_eq, hsvc]
  rfl

theorem spawnService_after (E : Ext) {g : Gateway} {i slot : Nat} {svc : Service}
    (hok : (g.ask E).1.ok = true) (hsvc : g.services[i]? = some svc) :
    (spawnService E g i slot).2.services[i]? =
      some (svc.after (.spawned (g.ask E).1.now slot g.nctrl)) := by
  have hok' : (E.io g.tick).ok = true := hok
  simp only [spawnService, Gateway.ask, hok', if_true, Gateway.modService,
    List.getElem?_modify_eq, hsvc]
  rfl

-- ============================================================================
-- One pick
-- ============================================================================

/-- The pick is the first live slot from the cursor on. -/
theorem svcPickSlot_eq_some_iff {svc : Service} {i : Nat} :
    svcPickSlot svc = some i ↔
      ∃ k < svc.replicas, i = (svc.rr + k) % svc.replicas ∧ (svc.conns i).isSome ∧
        ∀ k' < k, svc.conns ((svc.rr + k') % svc.replicas) = none := by
  rw [svcPickSlot, Option.map_eq_some_iff]
  constructor
  · rintro ⟨k, hk, rfl⟩
    rw [List.find?_range_eq_some] at hk
    obtain ⟨hlive, hlt, hdead⟩ := hk
    refine ⟨k, List.mem_range.mp hlt, rfl, hlive, fun k' hk' => ?_⟩
    have hnone := hdead k' hk'
    rwa [Bool.not_eq_true', Option.isSome_eq_false_iff, Option.isNone_iff_eq_none] at hnone
  · rintro ⟨k, hlt, rfl, hlive, hdead⟩
    refine ⟨k, ?_, rfl⟩
    rw [List.find?_range_eq_some]
    refine ⟨hlive, List.mem_range.mpr hlt, fun k' hk' => ?_⟩
    rw [hdead k' hk']
    rfl

/-- Every slot is some steps ahead of the cursor. -/
theorem exists_ahead (rr : Nat) {i n : Nat} (hi : i < n) : ∃ k < n, i = (rr + k) % n := by
  have hsplit := Nat.div_add_mod rr n
  have hlt : rr % n < n := Nat.mod_lt rr (by omega)
  by_cases hle : rr % n ≤ i
  · refine ⟨i - rr % n, by omega, ?_⟩
    have heq : rr + (i - rr % n) = i + n * (rr / n) := by omega
    rw [heq, Nat.add_mul_mod_self_left, Nat.mod_eq_of_lt hi]
  · refine ⟨i + n - rr % n, by omega, ?_⟩
    have heq : rr + (i + n - rr % n) = i + n * (rr / n + 1) := by
      rw [Nat.mul_add]
      omega
    rw [heq, Nat.add_mul_mod_self_left, Nat.mod_eq_of_lt hi]

theorem ahead_inj {b e e' n : Nat} (he : e < n) (he' : e' < n)
    (h : (b + e) % n = (b + e') % n) : e = e' := by
  have hmod : e ≡ e' [MOD n] := Nat.ModEq.add_left_cancel' b h
  rwa [Nat.ModEq, Nat.mod_eq_of_lt he, Nat.mod_eq_of_lt he'] at hmod

/-- `svc_pick` returns the controller of the slot and moves the cursor behind
    it. -/
theorem svcPick_eq (svc : Service) :
    svcPick svc = (svcPickSlot svc).bind fun i =>
      (svc.conns i).map fun ct => (ct, (i + 1) % svc.replicas) := by
  rw [svcPick, svcPickSlot, Option.bind_map]
  induction List.range svc.replicas with
  | nil => rfl
  | cons k ks ih =>
      rw [List.findSome?_cons, List.find?_cons]
      dsimp only
      cases hk : svc.conns ((svc.rr + k) % svc.replicas) with
      | none => exact ih
      | some ct =>
          simp only [Option.map_some, Option.isSome_some, Option.bind_some, Function.comp_apply, hk]

theorem svcPickSlot_eq_none_iff {svc : Service} :
    svcPickSlot svc = none ↔ ∀ i < svc.replicas, svc.conns i = none := by
  rw [svcPickSlot, Option.map_eq_none_iff, List.find?_eq_none]
  constructor
  · intro h i hi
    obtain ⟨k, hk, hik⟩ := exists_ahead svc.rr hi
    have hdead := h k (List.mem_range.mpr hk)
    rwa [← hik, Bool.not_eq_true, Option.isSome_eq_false_iff, Option.isNone_iff_eq_none] at hdead
  · intro h k hk
    rw [h _ (Nat.mod_lt _ svc.replicas_pos)]
    exact Bool.false_ne_true

theorem svcPickSlot_live {svc : Service} {i : Nat} (h : svcPickSlot svc = some i) :
    i < svc.replicas ∧ ∃ ct, svc.conns i = some ct ∧
      svcPick svc = some (ct, (i + 1) % svc.replicas) := by
  obtain ⟨k, -, hik, hlive, -⟩ := svcPickSlot_eq_some_iff.mp h
  obtain ⟨ct, hct⟩ := Option.isSome_iff_exists.mp hlive
  refine ⟨hik ▸ Nat.mod_lt _ svc.replicas_pos, ct, hct, ?_⟩
  rw [svcPick_eq, h, Option.bind_some, hct, Option.map_some]

/-- The service after a pick. -/
theorem Service.after_pick {svc : Service} {i : Nat} (h : svcPickSlot svc = some i) :
    (svc.after .pick).rr = (i + 1) % svc.replicas ∧ (svc.after .pick).conns = svc.conns := by
  obtain ⟨-, ct, -, hpick⟩ := svcPickSlot_live h
  rw [Service.after, hpick]
  exact ⟨rfl, rfl⟩

/-- Deaths and respawns leave the cursor alone. -/
theorem Service.after_rr {svc : Service} {e : ReplicaEvent} (h : e ≠ .pick) :
    (svc.after e).rr = svc.rr := by
  cases e with
  | pick => exact absurd rfl h
  | died now ct =>
      rw [Service.after, noteDeath]
      split
      · rfl
      · rfl
  | spawned now slot ct => rfl

-- ============================================================================
-- Once round the ring
-- ============================================================================

/-- The slot `n - 1` steps behind `r`'s successor is `r`. -/
theorem round_last {r n : Nat} (hr : r < n) : (r + 1 + (n - 1)) % n = r := by
  have heq : r + 1 + (n - 1) = r + n := by omega
  rw [heq, Nat.add_mod_right, Nat.mod_eq_of_lt hr]

/-- A pick with the cursor `c` slots behind `r`'s successor stops at `r` at the
    latest. -/
theorem pick_ahead {svc : Service} {r c i : Nat} (hr : r < svc.replicas)
    (hrr : svc.rr = (r + 1 + c) % svc.replicas) (hc : c < svc.replicas)
    (hlive : (svc.conns r).isSome) (hpick : svcPickSlot svc = some i) :
    ∃ k, c + k < svc.replicas ∧ i = (r + 1 + (c + k)) % svc.replicas ∧
      ∀ k' < k, svc.conns ((r + 1 + (c + k')) % svc.replicas) = none := by
  obtain ⟨k, hk, hik, -, hdead⟩ := svcPickSlot_eq_some_iff.mp hpick
  have hstep : ∀ m, (svc.rr + m) % svc.replicas = (r + 1 + (c + m)) % svc.replicas := by
    intro m
    rw [hrr, Nat.mod_add_mod, Nat.add_assoc (r + 1)]
  refine ⟨k, ?_, hik.trans (hstep k), fun k' hk' => (hstep k').symm ▸ hdead k' hk'⟩
  by_contra hfar
  have hdeadr := hdead (svc.replicas - 1 - c) (by omega)
  rw [hstep, show c + (svc.replicas - 1 - c) = svc.replicas - 1 by omega, round_last hr]
    at hdeadr
  rw [hdeadr] at hlive
  exact absurd hlive Bool.false_ne_true

/-- Until `r` is picked again, a slot that stays up is picked once if the
    cursor still has to pass it, and not otherwise. -/
theorem pickedSlots_round {r : Nat} {ct : CtrlId} (mid : List ReplicaEvent) :
    ∀ (svc : Service) (c : Nat), r < svc.replicas → c < svc.replicas →
      svc.rr = (r + 1 + c) % svc.replicas → StaysUp r ct svc mid →
      svcPickSlot (mid.foldl Service.after svc) = some r → r ∉ pickedSlots svc mid →
      ∀ e < svc.replicas - 1, ∀ ct', StaysUp ((r + 1 + e) % svc.replicas) ct' svc mid →
        (pickedSlots svc mid).count ((r + 1 + e) % svc.replicas) = if e < c then 0 else 1 := by
  induction mid with
  | nil =>
      intro svc c hr hc hrr hup hpick _ e he ct' hup'
      -- the last pick passes every live slot it meets
      obtain ⟨k, hk, hik, hdead⟩ := pick_ahead hr hrr hc (Option.isSome_of_mem hup) hpick
      have hlast : c + k = svc.replicas - 1 :=
        ahead_inj hk (by omega) (hik.symm.trans (round_last hr).symm)
      have hpassed : e < c := by
        by_contra hle
        have hnone := hdead (e - c) (by omega)
        rw [show c + (e - c) = e by omega, hup'.start] at hnone
        cases hnone
      rw [if_pos hpassed]
      rfl
  | cons ev mid ih =>
      intro svc c hr hc hrr hup hpick hnot e he ct' hup'
      have hkeep : ∀ c', c' < svc.replicas →
          (svc.after ev).rr = (r + 1 + c') % svc.replicas → r ∉ pickedSlots (svc.after ev) mid →
          (pickedSlots (svc.after ev) mid).count ((r + 1 + e) % svc.replicas) =
            if e < c' then 0 else 1 := by
        intro c' hc' hrr' hnot'
        have hnext := ih (svc.after ev) c'
        rw [svc.after_replicas ev] at hnext
        exact hnext hr hc' hrr' hup.2 hpick hnot' e he ct' hup'.2
      cases ev with
      | died now gone =>
          have hsame : (svc.after (.died now gone)).rr = svc.rr :=
            Service.after_rr ReplicaEvent.noConfusion
          exact hkeep c hc (hsame.trans hrr) hnot
      | spawned now slot new => exact hkeep c hc hrr hnot
      | pick =>
          rw [pickedSlots] at hnot ⊢
          cases hi : svcPickSlot svc with
          | none =>
              have hdead := svcPickSlot_eq_none_iff.mp hi r hr
              rw [hup.start] at hdead
              cases hdead
          | some i =>
              rw [hi, Option.toList_some, List.singleton_append, List.mem_cons, not_or] at hnot
              obtain ⟨hne, hnot⟩ := hnot
              obtain ⟨k, hk, hik, hdead⟩ :=
                pick_ahead hr hrr hc (Option.isSome_of_mem hup.start) hi
              have hbefore : c + k ≠ svc.replicas - 1 := by
                intro heq
                rw [hik, heq, round_last hr] at hne
                exact hne rfl
              have hrr' : (svc.after .pick).rr = (r + 1 + (c + k + 1)) % svc.replicas := by
                rw [(Service.after_pick hi).1, hik, Nat.mod_add_mod]
                rfl
              have hrest := hkeep (c + k + 1) (by omega) hrr' hnot
              have hsame : i = (r + 1 + e) % svc.replicas ↔ e = c + k := by
                rw [hik]
                refine ⟨fun h => (ahead_inj hk (by omega) h).symm, fun h => by rw [h]⟩
              have hmet : c ≤ e → c + k ≤ e := by
                intro hle
                by_contra hlt
                have hnone := hdead (e - c) (by omega)
                rw [show c + (e - c) = e by omega, hup'.start] at hnone
                cases hnone
              rw [Option.toList_some, List.singleton_append, List.count_cons, hrest]
              simp only [beq_iff_eq, hsame]
              split_ifs <;> omega

-- ============================================================================
-- Live and fair
-- ============================================================================

/-- In every run `svc_pick` finds a live replica if there is one, and between
    two consecutive picks of a replica that stays up every other one that stays
    up is picked exactly once. -/
theorem replica_selection_fair (start : Service) (es : List ReplicaEvent) (svc : Service)
    (hrun : svc = es.foldl Service.after start) :
    (svcPick svc = none ↔ ∀ i < start.replicas, svc.conns i = none) ∧
    (∀ ct rr, svcPick svc = some (ct, rr) → ∃ i < start.replicas, svc.conns i = some ct) ∧
    ∀ (r : Nat) (mid : List ReplicaEvent) (ct : CtrlId),
      svcPickSlot svc = some r → StaysUp r ct (svc.after .pick) mid →
      r ∉ pickedSlots (svc.after .pick) mid →
      svcPickSlot (mid.foldl Service.after (svc.after .pick)) = some r →
      ∀ j < start.replicas, j ≠ r → ∀ ct', StaysUp j ct' (svc.after .pick) mid →
        (pickedSlots (svc.after .pick) mid).count j = 1 := by
  have hn : svc.replicas = start.replicas := by
    rw [hrun]
    exact start.run_replicas es
  rw [← hn]
  refine ⟨?_, ?_, ?_⟩
  · rw [← svcPickSlot_eq_none_iff]
    cases hi : svcPickSlot svc with
    | none => simp only [svcPick_eq, hi, Option.bind_none]
    | some i =>
        obtain ⟨-, ct, -, hpick⟩ := svcPickSlot_live hi
        rw [hpick]
        simp only [reduceCtorEq]
  · intro ct rr hpick
    cases hi : svcPickSlot svc with
    | none =>
        rw [svcPick_eq, hi] at hpick
        cases hpick
    | some i =>
        obtain ⟨hlt, ct₀, hct, hpick₀⟩ := svcPickSlot_live hi
        rw [hpick₀, Option.some.injEq, Prod.mk.injEq] at hpick
        exact ⟨i, hlt, hpick.1 ▸ hct⟩
  · intro r mid ct hfirst hup hnot hsecond j hj hne ct' hup'
    have hr : r < svc.replicas := (svcPickSlot_live hfirst).1
    obtain ⟨e, he, rfl⟩ := exists_ahead (r + 1) hj
    have hbefore : e ≠ svc.replicas - 1 := by
      rintro rfl
      exact hne (round_last hr)
    have hround := @pickedSlots_round r ct mid (svc.after .pick) 0
    rw [svc.after_replicas] at hround
    have hrr : (svc.after .pick).rr = (r + 1 + 0) % svc.replicas := (Service.after_pick hfirst).1
    have hcount := hround hr (by omega) hrr hup hsecond hnot e (by omega) ct' hup'
    rwa [if_neg (Nat.not_lt_zero e)] at hcount

/-- Three replicas. -/
def threeReplicas : Service where
  name := lit "hello"
  bin := lit "/bin/hello"
  conns i := if i < 3 then some (10 + i) else none
  replicas := 3
  replicas_pos := by decide
  replicas_le := by decide

/-- Slot 2 dies before its turn; slots 0, 1, 0 are picked. -/
theorem replica_selection_fair_three :
    (pickedSlots (threeReplicas.after .pick) [.pick, .died 7 12]).count 1 = 1 :=
  (replica_selection_fair threeReplicas [] threeReplicas rfl).2.2 0 [.pick, .died 7 12] 10
    (by decide) ⟨rfl, rfl, rfl⟩ (by decide) (by decide) 1 (by decide) (by decide) 11
    ⟨rfl, rfl, rfl⟩

end Naitron
