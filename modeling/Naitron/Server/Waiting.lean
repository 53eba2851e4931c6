/-
  Naitron.Server.Waiting

  Requests in flight and the controllers they wait on.

  `controller_died` and `dev_teardown_slot` fail the waiting requests before
  they free a controller; `service-rm` and `service-scale` do not.  So a
  stored request waits on a live controller in every run whose commands leave
  controllers with waiting requests alone, and need not in others.
-/

import Naitron.Server.Slots

namespace Naitron

variable (E : Ext)

/-- In a run whose control commands destroy only controllers that no stored
    request waits on, every stored request waits on a live controller, listed
    by its service. -/
theorem stored_requests_wait_on_live_controllers {g : Gateway}
    (hg : ReachableBy E (IdleStep E) g) :
    ∀ s k, g.slots.pending s = some k →
      ∃ c ct, g.conns k = some c ∧ c.waitCtrl = some ct ∧ (∃ t, g.ctrls ct = some t) ∧
        ∃ i r, slotAt g.toFlight i r = some ct := by
  have h := ReachableBy.inv E hg
  have hw := ReachableBy.waitInv E hg
  intro s k hs
  obtain ⟨c, hc, -, -⟩ := h.slots.pending s k hs
  obtain ⟨ct, hct, i, r, hat⟩ := hw s k c hs hc
  obtain ⟨t, ht, -, -⟩ := h.ctrls.owner i r ct hat
  exact ⟨c, ct, hc, hct, ⟨t, ht⟩, i, r, hat⟩

/-- An event that runs no command is such a step. -/
theorem idleStep_of_none {g : Gateway} {e : Event} (h : eventCommand E g e = none) :
    IdleStep E g (.event e) := by
  intro cmdline hcmd
  rw [h] at hcmd
  cases hcmd

theorem stored_requests_wait_hello :
    (helloInFlight quietExt).slots.pending 4095 = some 0 ∧
      ∃ c ct, (helloInFlight quietExt).conns 0 = some c ∧ c.waitCtrl = some ct ∧
        (∃ t, (helloInFlight quietExt).ctrls ct = some t) ∧
        ∃ i r, slotAt (helloInFlight quietExt).toFlight i r = some ct := by
  have hpend := helloInFlight_waits.pending
  have hrun : ReachableBy quietExt (IdleStep quietExt) (helloInFlight quietExt) :=
    helloInFlight_reachable quietExt (idleStep_of_none quietExt rfl)
      (idleStep_of_none quietExt (by decide +kernel))
  exact ⟨hpend, stored_requests_wait_on_live_controllers quietExt hrun 4095 0 hpend⟩

/-! ## A service removed under its request -/

/-- An operator connects to the control socket. -/
def removeConnect : Input := .event (.listenControl [true])

/-- It removes the service. -/
def removeGreeter : Input :=
  .event (.control 0 true (recvOf (lit "secret service-rm greeter\n")))

/-- The state after the removal. -/
def helloRemoved (E : Ext) : Gateway :=
  step E (step E (helloInFlight E) removeConnect) removeGreeter

theorem helloRemoved_reachable : Reachable E (helloRemoved E) :=
  .step _ _ (.step _ _ (helloInFlight_reachable E trivial trivial) trivial) trivial

/-- `service-rm` frees the controller and leaves the request waiting on it. -/
theorem service_rm_strands_request :
    ¬ ∀ (E : Ext) (g : Gateway), Reachable E g → ∀ s k, g.slots.pending s = some k →
      ∃ c ct, g.conns k = some c ∧ c.waitCtrl = some ct ∧
        ∃ i r, slotAt g.toFlight i r = some ct := by
  intro h
  have hg := helloRemoved_reachable quietExt
  obtain ⟨c, ct, hc, hct, i, r, hat⟩ :=
    h quietExt (helloRemoved quietExt) hg 4095 0 (by decide +kernel)
  have hwait : ((helloRemoved quietExt).conns 0).map (·.waitCtrl) = some (some 0) := by
    decide +kernel
  have hgone : (helloRemoved quietExt).ctrls 0 = none := by decide +kernel
  rw [hc, Option.map_some, hct] at hwait
  obtain ⟨t, ht, -, -⟩ := (ReachableBy.inv quietExt hg).ctrls.owner i r ct hat
  cases hwait
  rw [hgone] at ht
  cases ht

end Naitron
