/-
  Naitron.Server.Slots

  What the in-flight table guarantees in every state of every run: slots and
  connections agree, and an id names the request it was issued for as long as
  its slot has been freed fewer than 2^20 times since.
-/

import Naitron.Server.EventEffects

namespace Naitron

variable (E : Ext)

/-- The free stack holds exactly the empty slots, each once; an occupied slot
    belongs to one connection in flight, whose id names slot and generation;
    and a connection in flight occupies exactly one slot. -/
theorem slots_hold_connections_in_flight {g : Gateway} (hg : Reachable E g) :
    (g.slots.freeTop ≤ ntcMaxInflight ∧
      (∀ i < g.slots.freeTop, ∀ j < g.slots.freeTop,
        g.slots.freeSlots i = g.slots.freeSlots j → i = j) ∧
      (∀ s, (∃ i < g.slots.freeTop, g.slots.freeSlots i = s) ↔
        s < ntcMaxInflight ∧ g.slots.pending s = none)) ∧
    (∀ s k, g.slots.pending s = some k →
      s < ntcMaxInflight ∧ ∃ c, g.conns k = some c ∧ c.inflight = true ∧
        s = c.reqId % 4096 ∧ g.slots.gen s % 2 ^ 20 = c.reqId / 4096) ∧
    (∀ k c, g.conns k = some c → c.inflight = true → ∃! s, g.slots.pending s = some k) := by
  have h := (ReachableBy.inv E hg).slots
  have hslot : ∀ s k, g.slots.pending s = some k →
      ∃ c, g.conns k = some c ∧ c.inflight = true ∧ s = idSlot c.reqId ∧
        g.slots.gen s % ntcGenSpan = idGen c.reqId := by
    intro s k hs
    obtain ⟨c, hc, hin, hid⟩ := h.pending s k hs
    have hlt := h.wf.lt_of_pending hs
    exact ⟨c, hc, hin, by rw [hid, idSlot_encodeId hlt], by rw [hid, idGen_encodeId hlt]⟩
  refine ⟨⟨h.wf.freeTop_le, h.wf.slot_inj, ?_⟩, ?_, ?_⟩
  · intro s
    constructor
    · rintro ⟨i, hi, rfl⟩
      have hlt := h.wf.slot_lt i hi
      exact ⟨hlt, (h.wf.free_iff _ hlt).mp ⟨i, hi, rfl⟩⟩
    · rintro ⟨hlt, hnone⟩
      exact (h.wf.free_iff s hlt).mpr hnone
  · intro s k hs
    exact ⟨h.wf.lt_of_pending hs, hslot s k hs⟩
  · intro k c hc hin
    refine ⟨idSlot c.reqId, h.inflight k c hc hin, fun s hs => ?_⟩
    obtain ⟨d, hd, -, hds, -⟩ := hslot s k hs
    rw [hc] at hd
    cases hd
    exact hds

/-! ## A run with one request in flight

Two services with one replica each, one route, and a client whose request has
been forwarded to the first.  The cases of the results below and in the
modules after this one start from here. -/

/-- `GET /hello` forwarded to service 0. -/
def helloRouter : NtcRouter :=
  [⟨lit "GET", lit "/hello", [⟨lit "hello", false⟩], .forward 0, by decide⟩]

/-- The services of the run. -/
def helloServices : List Service :=
  [{ name := lit "greeter", bin := lit "bin/greeter" },
    { name := lit "clock", bin := lit "bin/clock" }]

/-- The gateway with its services started: controller 0 is the greeter,
    controller 1 the clock. -/
def helloStart (E : Ext) : Gateway :=
  startServices E (bootGateway helloServices helloRouter (.set 65 (lit "secret")))

/-- A `recv` that returns these bytes. -/
def recvOf : Bytes → List RecvResult
  | [] => []
  | b :: bs => [.data b bs]

/-- A plaintext client connects. -/
def helloConnect : Input := .event (.listen false false [⟨.empty 46, true⟩])

/-- Connection `k` sends its request. -/
def helloSend (k : ConnId) : Input :=
  .event (.client k true false { recvs := recvOf (lit "GET /hello HTTP/1.1\r\n\r\n") })

/-- A client is connected. -/
def helloConnected (E : Ext) : Gateway := step E (helloStart E) helloConnect

/-- Its request is in flight. -/
def helloInFlight (E : Ext) : Gateway := step E (helloConnected E) (helloSend 0)

theorem helloServices_idle : ∀ svc ∈ helloServices, ∀ s, svc.conns s = none := by
  intro svc hsvc s
  rw [helloServices, List.mem_cons, List.mem_singleton] at hsvc
  rcases hsvc with rfl | rfl <;> rfl

theorem helloStart_reachable (P : Gateway → Input → Prop) : ReachableBy E P (helloStart E) :=
  .start _ (bootGateway_fresh helloServices_idle _ _)

theorem helloConnected_reachable {P : Gateway → Input → Prop}
    (h : P (helloStart E) helloConnect) : ReachableBy E P (helloConnected E) :=
  .step _ _ (helloStart_reachable E P) h

theorem helloInFlight_reachable {P : Gateway → Input → Prop}
    (h : P (helloStart E) helloConnect) (h' : P (helloConnected E) (helloSend 0)) :
    ReachableBy E P (helloInFlight E) :=
  .step _ _ (helloConnected_reachable E h) h'

/-- The environment in which every call succeeds and every socket blocks. -/
def quietExt : Ext := .ofAnswers fun _ => quietAnswer

/-- The request is in flight on connection 0, and no controller has said
    anything yet. -/
structure HelloWaits (g : Gateway) : Prop where
  pending : g.slots.pending 4095 = some 0
  waiting : (g.conns 0).map (fun c => (c.inflight, c.reqId, c.waitCtrl)) = some (true, 4095, some 0)
  greeter : (g.ctrls 0).map (·.rbuf) = some []
  clock : (g.ctrls 1).map (·.rbuf) = some []
  received : g.received 0 = []
  unanswered : g.replies 0 = 0

theorem helloInFlight_waits : HelloWaits (helloInFlight quietExt) := by
  constructor
  all_goals decide +kernel

/-- It holds the slot on top of the free stack. -/
theorem slots_hold_hello :
    (helloInFlight quietExt).slots.pending 4095 = some 0 ∧
      ∃ c, (helloInFlight quietExt).conns 0 = some c ∧ c.inflight = true ∧
        4095 = c.reqId % 4096 := by
  have hpend := helloInFlight_waits.pending
  obtain ⟨-, c, hc, hin, hslot, -⟩ := (slots_hold_connections_in_flight quietExt
    (helloInFlight_reachable quietExt trivial trivial)).2.1 4095 0 hpend
  exact ⟨hpend, c, hc, hin, hslot⟩

-- ============================================================================
-- Ids
-- ============================================================================

/-- The request an id was issued for is still in flight. -/
def Issue.inFlight (e : Issue) (f : Flight) : Prop :=
  ∃ c, f.conns e.conn = some c ∧ c.inflight = true ∧ c.reqId = e.id

theorem issue_inFlight_slot {f : Flight} (h : Inv f) {e : Issue} (he : e.inFlight f) :
    f.slots.pending (idSlot e.id) = some e.conn ∧
      e.id = encodeId (f.slots.gen (idSlot e.id)) (idSlot e.id) := by
  obtain ⟨c, hc, hin, hid⟩ := he
  have hpend := h.slots.inflight e.conn c hc hin
  obtain ⟨d, hd, -, hdid⟩ := h.slots.pending _ _ hpend
  rw [hc] at hd
  cases hd
  rw [hid] at hpend hdid
  exact ⟨hpend, hdid⟩

/-- In flight, an id resolves to its connection. -/
theorem gwConnForId_inFlight {f : Flight} (h : Inv f) {e : Issue} (he : e.inFlight f) :
    gwConnForId f e.id = some e.conn := by
  obtain ⟨hpend, hid⟩ := issue_inFlight_slot h he
  have hgen : f.slots.gen (idSlot e.id) % ntcGenSpan = idGen e.id := by
    have hsame : idGen (encodeId (f.slots.gen (idSlot e.id)) (idSlot e.id)) =
        f.slots.gen (idSlot e.id) % ntcGenSpan := idGen_encodeId (h.slots.wf.lt_of_pending hpend)
    rw [← hid] at hsame
    exact hsame.symm
  rw [gwConnForId, hpend]
  simp only [hgen, if_true]

/-- Over fewer than 2^20 frees of its slot, an id resolves to nothing else. -/
theorem gwConnForId_over {f : Flight} (h : Inv f) {e : Issue} (he : e ∈ f.issued)
    (hspan : f.slots.freed (idSlot e.id) - e.freed < 2 ^ 20) (hover : ¬ e.inFlight f) :
    gwConnForId f e.id = none := by
  obtain ⟨hle, hid, hsame⟩ := h.issued e he
  have hslot : idSlot e.id < ntcMaxInflight := Nat.mod_lt _ (by decide)
  have hidgen : idGen e.id = e.freed % ntcGenSpan := by
    conv_lhs => rw [hid]
    exact idGen_encodeId hslot
  rcases Nat.eq_or_lt_of_le hle with heq | hlt
  · -- never freed since: the connection is still there and in flight
    exfalso
    obtain ⟨c, hc, hin, hcid⟩ := h.slots.pending _ _ (hsame heq.symm)
    refine hover ⟨c, hc, hin, ?_⟩
    rw [hcid, h.slots.encodeId_gen, ← heq, ← hid]
  · -- freed since: the generation has moved on
    have hstale : f.slots.gen (idSlot e.id) % ntcGenSpan ≠ e.freed % ntcGenSpan :=
      h.slots.wf.handle_stale ⟨2 ^ 12, by decide⟩ hlt hspan
    rw [gwConnForId]
    cases f.slots.pending (idSlot e.id) with
    | none => rfl
    | some k =>
        rw [← hidgen] at hstale
        simp only [hstale, if_false]

/-- An id resolves to the connection it was issued to while the request is in
    flight and to nothing afterwards, until its slot has been freed 2^20 times;
    and no two connections in flight share an id. -/
theorem issued_ids_resolve {g : Gateway} (hg : Reachable E g) :
    (∀ e ∈ g.issued, g.slots.freed (idSlot e.id) - e.freed < 2 ^ 20 →
      (e.inFlight g.toFlight → gwConnForId g.toFlight e.id = some e.conn) ∧
      (¬ e.inFlight g.toFlight → gwConnForId g.toFlight e.id = none)) ∧
    (∀ k j c d, g.conns k = some c → g.conns j = some d → c.inflight = true → d.inflight = true →
      c.reqId = d.reqId → k = j) := by
  have h := ReachableBy.inv E hg
  constructor
  · intro e he hspan
    exact ⟨gwConnForId_inFlight h, gwConnForId_over h he hspan⟩
  · intro k j c d hc hd hcin hdin hid
    have hk := h.slots.inflight k c hc hcin
    have hj := h.slots.inflight j d hd hdin
    rw [hid, hj] at hk
    exact (Option.some.inj hk).symm

/-- The id handed out for the request in flight. -/
def helloIssue : Issue := ⟨4095, 0, 0⟩

theorem helloIssue_inFlight : helloIssue.inFlight (helloInFlight quietExt).toFlight := by
  obtain ⟨c, hc, hfields⟩ := Option.map_eq_some_iff.mp helloInFlight_waits.waiting
  rw [Prod.mk.injEq, Prod.mk.injEq] at hfields
  simp only [Issue.inFlight, helloIssue]
  exact ⟨c, hc, hfields.1, hfields.2.1⟩

/-- The id of the request in flight resolves to its connection. -/
theorem issued_ids_resolve_hello :
    helloIssue ∈ (helloInFlight quietExt).issued ∧
      gwConnForId (helloInFlight quietExt).toFlight helloIssue.id = some helloIssue.conn := by
  have hissued : helloIssue ∈ (helloInFlight quietExt).issued := by decide +kernel
  have hfresh : (helloInFlight quietExt).slots.freed (idSlot helloIssue.id) - helloIssue.freed
      < 2 ^ 20 := by decide +kernel
  have hrun := helloInFlight_reachable quietExt (P := fun _ _ => True) trivial trivial
  exact ⟨hissued, ((issued_ids_resolve quietExt hrun).1 helloIssue hissued hfresh).1
    helloIssue_inFlight⟩

end Naitron
