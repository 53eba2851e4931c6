/-
  Naitron.Server.Invariant

  Invariants of connections, controllers and the slot table, shown move by
  move.

  `SlotInv` ties the three arrays of the slot table to the `inflight` flags
  and ids of the connections.  `CtrlInv` ties the controller connections to
  the `conns[]` entries of their services.  Both hold along every sequence of
  moves.  `WaitInv`, that a stored request waits on a controller some service
  still has, needs every dropped controller to be idle.
-/

import Naitron.Server.Moves

namespace Naitron

-- ============================================================================
-- Ids
-- ============================================================================

theorem idSlot_encodeId {gen slot : Nat} (h : slot < ntcMaxInflight) :
    idSlot (encodeId gen slot) = slot := by
  simp only [idSlot, encodeId, ntcMaxInflight] at h ⊢
  omega

theorem idGen_encodeId {gen slot : Nat} (h : slot < ntcMaxInflight) :
    idGen (encodeId gen slot) = gen % ntcGenSpan := by
  simp only [idGen, encodeId, ntcMaxInflight] at h ⊢
  omega

-- ============================================================================
-- The slot table and the connections
-- ============================================================================

/-- The slot table is well formed; an occupied slot holds a connection that is
    in flight under the slot's id, and a connection in flight is in its slot.
    A connection still reading its request is not in flight. -/
structure SlotInv (f : Flight) : Prop where
  wf : f.slots.WF ntcMaxInflight ntcGenWrap
  pending : ∀ s k, f.slots.pending s = some k →
    ∃ c, f.conns k = some c ∧ c.inflight = true ∧ c.reqId = encodeId (f.slots.gen s) s
  inflight : ∀ k c, f.conns k = some c → c.inflight = true →
    f.slots.pending (idSlot c.reqId) = some k
  reading : ∀ k c, f.conns k = some c → c.state = .csRead → c.inflight = false
  fresh : ∀ k, f.nconn ≤ k → f.conns k = none

/-- The connections of a move that changes one of them. -/
theorem update_some_cases {α : Type} {m : Nat → Option α} {k j : Nat} {v : Option α} {c : α}
    (h : Function.update m j v k = some c) : (k = j ∧ v = some c) ∨ (k ≠ j ∧ m k = some c) := by
  by_cases hkj : k = j
  · subst hkj
    rw [Function.update_self] at h
    exact Or.inl ⟨rfl, h⟩
  · rw [Function.update_of_ne hkj] at h
    exact Or.inr ⟨hkj, h⟩

/-- The invariant speaks of connections and slots only. -/
theorem SlotInv.of_same {f f' : Flight} (h : SlotInv f) (hconns : f'.conns = f.conns)
    (hnconn : f'.nconn = f.nconn) (hslots : f'.slots = f.slots) : SlotInv f' := by
  obtain ⟨hwf, hpending, hinflight, hreading, hfresh⟩ := h
  rw [← hslots] at hwf hpending hinflight
  rw [← hconns] at hpending hinflight hreading hfresh
  rw [← hnconn] at hfresh
  exact ⟨hwf, hpending, hinflight, hreading, hfresh⟩

/-- Keys not yet used stay free when a connection that is there changes. -/
theorem SlotInv.fresh_update {f : Flight} (h : SlotInv f) {k : ConnId} {c : Conn}
    (hc : f.conns k = some c) (v : Option Conn) :
    ∀ j, f.nconn ≤ j → Function.update f.conns k v j = none := by
  intro j hj
  have hjk : j ≠ k := by
    rintro rfl
    rw [h.fresh j hj] at hc
    cases hc
  rw [Function.update_of_ne hjk]
  exact h.fresh j hj

/-- The invariant with one connection replaced by one that keeps its place. -/
theorem SlotInv.tune {f : Flight} (h : SlotInv f) {k : ConnId} {c c' : Conn}
    (hc : f.conns k = some c) (hk : Keeps c c') :
    SlotInv { f with conns := Function.update f.conns k (some c') } where
  wf := h.wf
  pending := by
    intro s j hs
    obtain ⟨d, hd, hin, hid⟩ := h.pending s j hs
    by_cases hjk : j = k
    · subst hjk
      rw [hc] at hd
      cases hd
      exact ⟨c', Function.update_self _ _ _, hk.inflight.trans hin, hk.reqId.trans hid⟩
    · exact ⟨d, by simpa [Function.update_of_ne hjk] using hd, hin, hid⟩
  inflight := by
    intro j d hd hin
    rcases update_some_cases hd with ⟨rfl, hv⟩ | ⟨-, hd⟩
    · cases hv
      rw [hk.reqId]
      exact h.inflight j c hc (hk.inflight ▸ hin)
    · exact h.inflight j d hd hin
  reading := by
    intro j d hd hst
    rcases update_some_cases hd with ⟨rfl, hv⟩ | ⟨-, hd⟩
    · cases hv
      rw [hk.inflight]
      refine h.reading j c hc ?_
      by_contra hleft
      exact hk.left hleft hst
    · exact h.reading j d hd hst
  fresh := h.fresh_update hc _

/-- A freed slot was the connection's own. -/
theorem SlotInv.release_guard {f : Flight} (h : SlotInv f) {k : ConnId} {s : Nat} {c : Conn}
    (hc : f.conns k = some c)
    (hs : f.slots.pending s = some k ∨ (c.inflight = true ∧ s = idSlot c.reqId)) :
    f.slots.pending s = some k ∧ c.inflight = true ∧ idSlot c.reqId = s := by
  rcases hs with hs | ⟨hin, rfl⟩
  · obtain ⟨d, hd, hin, hid⟩ := h.pending s k hs
    rw [hc] at hd
    cases hd
    exact ⟨hs, hin, by rw [hid, idSlot_encodeId (h.wf.lt_of_pending hs)]⟩
  · exact ⟨h.inflight k c hc hin, hin, rfl⟩

theorem SlotInv.release {f : Flight} (h : SlotInv f) {k : ConnId} {s : Nat} {c : Conn}
    (hc : f.conns k = some c)
    (hs : f.slots.pending s = some k ∨ (c.inflight = true ∧ s = idSlot c.reqId)) :
    SlotInv
      { f with
        slots := f.slots.free ntcGenWrap s
        conns := Function.update f.conns k (some { c with inflight := false }) } := by
  obtain ⟨hpend, hin, hslot⟩ := h.release_guard hc hs
  refine ⟨h.wf.free hpend, ?_, ?_, ?_, h.fresh_update hc _⟩
  · intro s' j hs'
    obtain ⟨hne, hold, hgen⟩ := Lib.GenTable.free_pending_some hs'
    obtain ⟨d, hd, hdin, hid⟩ := h.pending s' j hold
    have hjk : j ≠ k := by
      rintro rfl
      rw [hc] at hd
      cases hd
      exact hne (by rw [← hslot, hid, idSlot_encodeId (h.wf.lt_of_pending hold)])
    refine ⟨d, by simpa [Function.update_of_ne hjk] using hd, hdin, ?_⟩
    dsimp only
    rw [hgen]
    exact hid
  · intro j d hd hdin
    rcases update_some_cases hd with ⟨rfl, hv⟩ | ⟨hjk, hd⟩
    · cases hv
      cases hdin
    · have hj := h.inflight j d hd hdin
      have hne : idSlot d.reqId ≠ s := by
        intro heq
        rw [heq, hpend] at hj
        exact hjk (Option.some.inj hj).symm
      exact (Function.update_of_ne hne _ _).trans hj
  · intro j d hd hst
    rcases update_some_cases hd with ⟨rfl, hv⟩ | ⟨-, hd⟩
    · cases hv
      rfl
    · exact h.reading j d hd hst

theorem SlotInv.close {f : Flight} (h : SlotInv f) {k : ConnId}
    (hc : ∀ c, f.conns k = some c → c.inflight = false) :
    SlotInv { f with conns := Function.update f.conns k none } where
  wf := h.wf
  pending := by
    intro s j hs
    obtain ⟨d, hd, hin, hid⟩ := h.pending s j hs
    have hjk : j ≠ k := by
      rintro rfl
      rw [hc d hd] at hin
      cases hin
    exact ⟨d, by simpa [Function.update_of_ne hjk] using hd, hin, hid⟩
  inflight := by
    intro j d hd hin
    rcases update_some_cases hd with ⟨-, hd⟩ | ⟨-, hd⟩
    · cases hd
    · exact h.inflight j d hd hin
  reading := by
    intro j d hd hst
    rcases update_some_cases hd with ⟨-, hd⟩ | ⟨-, hd⟩
    · cases hd
    · exact h.reading j d hd hst
  fresh := by
    intro j hj
    by_cases hjk : j = k
    · subst hjk
      exact Function.update_self _ _ _
    · simpa [Function.update_of_ne hjk] using h.fresh j hj

theorem SlotInv.alloc {f : Flight} (h : SlotInv f) {k : ConnId} {c c' : Conn} {slot : Nat}
    {slots : Lib.GenTable ConnId} (is : List Issue) (hc : f.conns k = some c)
    (hfree : c.inflight = false) (ha : f.slots.alloc k = some (slot, slots))
    (hin : c'.inflight = true) (hid : c'.reqId = encodeId (f.slots.gen slot) slot)
    (hst : c'.state ≠ .csRead) :
    SlotInv
      { f with
        conns := Function.update f.conns k (some c')
        slots := slots
        issued := is } := by
  have hempty := h.wf.alloc_empty ha
  have hwf := h.wf.alloc ha
  obtain ⟨-, -, rfl⟩ := Lib.GenTable.alloc_cases ha
  refine ⟨hwf, ?_, ?_, ?_, h.fresh_update hc _⟩
  · intro s j hs
    rcases update_some_cases hs with ⟨rfl, hv⟩ | ⟨hne, hs⟩
    · cases hv
      exact ⟨c', Function.update_self _ _ _, hin, hid⟩
    · obtain ⟨d, hd, hdin, hdid⟩ := h.pending s j hs
      have hjk : j ≠ k := by
        rintro rfl
        rw [hc] at hd
        cases hd
        rw [hfree] at hdin
        cases hdin
      exact ⟨d, by simpa [Function.update_of_ne hjk] using hd, hdin, hdid⟩
  · intro j d hd hdin
    rcases update_some_cases hd with ⟨rfl, hv⟩ | ⟨hjk, hd⟩
    · cases hv
      rw [hid, idSlot_encodeId hempty.1]
      exact Function.update_self _ _ _
    · have hj := h.inflight j d hd hdin
      have hne : idSlot d.reqId ≠ slot := by
        intro heq
        rw [heq, hempty.2] at hj
        cases hj
      dsimp only
      rw [Function.update_of_ne hne]
      exact hj
  · intro j d hd hdst
    rcases update_some_cases hd with ⟨rfl, hv⟩ | ⟨-, hd⟩
    · cases hv
      exact absurd hdst hst
    · exact h.reading j d hd hdst

/-- A slot taken and given back: only its generation has moved. -/
theorem SlotInv.bounce {f : Flight} (h : SlotInv f) {k : ConnId} {slot : Nat}
    {slots : Lib.GenTable ConnId} {issued : List Issue}
    (ha : f.slots.alloc k = some (slot, slots)) :
    SlotInv
      { f with
        slots := slots.free ntcGenWrap (idSlot (encodeId (f.slots.gen slot) slot))
        issued := issued } := by
  have hempty := h.wf.alloc_empty ha
  have hwf := h.wf.alloc ha
  obtain ⟨-, -, rfl⟩ := Lib.GenTable.alloc_cases ha
  rw [idSlot_encodeId hempty.1]
  refine ⟨hwf.free (Function.update_self _ _ _), ?_, ?_, h.reading, h.fresh⟩
  · intro s j hs
    obtain ⟨hne, hheld, hgen⟩ := Lib.GenTable.free_pending_some hs
    have hold : f.slots.pending s = some j := (Function.update_of_ne hne _ _).symm.trans hheld
    obtain ⟨d, hd, hdin, hdid⟩ := h.pending s j hold
    exact ⟨d, hd, hdin, hdid.trans (by rw [hgen])⟩
  · intro j d hd hdin
    have hj := h.inflight j d hd hdin
    have hne : idSlot d.reqId ≠ slot := by
      intro heq
      rw [heq, hempty.2] at hj
      cases hj
    exact ((Function.update_of_ne hne _ _).trans (Function.update_of_ne hne _ _)).trans hj

theorem SlotInv.accept {f : Flight} (h : SlotInv f) {c : Conn} {replies : ConnId → Nat}
    {sent : ConnId → Bytes} (hc : c.inflight = false) :
    SlotInv
      { f with
        conns := Function.update f.conns f.nconn (some c)
        nconn := f.nconn + 1
        replies := replies
        sent := sent } where
  wf := h.wf
  pending := by
    intro s j hs
    obtain ⟨d, hd, hin, hid⟩ := h.pending s j hs
    have hjk : j ≠ f.nconn := by
      rintro rfl
      rw [h.fresh _ le_rfl] at hd
      cases hd
    exact ⟨d, by simpa [Function.update_of_ne hjk] using hd, hin, hid⟩
  inflight := by
    intro j d hd hin
    rcases update_some_cases hd with ⟨-, hd⟩ | ⟨-, hd⟩
    · cases hd
      rw [hc] at hin
      cases hin
    · exact h.inflight j d hd hin
  reading := by
    intro j d hd hst
    rcases update_some_cases hd with ⟨-, hd⟩ | ⟨-, hd⟩
    · cases hd
      exact hc
    · exact h.reading j d hd hst
  fresh := by
    intro j hj
    have hj' : f.nconn + 1 ≤ j := hj
    have hjk : j ≠ f.nconn := by omega
    simpa [Function.update_of_ne hjk] using h.fresh j (by omega)

/-- Every move keeps the slot invariant. -/
theorem Micro.slotInv {f f' : Flight} {l : Label} (hm : Micro f l f') (h : SlotInv f) :
    SlotInv f' := by
  cases hm with
  | tune k c c' hc hk => exact h.tune hc hk
  | release k s c hc hs | letgo k s c hc hs => exact h.release hc hs
  | close k hc => exact h.close hc
  | notice k ct c t t' payload hc _ hin =>
      -- freed, then dropped
      have hfreed := h.release hc (Or.inr ⟨hin, rfl⟩)
      refine (hfreed.close (k := k) fun d hd => ?_).of_same ?_ rfl rfl
      · rcases update_some_cases hd with ⟨-, hv⟩ | ⟨hne, -⟩
        · cases hv
          rfl
        · exact absurd rfl hne
      · exact (Function.update_idem _ _ _).symm
  | alloc k ct c c' slot slots t t' type payload hc hidle ha hopen hid =>
      exact (h.alloc f.issued hc hidle.inflight ha hopen.inflight hid
        hopen.left).of_same rfl rfl rfl
  | bounce k slot slots ha => exact h.bounce ha
  | accept c hc => exact h.accept hc.inflight
  | _ => exact ⟨h.wf, h.pending, h.inflight, h.reading, h.fresh⟩

-- ============================================================================
-- Controllers and their services
-- ============================================================================

/-- Every controller a service lists exists and knows its place, every
    controller is listed at its place, and keys are not reused. -/
structure CtrlInv (f : Flight) : Prop where
  owner : ∀ i s ct, slotAt f i s = some ct → ∃ t, f.ctrls ct = some t ∧ t.svc = i ∧ t.slot = s
  placed : ∀ ct t, f.ctrls ct = some t → slotAt f t.svc t.slot = some ct ∧ t.slot < ntcMaxReplicas
  fresh : ∀ ct, f.nctrl ≤ ct → f.ctrls ct = none

/-- A controller is listed at one place only. -/
theorem CtrlInv.unique {f : Flight} (h : CtrlInv f) {i s i' s' : Nat} {ct : CtrlId}
    (h1 : slotAt f i s = some ct) (h2 : slotAt f i' s' = some ct) : i' = i ∧ s' = s := by
  obtain ⟨t, ht, rfl, rfl⟩ := h.owner i s ct h1
  obtain ⟨t', ht', rfl, rfl⟩ := h.owner i' s' ct h2
  rw [ht] at ht'
  cases ht'
  exact ⟨rfl, rfl⟩

/-- The invariant speaks of controllers and services only. -/
theorem CtrlInv.of_same {f f' : Flight} (h : CtrlInv f) (hctrls : f'.ctrls = f.ctrls)
    (hnctrl : f'.nctrl = f.nctrl) (hservices : f'.services = f.services) : CtrlInv f' := by
  have hat : ∀ i s, slotAt f' i s = slotAt f i s := fun i s => by rw [slotAt, slotAt, hservices]
  refine ⟨fun i s ct hct => ?_, fun ct t ht => ?_, fun ct hct => ?_⟩
  · rw [hctrls]
    exact h.owner i s ct (hat i s ▸ hct)
  · rw [hat]
    exact h.placed ct t (hctrls ▸ ht)
  · rw [hctrls]
    exact h.fresh ct (hnctrl ▸ hct)

theorem CtrlInv.set {f : Flight} (h : CtrlInv f) {ct : CtrlId} {t t' : Ctrl}
    (ht : f.ctrls ct = some t) (hsvc : t'.svc = t.svc) (hslot : t'.slot = t.slot) :
    CtrlInv { f with ctrls := Function.update f.ctrls ct (some t') } where
  owner := by
    intro i s ct' hs
    obtain ⟨u, hu, hi, hsl⟩ := h.owner i s ct' hs
    by_cases hct : ct' = ct
    · subst hct
      rw [ht] at hu
      cases hu
      exact ⟨t', Function.update_self _ _ _, hsvc.trans hi, hslot.trans hsl⟩
    · exact ⟨u, by simpa [Function.update_of_ne hct] using hu, hi, hsl⟩
  placed := by
    intro ct' u hu
    rcases update_some_cases hu with ⟨rfl, hv⟩ | ⟨-, hv⟩
    · cases hv
      rw [hsvc, hslot]
      exact h.placed ct' t ht
    · exact h.placed ct' u hv
  fresh := by
    intro ct' hct'
    have hne : ct' ≠ ct := by
      rintro rfl
      have := h.fresh ct' hct'
      rw [ht] at this
      cases this
    simpa [Function.update_of_ne hne] using h.fresh ct' hct'

/-- Every move keeps the controller invariant. -/
theorem Micro.ctrlInv {f f' : Flight} {l : Label} (hm : Micro f l f') (h : CtrlInv f) :
    CtrlInv f' := by
  cases hm with
  | queue ct t t' ht hk => exact h.set ht hk.svc hk.slot
  | relay k ct c t t' payload _ _ _ _ ht hk => exact (h.set ht hk.svc hk.slot).of_same rfl rfl rfl
  | notice k ct c t t' payload _ _ _ _ ht hk => exact (h.set ht hk.svc hk.slot).of_same rfl rfl rfl
  | alloc k ct c c' slot slots t t' type payload _ _ _ _ _ _ ht hk =>
      exact (h.set ht hk.svc hk.slot).of_same rfl rfl rfl
  | fill ct t rbuf ht => exact h.set ht rfl rfl
  | spawn i s services hs hfree hset =>
      refine ⟨?_, ?_, ?_⟩
      · intro i' s' ct hct
        have hct' : (if i' = i ∧ s' = s then some f.nctrl else slotAt f i' s') = some ct :=
          (hset i' s').symm.trans hct
        split at hct'
        · rename_i hplace
          cases hct'
          exact ⟨_, Function.update_self _ _ _, hplace.1.symm, hplace.2.symm⟩
        · obtain ⟨t, ht, hi, hsl⟩ := h.owner i' s' ct hct'
          have hne : ct ≠ f.nctrl := by
            rintro rfl
            rw [h.fresh _ le_rfl] at ht
            cases ht
          exact ⟨t, by simpa [Function.update_of_ne hne] using ht, hi, hsl⟩
      · intro ct t ht
        rcases update_some_cases ht with ⟨rfl, hv⟩ | ⟨-, hv⟩
        · cases hv
          exact ⟨(hset i s).trans (if_pos ⟨rfl, rfl⟩), hs⟩
        · obtain ⟨hplace, hlt⟩ := h.placed ct t hv
          refine ⟨(hset t.svc t.slot).trans ?_, hlt⟩
          rw [if_neg]
          · exact hplace
          · rintro ⟨h1, h2⟩
            rw [h1, h2, hfree] at hplace
            cases hplace
      · intro ct hct
        have hct' : f.nctrl + 1 ≤ ct := hct
        have hne : ct ≠ f.nctrl := by omega
        simpa [Function.update_of_ne hne] using h.fresh ct (by omega)
  | drop idle ct services _ hset =>
      refine ⟨?_, ?_, ?_⟩
      · intro i s ct' hct
        obtain ⟨hold, hne⟩ := (hset i s ct').mp hct
        obtain ⟨t, ht, hi, hsl⟩ := h.owner i s ct' hold
        exact ⟨t, by simpa [Function.update_of_ne hne] using ht, hi, hsl⟩
      · intro ct' t ht
        rcases update_some_cases ht with ⟨-, hv⟩ | ⟨hne, hv⟩
        · cases hv
        · obtain ⟨hplace, hlt⟩ := h.placed ct' t hv
          exact ⟨(hset _ _ _).mpr ⟨hplace, hne⟩, hlt⟩
      · intro ct' hct
        by_cases hne : ct' = ct
        · subst hne
          exact Function.update_self _ _ _
        · simpa [Function.update_of_ne hne] using h.fresh ct' hct
  | svc services hsame =>
      exact ⟨fun i s ct hct => h.owner i s ct ((hsame i s).symm.trans hct),
        fun ct t ht => ⟨(hsame _ _).trans (h.placed ct t ht).1, (h.placed ct t ht).2⟩, h.fresh⟩
  | _ => exact ⟨h.owner, h.placed, h.fresh⟩

-- ============================================================================
-- Requests wait on live controllers
-- ============================================================================

/-- Every stored request waits on a controller that some service lists. -/
def WaitInv (f : Flight) : Prop :=
  ∀ s k c, f.slots.pending s = some k → f.conns k = some c →
    ∃ ct, c.waitCtrl = some ct ∧ ∃ i r, slotAt f i r = some ct

/-- Requests that were stored before, waiting on what they waited on, wait on
    listed controllers still. -/
theorem WaitInv.of_stored {f f' : Flight} (h : WaitInv f) (hsvc : f'.services = f.services)
    (hold : ∀ s k c', f'.slots.pending s = some k → f'.conns k = some c' →
      f.slots.pending s = some k ∧ ∃ c, f.conns k = some c ∧ c'.waitCtrl = c.waitCtrl) :
    WaitInv f' := by
  intro s k c' hp hc'
  obtain ⟨hp', c, hc, hw⟩ := hold s k c' hp hc'
  obtain ⟨ct, hct, i, r, hat⟩ := h s k c hp' hc
  refine ⟨ct, hw.trans hct, i, r, ?_⟩
  rw [slotAt, hsvc]
  exact hat

/-- The same requests wait on listed controllers when none they wait on is
    taken off a list. -/
theorem WaitInv.of_listed {f f' : Flight} (h : WaitInv f) (hslots : f'.slots = f.slots)
    (hconns : f'.conns = f.conns)
    (hlist : ∀ ct i r, Waits f ct → slotAt f i r = some ct → slotAt f' i r = some ct) :
    WaitInv f' := by
  intro s k c hp hc
  rw [hslots] at hp
  rw [hconns] at hc
  obtain ⟨ct, hw, i, r, hat⟩ := h s k c hp hc
  exact ⟨ct, hw, i, r, hlist ct i r ⟨s, k, c, hp, hc, hw⟩ hat⟩

/-- Every move but the drop of a busy controller keeps `WaitInv`. -/
theorem Micro.waitInv {f f' : Flight} {l : Label} (hm : Micro f l f')
    (hl : ∀ ct, l ≠ .drop false ct) (hs : SlotInv f) (h : WaitInv f) : WaitInv f' := by
  cases hm with
  | tune k c c' hc hk =>
      refine h.of_stored rfl fun s j d hp hd => ⟨hp, ?_⟩
      rcases update_some_cases hd with ⟨rfl, hv⟩ | ⟨-, hv⟩
      · cases hv
        exact ⟨c, hc, hk.waitCtrl⟩
      · exact ⟨d, hv, rfl⟩
  | release k s c hc hsl | letgo k s c hc hsl =>
      refine h.of_stored rfl fun s' j d hp hd => ⟨(Lib.GenTable.free_pending_some hp).2.1, ?_⟩
      rcases update_some_cases hd with ⟨rfl, hv⟩ | ⟨-, hv⟩
      · cases hv
        exact ⟨c, hc, rfl⟩
      · exact ⟨d, hv, rfl⟩
  | close k hc =>
      refine h.of_stored rfl fun s j d hp hd => ⟨hp, ?_⟩
      rcases update_some_cases hd with ⟨-, hv⟩ | ⟨-, hv⟩
      · cases hv
      · exact ⟨d, hv, rfl⟩
  | notice k ct c t t' payload =>
      refine h.of_stored rfl fun s j d hp hd => ⟨(Lib.GenTable.free_pending_some hp).2.1, ?_⟩
      rcases update_some_cases hd with ⟨-, hv⟩ | ⟨-, hv⟩
      · cases hv
      · exact ⟨d, hv, rfl⟩
  | alloc k ct c c' slot slots t t' type payload hc hidle ha hopen hid hlive =>
      intro s j d hp hd
      obtain ⟨-, -, rfl⟩ := Lib.GenTable.alloc_cases ha
      rcases update_some_cases hd with ⟨rfl, hv⟩ | ⟨hjk, hv⟩
      · cases hv
        exact ⟨ct, hopen.waitCtrl, hlive⟩
      · rcases update_some_cases hp with ⟨-, hv'⟩ | ⟨-, hv'⟩
        · cases hv'
          exact absurd rfl hjk
        · exact h s j d hv' hv
  | bounce k slot slots ha =>
      have hempty := hs.wf.alloc_empty ha
      obtain ⟨-, -, rfl⟩ := Lib.GenTable.alloc_cases ha
      refine h.of_stored rfl fun s j d hp hd => ⟨?_, d, hd, rfl⟩
      obtain ⟨hne, hheld, -⟩ := Lib.GenTable.free_pending_some hp
      rw [idSlot_encodeId hempty.1] at hne
      exact (Function.update_of_ne hne _ _).symm.trans hheld
  | accept c hc =>
      refine h.of_stored rfl fun s j d hp hd => ⟨hp, ?_⟩
      obtain ⟨e, he, -, -⟩ := hs.pending s j hp
      rcases update_some_cases hd with ⟨rfl, -⟩ | ⟨-, hv⟩
      · rw [hs.fresh _ le_rfl] at he
        cases he
      · exact ⟨d, hv, rfl⟩
  | spawn i r services _ hfree hset =>
      refine h.of_listed rfl rfl fun ct i' r' _ hct => (hset i' r').trans ?_
      rw [if_neg]
      · exact hct
      · rintro ⟨rfl, rfl⟩
        rw [hfree] at hct
        cases hct
  | drop idle ct services hidle hset =>
      have htrue : idle = true := by
        cases idle with
        | true => rfl
        | false => exact absurd rfl (hl ct)
      refine h.of_listed rfl rfl fun ct' i r hwaits hct => (hset i r ct').mpr ⟨hct, ?_⟩
      rintro rfl
      exact hidle htrue hwaits
  | svc services hsame => exact h.of_listed rfl rfl fun ct i r _ hct => (hsame i r).trans hct
  | _ => exact h

-- ============================================================================
-- Ids handed out
-- ============================================================================

/-- Each id handed out carries the generation its slot had then, and its
    connection holds the slot as long as the slot has not been freed. -/
def IssueInv (f : Flight) : Prop :=
  ∀ e ∈ f.issued,
    e.freed ≤ f.slots.freed (idSlot e.id) ∧ e.id = encodeId e.freed (idSlot e.id) ∧
      (f.slots.freed (idSlot e.id) = e.freed → f.slots.pending (idSlot e.id) = some e.conn)

/-- The id of a slot in terms of the count of its frees: 32-bit counters and
    20-bit fields agree. -/
theorem SlotInv.encodeId_gen {f : Flight} (h : SlotInv f) (s : Nat) :
    encodeId (f.slots.gen s) s = encodeId (f.slots.freed s) s := by
  have hmod : f.slots.gen s % ntcGenSpan = f.slots.freed s % ntcGenSpan := by
    rw [h.wf.gen_eq, Nat.mod_mod_of_dvd]
    exact ⟨2 ^ 12, by decide⟩
  rw [encodeId, encodeId, hmod]

/-- Freeing an occupied slot keeps the record of ids. -/
theorem IssueInv.free {f : Flight} (h : IssueInv f) (s : Nat) :
    ∀ e ∈ f.issued,
      e.freed ≤ (f.slots.free ntcGenWrap s).freed (idSlot e.id) ∧
        e.id = encodeId e.freed (idSlot e.id) ∧
        ((f.slots.free ntcGenWrap s).freed (idSlot e.id) = e.freed →
          (f.slots.free ntcGenWrap s).pending (idSlot e.id) = some e.conn) := by
  intro e he
  obtain ⟨hle, hid, hpend⟩ := h e he
  by_cases hs : idSlot e.id = s
  · have hfreed : (f.slots.free ntcGenWrap s).freed (idSlot e.id)
        = f.slots.freed (idSlot e.id) + 1 := by
      rw [hs]
      exact Function.update_self _ _ _
    exact ⟨by omega, hid, fun heq => by omega⟩
  · have hfreed : (f.slots.free ntcGenWrap s).freed (idSlot e.id) = f.slots.freed (idSlot e.id) :=
      Function.update_of_ne hs _ _
    have hpending : (f.slots.free ntcGenWrap s).pending (idSlot e.id)
        = f.slots.pending (idSlot e.id) := Function.update_of_ne hs _ _
    rw [hfreed, hpending]
    exact ⟨hle, hid, hpend⟩

/-- Taking a slot keeps the record, with the new id added to it. -/
theorem IssueInv.alloc {f : Flight} (h : IssueInv f) (hs : SlotInv f) {k : ConnId} {slot : Nat}
    {slots : Lib.GenTable ConnId} (ha : f.slots.alloc k = some (slot, slots)) :
    ∀ e ∈ (⟨encodeId (f.slots.gen slot) slot, k, f.slots.freed slot⟩ : Issue) :: f.issued,
      e.freed ≤ slots.freed (idSlot e.id) ∧ e.id = encodeId e.freed (idSlot e.id) ∧
        (slots.freed (idSlot e.id) = e.freed → slots.pending (idSlot e.id) = some e.conn) := by
  have hempty := hs.wf.alloc_empty ha
  obtain ⟨-, -, rfl⟩ := Lib.GenTable.alloc_cases ha
  intro e he
  rcases List.mem_cons.mp he with rfl | he
  · rw [idSlot_encodeId hempty.1]
    exact ⟨le_rfl, hs.encodeId_gen slot, fun _ => Function.update_self _ _ _⟩
  · obtain ⟨hle, hid, hpend⟩ := h e he
    refine ⟨hle, hid, fun heq => ?_⟩
    have hold := hpend heq
    have hne : idSlot e.id ≠ slot := by
      intro heq'
      rw [heq', hempty.2] at hold
      cases hold
    dsimp only
    rw [Function.update_of_ne hne]
    exact hold

/-- Every move keeps the record of ids. -/
theorem Micro.issueInv {f f' : Flight} {l : Label} (hm : Micro f l f') (hs : SlotInv f)
    (h : IssueInv f) : IssueInv f' := by
  cases hm with
  | release k s | letgo k s => exact h.free s
  | notice k ct c => exact h.free (idSlot c.reqId)
  | alloc k ct c c' slot slots t t' type payload hc hidle ha hopen hid =>
      have := h.alloc hs ha
      rw [← hid] at this
      exact this
  | bounce k slot slots ha =>
      have halloc : IssueInv
          { f with
            slots := slots
            issued := ⟨encodeId (f.slots.gen slot) slot, k, f.slots.freed slot⟩ :: f.issued } :=
        h.alloc hs ha
      exact halloc.free _
  | _ => exact h

-- ============================================================================
-- States of a connection
-- ============================================================================

/-- A connection that is read, or waits on nothing, has not been given to a
    controller; one in `CS_WS` is a WebSocket. -/
structure PhaseConn (c : Conn) : Prop where
  reading : c.state = .csRead → IdleConn c
  idle : c.waitCtrl = none → IdleConn c
  ws : c.state = .csWs → c.isWs = true

theorem IdleConn.keeps {c c' : Conn} (h : IdleConn c) (hk : Keeps c c') : IdleConn c' :=
  ⟨hk.inflight.trans h.inflight, hk.waitCtrl.trans h.waitCtrl, hk.isWs.trans h.isWs⟩

theorem PhaseConn.keeps {c c' : Conn} (h : PhaseConn c) (hk : Keeps c c') : PhaseConn c' where
  reading hst := by
    refine (h.reading ?_).keeps hk
    by_contra hleft
    exact hk.left hleft hst
  idle hwait := (h.idle (hk.waitCtrl ▸ hwait)).keeps hk
  ws hst := hk.isWs.trans (h.ws (hk.entered hst))

theorem PhaseConn.release {c : Conn} (h : PhaseConn c) : PhaseConn { c with inflight := false } where
  reading hst := ⟨rfl, (h.reading hst).waitCtrl, (h.reading hst).isWs⟩
  idle hwait := ⟨rfl, hwait, (h.idle hwait).isWs⟩
  ws := h.ws

def PhaseInv (f : Flight) : Prop := ∀ k c, f.conns k = some c → PhaseConn c

/-- Every move keeps the phases. -/
theorem Micro.phaseInv {f f' : Flight} {l : Label} (hm : Micro f l f') (h : PhaseInv f) :
    PhaseInv f' := by
  have hset : ∀ {j : ConnId} {v : Option Conn}, (∀ c, v = some c → PhaseConn c) →
      ∀ k c, Function.update f.conns j v k = some c → PhaseConn c := by
    intro j v hv k c hc
    rcases update_some_cases hc with ⟨-, hc⟩ | ⟨-, hc⟩
    · exact hv c hc
    · exact h k c hc
  cases hm with
  | tune k c c' hc hk =>
      refine hset fun d hd => ?_
      cases hd
      exact (h k c hc).keeps hk
  | release k s c hc | letgo k s c hc =>
      refine hset fun d hd => ?_
      cases hd
      exact (h k c hc).release
  | close | notice => exact hset fun d hd => by cases hd
  | alloc k ct c c' slot slots t t' type payload hc hidle ha hopen =>
      refine hset fun d hd => ?_
      cases hd
      refine ⟨fun hst => absurd hst hopen.left, fun hwait => ?_, hopen.entered⟩
      rw [hopen.waitCtrl] at hwait
      cases hwait
  | accept c hc hst =>
      refine hset fun d hd => ?_
      cases hd
      exact ⟨fun _ => hc, fun _ => hc, fun hws => absurd hws hst⟩
  | _ => exact h

-- ============================================================================
-- Along sequences of moves
-- ============================================================================

/-- The invariants that hold whatever happens. -/
structure Inv (f : Flight) : Prop where
  slots : SlotInv f
  ctrls : CtrlInv f
  issued : IssueInv f
  phase : PhaseInv f

theorem Micro.inv {f f' : Flight} {l : Label} (hm : Micro f l f') (h : Inv f) : Inv f' :=
  ⟨hm.slotInv h.slots, hm.ctrlInv h.ctrls, hm.issueInv h.slots h.issued, hm.phaseInv h.phase⟩

theorem Moves.inv {P : Label → Prop} {f f' : Flight} (hm : Moves P f f') (h : Inv f) : Inv f' :=
  hm.keep (I := Inv) (fun _ hmic hi => hmic.inv hi) h

theorem Moves.ctrlInv {P : Label → Prop} {f f' : Flight} (hm : Moves P f f') (h : CtrlInv f) :
    CtrlInv f' :=
  hm.keep (I := CtrlInv) (fun _ hmic hi => hmic.ctrlInv hi) h

theorem Moves.waitInv {P : Label → Prop} {f f' : Flight} (hm : Moves P f f')
    (hP : ∀ ct, ¬ P (.drop false ct)) (h : Inv f) (hw : WaitInv f) : WaitInv f' := by
  have hboth : Inv f' ∧ WaitInv f' :=
    hm.keep (I := fun x => Inv x ∧ WaitInv x)
      (fun {a b l} hl hmic hx => ⟨hmic.inv hx.1,
        hmic.waitInv (fun ct hct => hP ct (hct ▸ hl)) hx.1.slots hx.2⟩) ⟨h, hw⟩
  exact hboth.2

end Naitron
