/-
  Naitron.Server.CtrlEffects

  The functions of Naitron.Server.Controller and Naitron.Server.Control as
  moves.

  Failing the requests that wait on a controller touches those connections
  only, and leaves none that waits on it (`failInflight_idle`), so the death
  or reload of a controller is the drop of an idle one.  The frame loop
  touches the connections its frames reach, all of them determined by the
  state before the loop.
-/

import Naitron.Server.Output

namespace Naitron

variable (E : Ext)

/-- A stored request of connection `k` waits on the controller. -/
def WaitsOn (f : Flight) (k : ConnId) (ct : CtrlId) : Prop :=
  ∃ s c, f.slots.pending s = some k ∧ f.conns k = some c ∧ c.waitCtrl = some ct

/-- Moves on connections that wait on a controller in `f`. -/
def WaitOwn (f : Flight) (ct : CtrlId) (l : Label) : Prop :=
  ∃ k, WaitsOn f k ct ∧ Reach True k l

/-- Connections never start to wait on a controller along shrinking moves. -/
theorem WaitOwn.pull {P : Label → Prop} {f f' : Flight} {ct : CtrlId} {l : Label}
    (h : WaitOwn f' ct l) (hm : Moves P f f') (hP : ∀ l, P l → l.shrinks) : WaitOwn f ct l := by
  obtain ⟨k, ⟨s, c', hs, hc', hw⟩, hl⟩ := h
  obtain ⟨c, hc, heq⟩ := Moves.waitCtrl_shrinks hm hP hc'
  exact ⟨k, ⟨s, c, (Moves.pending_shrinks hm hP hs).1, hc, heq ▸ hw⟩, hl⟩

theorem WaitOwn.shrinks {f : Flight} {ct : CtrlId} {l : Label} (h : WaitOwn f ct l) :
    l.shrinks := by
  obtain ⟨k, -, hl⟩ := h
  exact hl.shrinks

/-- The replicas of every service are as before. -/
theorem WaitOwn.slotAt {f f' f₀ : Flight} {ct : CtrlId} (h : Moves (WaitOwn f₀ ct) f f')
    {i s : Nat} : slotAt f' i s = slotAt f i s := by
  have hsame : f'.services = f.services := h.keep (I := fun x => x.services = f.services)
    (fun ⟨_, _, hl⟩ hm hs => (hm.reach_services hl).trans hs) rfl
  simp only [Naitron.slotAt, hsame]

-- ============================================================================
-- Failing the waiting requests
-- ============================================================================

/-- One turn of the loop touches the connection stored in its slot only. -/
theorem failSlot_slot_moves (ct : CtrlId) (body : Bytes) (g : Gateway) (i : Nat) :
    Moves (fun l => ∃ k, WaitsOn g.toFlight k ct ∧ g.slots.pending i = some k ∧ Reach True k l)
      g.toFlight (failSlot E ct body g i).toFlight := by
  unfold failSlot
  split
  · exact .refl _
  · rename_i k hk
    split
    · exact .refl _
    · rename_i c hc
      split
      · exact .refl _
      · rename_i hw
        have hwaits : WaitsOn g.toFlight k ct := ⟨i, c, hk, hc, by simpa using hw⟩
        have hrel := releaseSlot_moves hc (Or.inl hk)
        dsimp only
        split
        · exact (hrel.trans (own_reach (connClose_moves E _ k))).mono
            fun l hl => ⟨k, hwaits, hk, hl⟩
        · exact (hrel.trans (own_reach (respondAndFlush_moves E _ k _ _))).mono
            fun l hl => ⟨k, hwaits, hk, hl⟩

theorem failSlot_moves (ct : CtrlId) (body : Bytes) (g : Gateway) (i : Nat) :
    Moves (WaitOwn g.toFlight ct) g.toFlight (failSlot E ct body g i).toFlight :=
  (failSlot_slot_moves E ct body g i).mono fun _ ⟨k, hwaits, _, hl⟩ => ⟨k, hwaits, hl⟩

/-- No request in slot `i` waits on the controller. -/
def slotIdle (f : Flight) (ct : CtrlId) (i : Nat) : Prop :=
  ∀ k c, f.slots.pending i = some k → f.conns k = some c → c.waitCtrl ≠ some ct

theorem slotIdle_shrinks {P : Label → Prop} {f f' : Flight} {ct : CtrlId} {i : Nat}
    (h : slotIdle f ct i) (hm : Moves P f f') (hP : ∀ l, P l → l.shrinks) : slotIdle f' ct i := by
  intro k c' hk hc'
  obtain ⟨c, hc, heq⟩ := Moves.waitCtrl_shrinks hm hP hc'
  rw [heq]
  exact h k c (Moves.pending_shrinks hm hP hk).1 hc

theorem failSlot_idle (ct : CtrlId) (body : Bytes) (g : Gateway) (i : Nat) :
    slotIdle (failSlot E ct body g i).toFlight ct i := by
  unfold failSlot
  split
  · rename_i hnone
    intro k c hk
    rw [hnone] at hk
    cases hk
  · rename_i k hk
    split
    · rename_i hnone
      intro j c hj hc
      rw [hk] at hj
      cases hj
      rw [hnone] at hc
      cases hc
    · rename_i c hc
      split
      · rename_i hw
        intro j d hj hd
        rw [hk] at hj
        cases hj
        rw [hc] at hd
        cases hd
        exact hw
      · -- the slot was freed, and stays free
        have hfreed : slotIdle (releaseSlot g k i).toFlight ct i := by
          intro j d hj
          simp [releaseSlot, gwFreeSlot, Gateway.modConn, hc, Lib.GenTable.free] at hj
        dsimp only
        split
        · exact slotIdle_shrinks hfreed (connClose_moves E _ k) fun l hl => hl.shrinks
        · exact slotIdle_shrinks hfreed (respondAndFlush_moves E _ k _ _) fun l hl => hl.shrinks

theorem failLoop_moves (ct : CtrlId) (body : Bytes) (g : Gateway) (xs : List Nat) :
    Moves (WaitOwn g.toFlight ct) g.toFlight (xs.foldl (failSlot E ct body) g).toFlight := by
  refine (Lib.Steps.foldl Gateway.toFlight
    (I := fun x => Moves (WaitOwn g.toFlight ct) g.toFlight x.toFlight) xs g (.refl _) ?_).1
  intro a ha x _
  have hstep : Moves (WaitOwn g.toFlight ct) a.toFlight (failSlot E ct body a x).toFlight :=
    (failSlot_moves E ct body a x).mono fun l hl => hl.pull ha fun l hl => hl.shrinks
  exact ⟨hstep, ha.trans hstep⟩

theorem failLoop_idle (ct : CtrlId) (body : Bytes) :
    ∀ (xs : List Nat) (g : Gateway), ∀ i ∈ xs,
      slotIdle (xs.foldl (failSlot E ct body) g).toFlight ct i := by
  intro xs
  induction xs with
  | nil =>
      intro g i hi
      cases hi
  | cons x xs ih =>
      intro g i hi
      rw [List.foldl_cons]
      rcases List.mem_cons.mp hi with rfl | hi
      · exact slotIdle_shrinks (failSlot_idle E ct body g i)
          (failLoop_moves E ct body (failSlot E ct body g i) xs) fun l hl => hl.shrinks
      · exact ih (failSlot E ct body g x) i hi

theorem failInflight_moves (ct : CtrlId) (body : Bytes) (g : Gateway) :
    Moves (WaitOwn g.toFlight ct) g.toFlight (failInflight E ct body g).toFlight := by
  rw [failInflight]
  exact failLoop_moves E ct body g (List.range ntcMaxInflight)

/-- After the loop no stored request waits on the controller. -/
theorem failInflight_idle (ct : CtrlId) (body : Bytes) {g : Gateway} (h : Inv g.toFlight) :
    ¬ Waits (failInflight E ct body g).toFlight ct := by
  rintro ⟨s, k, c, hs, hc, hw⟩
  have hinv := Moves.inv (failInflight_moves E ct body g) h
  have hlt : s < ntcMaxInflight := hinv.slots.wf.lt_of_pending hs
  have hidle := failLoop_idle E ct body (List.range ntcMaxInflight) g s (List.mem_range.mpr hlt)
  rw [failInflight] at hs hc
  exact hidle k c hs hc hw

-- ============================================================================
-- The service table
-- ============================================================================

/-- The controllers of a changed service table. -/
theorem slotAt_modify (f : Flight) (i : Nat) (F : Service → Service) (i' s : Nat) :
    slotAt { f with services := f.services.modify i F } i' s =
      if i' = i then (f.services[i']?).bind fun svc => (F svc).conns s else slotAt f i' s := by
  simp only [slotAt, List.getElem?_modify]
  by_cases hi : i' = i
  · subst hi
    cases f.services[i']? <;> simp
  · have hi' : i ≠ i' := fun h => hi h.symm
    simp [hi, hi']

theorem modService_svc_moves {g : Gateway} {i : Nat} {F : Service → Service}
    (hF : ∀ svc, (F svc).conns = svc.conns) :
    Moves (· = .svc) g.toFlight (g.modService i F).toFlight := by
  refine .one (.svc _ ?_) rfl
  intro i' s
  rw [slotAt_modify]
  split
  · simp only [hF, slotAt]
  · rfl

/-- Emptying the entry of a controller and dropping it. -/
theorem drop_moves {g : Gateway} (h : CtrlInv g.toFlight) {i s : Nat} {ct : CtrlId}
    {F : Service → Service} {idle : Bool} (hct : slotAt g.toFlight i s = some ct)
    (hidle : idle = true → ¬ Waits g.toFlight ct)
    (hF : ∀ svc, g.services[i]? = some svc → (F svc).conns = Function.update svc.conns s none) :
    Moves (· = .drop idle ct) g.toFlight (dropCtrl (g.modService i F) ct).toFlight := by
  refine .one (.drop idle ct (g.services.modify i F) hidle ?_) rfl
  intro i' s' ct'
  rw [slotAt_modify]
  have hother : slotAt g.toFlight i' s' = some ct → i' = i ∧ s' = s := fun hx => h.unique hct hx
  by_cases hi : i' = i
  · subst hi
    rw [if_pos rfl]
    cases hsvc : g.services[i']? with
    | none =>
        rw [slotAt, hsvc] at hct
        cases hct
    | some svc =>
        have hat : ∀ x, slotAt g.toFlight i' x = svc.conns x := fun x => by simp [slotAt, hsvc]
        rw [Option.bind_some, hF svc hsvc, hat]
        by_cases hs : s' = s
        · subst hs
          rw [Function.update_self, ← hat, hct]
          constructor
          · intro hx
            cases hx
          · rintro ⟨hx, hne⟩
            exact absurd (Option.some.inj hx).symm hne
        · rw [Function.update_of_ne hs]
          constructor
          · intro hx
            refine ⟨hx, ?_⟩
            rintro rfl
            exact hs (hother (by rw [hat]; exact hx)).2
          · exact fun hx => hx.1
  · rw [if_neg hi]
    constructor
    · intro hx
      refine ⟨hx, ?_⟩
      rintro rfl
      exact hi (hother hx).1
    · exact fun hx => hx.1

-- ============================================================================
-- Death
-- ============================================================================

/-- A controller's own entry is the one `svc_slot_of` finds. -/
theorem svcSlotOf_placed {f : Flight} (h : CtrlInv f) {ct : CtrlId} {i s : Nat} {svc : Service}
    (hplace : slotAt f i s = some ct) (hsvc : f.services[i]? = some svc) :
    svcSlotOf svc ct = some s := by
  obtain ⟨t, ht, -, hslot⟩ := h.owner i s ct hplace
  have hlt : s < ntcMaxReplicas := hslot ▸ (h.placed ct t ht).2
  have hat : ∀ x, slotAt f i x = svc.conns x := fun x => by simp [slotAt, hsvc]
  have hsome : (svcSlotOf svc ct).isSome := by
    rw [svcSlotOf, List.find?_isSome]
    exact ⟨s, List.mem_range.mpr hlt, by rw [← hat, hplace]; simp⟩
  obtain ⟨x, hx⟩ := Option.isSome_iff_exists.mp hsome
  have hxct : svc.conns x = some ct := by
    have := List.find?_some (p := fun i => svc.conns i == some ct) hx
    simpa using this
  have hxs : x = s := (h.unique hplace ((hat x).trans hxct)).2
  rw [hx, hxs]

theorem buryCtrl_moves {g : Gateway} (h : CtrlInv g.toFlight) {ct : CtrlId} {i s : Nat}
    (hplace : slotAt g.toFlight i s = some ct) (hidle : ¬ Waits g.toFlight ct) :
    Moves (· = .drop true ct) g.toFlight (buryCtrl E g i ct).toFlight := by
  refine drop_moves (g := (g.ask E).2) h hplace (fun _ => hidle) ?_
  intro svc hsvc
  rw [noteDeath, svcSlotOf_placed h hplace hsvc]
  rfl

theorem controllerDied_moves {g : Gateway} (h : Inv g.toFlight) (ct : CtrlId) :
    Moves (fun l => WaitOwn g.toFlight ct l ∨ l = .drop true ct) g.toFlight
      (controllerDied E g ct).toFlight := by
  unfold controllerDied
  split
  · exact .refl _
  · rename_i t ht
    have hfail := failInflight_moves E ct (lit "\x7b\"error\":\"controller died\"\x7d") g
    have hplace := (h.ctrls.placed ct t ht).1
    rw [← WaitOwn.slotAt hfail] at hplace
    exact (hfail.mono fun l hl => Or.inl hl).trans
      ((buryCtrl_moves E (Moves.inv hfail h).ctrls hplace (failInflight_idle E _ _ h)).mono
        fun l hl => Or.inr hl)

-- ============================================================================
-- The frame loop
-- ============================================================================

/-- Whether one of the frames has an effect on a connection. -/
def framesTouch (f : Flight) (fs : List WireFrame) (k : ConnId) : Prop :=
  ∃ x ∈ fs, gwConnForId f x.hdr.requestId = some k ∧
    ∃ c, f.conns k = some c ∧ frameReaches c x = true

/-- Whether one of the frames frees the slot of a connection. -/
def framesRelease (f : Flight) (fs : List WireFrame) (k : ConnId) : Prop :=
  ∃ x ∈ fs, gwConnForId f x.hdr.requestId = some k ∧ frameReleases x = true

/-- Moves on the connections that the frames have an effect on. -/
def FrameOwn (f : Flight) (fs : List WireFrame) (l : Label) : Prop :=
  ∃ k, framesTouch f fs k ∧ Reach (framesRelease f fs k) k l

/-- What the frame loop does. -/
def LoopOwn (f : Flight) (ct : CtrlId) (fs : List WireFrame) (l : Label) : Prop :=
  l = .read ct ∨ FrameOwn f fs l

theorem LoopOwn.shrinks {f : Flight} {ct : CtrlId} {fs : List WireFrame} {l : Label}
    (h : LoopOwn f ct fs l) : l.shrinks := by
  obtain rfl | ⟨k, -, hl⟩ := h
  · trivial
  · exact hl.shrinks

/-- Along shrinking moves an id that resolves has resolved all the time. -/
theorem gwConnForId_shrinks {P : Label → Prop} {f f' : Flight} {id : Nat} {k : ConnId}
    (hm : Moves P f f') (hP : ∀ l, P l → l.shrinks) (h : gwConnForId f' id = some k) :
    gwConnForId f id = some k := by
  obtain ⟨hpend, hgen⟩ := gwConnForId_some h
  obtain ⟨hpend', hgen'⟩ := Moves.pending_shrinks hm hP hpend
  rw [gwConnForId, hpend']
  simp only [← hgen', hgen, if_true]

/-- A frame met in the course of the loop reaches no connection that the loop
    would not touch anyway: up to the first effect on a connection, it is as
    it was before the loop. -/
theorem framesTouch_pull {f f' : Flight} {ct : CtrlId} {fs : List WireFrame} {x : WireFrame}
    {k : ConnId} {c : Conn} (hm : Moves (LoopOwn f ct fs) f f') (hx : x ∈ fs)
    (hid : gwConnForId f' x.hdr.requestId = some k) (hc : f'.conns k = some c)
    (hr : frameReaches c x = true) : framesTouch f fs k := by
  by_contra hno
  have hsame : SameConn k f f' := by
    refine Moves.sameConn hm ?_
    rintro l (rfl | ⟨j, hj, hl⟩) hk
    · cases hk
    · exact hno (hl.conn_eq hk ▸ hj)
  exact hno ⟨x, hx, gwConnForId_shrinks hm (fun l hl => hl.shrinks) hid, c, hsame.1 ▸ hc, hr⟩

theorem deliverFrame_moves {g : Gateway} (h : SlotInv g.toFlight) (ct : CtrlId) (x : WireFrame) :
    Moves (fun l => l = .read ct ∨ ∃ k c, gwConnForId g.toFlight x.hdr.requestId = some k ∧
        g.conns k = some c ∧ frameReaches c x = true ∧ Reach (frameReleases x = true) k l)
      g.toFlight (deliverFrame E ct g x).toFlight := by
  refine ((dispatchFrame_moves E h x).mono fun l hl => Or.inr hl).trans ?_
  exact .one (.deliver ct _) (Or.inl rfl)

/-- The frames of one event touch the connections they reach in the state
    before the loop. -/
theorem frameLoop_moves {g : Gateway} (h : Inv g.toFlight) (ct : CtrlId) (fs : List WireFrame) :
    Moves (LoopOwn g.toFlight ct fs) g.toFlight (fs.foldl (deliverFrame E ct) g).toFlight := by
  refine (Lib.Steps.foldl Gateway.toFlight
    (I := fun x => Moves (LoopOwn g.toFlight ct fs) g.toFlight x.toFlight) fs g (.refl _) ?_).1
  intro a ha x hx
  have hstep : Moves (LoopOwn g.toFlight ct fs) a.toFlight (deliverFrame E ct a x).toFlight := by
    refine (deliverFrame_moves E (Moves.inv ha h).slots ct x).mono ?_
    rintro l (rfl | ⟨k, c, hid, hc, hr, hl⟩)
    · exact Or.inl rfl
    · refine Or.inr ⟨k, framesTouch_pull ha hx hid hc hr, hl.imp_right ?_⟩
      exact fun ⟨hrel, hl⟩ =>
        ⟨⟨x, hx, gwConnForId_shrinks ha (fun l hl => hl.shrinks) hid, hrel⟩, hl⟩
  exact ⟨hstep, ha.trans hstep⟩

-- ============================================================================
-- Controller events
-- ============================================================================

/-- The frames an event of a controller dispatches: none when the `recv` loop
    gives up on the controller. -/
def framesRead (t : Ctrl) (rs : List RecvResult) : List WireFrame :=
  if (ctrlRecv rs t.rbuf).1 then [] else framesIn (ctrlRecv rs t.rbuf).2

/-- Whether reading ends with the death of the controller. -/
def readKills (t : Ctrl) (rs : List RecvResult) : Bool :=
  (ctrlRecv rs t.rbuf).1 ||
    (scanFrames (ctrlRecv rs t.rbuf).2.length (ctrlRecv rs t.rbuf).2).2.1 == .bad

/-- What the death of a controller does. -/
def DeathOwn (f : Flight) (ct : CtrlId) (l : Label) : Prop :=
  WaitOwn f ct l ∨ l = .drop true ct

theorem DeathOwn.pull {P : Label → Prop} {f f' : Flight} {ct : CtrlId} {l : Label}
    (h : DeathOwn f' ct l) (hm : Moves P f f') (hP : ∀ l, P l → l.shrinks) : DeathOwn f ct l :=
  h.imp (fun hw => hw.pull hm hP) id

theorem modCtrl_rbuf_moves (g : Gateway) (ct : CtrlId) (buf : Bytes) :
    Moves (· = .read ct) g.toFlight
      (g.modCtrl ct fun t => { t with rbuf := buf }).toFlight := by
  rw [Gateway.modCtrl]
  cases ht : g.ctrls ct with
  | none => exact .refl _
  | some t => exact .one (.fill ct t buf ht) rfl

theorem fillCtrl_moves (g : Gateway) (ct : CtrlId) (t : Ctrl) (buf : Bytes) :
    Moves (· = .read ct) g.toFlight (fillCtrl g ct t buf).toFlight :=
  (modCtrl_rbuf_moves g ct buf).trans (.one (.receive ct _) rfl)

theorem readFrames_moves {g : Gateway} (h : Inv g.toFlight) (ct : CtrlId) (buf : Bytes) :
    Moves (fun l => LoopOwn g.toFlight ct (framesIn buf) l ∨
        ((scanFrames buf.length buf).2.1 == .bad) = true ∧ DeathOwn g.toFlight ct l)
      g.toFlight (readFrames E g ct buf).2.toFlight := by
  have hloop := frameLoop_moves E h ct (framesIn buf)
  unfold readFrames
  dsimp only
  refine (hloop.mono fun l hl => Or.inl hl).trans ?_
  split
  · rename_i hbad
    refine (controllerDied_moves E (Moves.inv hloop h) ct).mono fun l hl => Or.inr ⟨?_, ?_⟩
    · rw [hbad]
      rfl
    · exact DeathOwn.pull hl hloop fun l hl => hl.shrinks
  · exact (modCtrl_rbuf_moves _ ct _).mono fun l hl => Or.inl (Or.inl hl)

/-- Reading from a controller touches the controller itself, the connections
    its frames reach, and, when it dies, those that wait on it. -/
theorem onCtrlReadable_moves {g : Gateway} (h : Inv g.toFlight) {ct : CtrlId} {t : Ctrl}
    (ht : g.ctrls ct = some t) (rs : List RecvResult) :
    Moves (fun l => LoopOwn g.toFlight ct (framesRead t rs) l ∨
        readKills t rs = true ∧ DeathOwn g.toFlight ct l)
      g.toFlight (onCtrlReadable E g ct rs).2.toFlight := by
  have hfill := fillCtrl_moves g ct t (ctrlRecv rs t.rbuf).2
  have hinv := Moves.inv hfill h
  have hread : ∀ l : Label, l = .read ct → l.shrinks := by
    rintro l rfl
    trivial
  unfold onCtrlReadable
  rw [ht]
  dsimp only
  refine (hfill.mono fun l hl => Or.inl (Or.inl hl)).trans ?_
  split
  · rename_i hgave
    refine (controllerDied_moves E hinv ct).mono fun l hl => Or.inr ⟨?_, ?_⟩
    · simp [readKills, hgave]
    · exact DeathOwn.pull hl hfill hread
  · rename_i hgave
    refine (readFrames_moves E hinv ct _).mono ?_
    rintro l (hl | ⟨hbad, hl⟩)
    · left
      have hconns : (fillCtrl g ct t (ctrlRecv rs t.rbuf).2).conns = g.conns ∧
          (fillCtrl g ct t (ctrlRecv rs t.rbuf).2).slots = g.slots := by
        simp [fillCtrl, Gateway.modCtrl, ht]
      simpa [LoopOwn, FrameOwn, framesTouch, framesRelease, framesRead, gwConnForId, hgave,
        hconns] using hl
    · right
      refine ⟨by simp only [readKills, hbad, Bool.or_true], DeathOwn.pull hl hfill hread⟩

theorem onCtrlReadable_dead {g : Gateway} {ct : CtrlId} (ht : g.ctrls ct = none)
    (rs : List RecvResult) : onCtrlReadable E g ct rs = (.neg, g) := by
  rw [onCtrlReadable, ht]

theorem onCtrlWritable_moves {g : Gateway} (h : Inv g.toFlight) (ct : CtrlId)
    (ss : List SendResult) :
    Moves (fun l => l = .queue ct ∨ SendResult.error ∈ ss ∧ DeathOwn g.toFlight ct l)
      g.toFlight (onCtrlWritable E g ct ss).toFlight := by
  unfold onCtrlWritable
  split
  · exact .refl _
  · rename_i t _
    have hwrite := write_moves g ct
      (slicePart t.wbuf t.wsent (sendLoop t.wbuf.length ss t.wsent).2)
    dsimp only
    refine (hwrite.mono fun l hl => Or.inl hl).trans ?_
    split
    · rename_i hfail
      refine (controllerDied_moves E (Moves.inv hwrite h) ct).mono fun l hl =>
        Or.inr ⟨sendLoop_failed hfail, DeathOwn.pull hl hwrite ?_⟩
      rintro l rfl
      trivial
    · refine Lib.Steps.mono (modCtrl_queue_moves ?_) fun l hl => Or.inl hl
      exact fun t => ⟨rfl, rfl, rfl⟩
    · refine Lib.Steps.mono (modCtrl_queue_moves ?_) fun l hl => Or.inl hl
      exact fun t => ⟨rfl, rfl, rfl⟩

end Naitron
