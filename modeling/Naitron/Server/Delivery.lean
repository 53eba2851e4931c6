/-
  Naitron.Server.Delivery

  Frames received from a controller and frames dispatched.

  Between events, what a controller has sent is scanned as far as possible:
  its complete frames are the ones dispatched, and the rest is its buffer
  (`ReadInv`).  An event keeps this unless the `recv` loop gives up on the
  controller (end of file, error, buffer bound) with complete frames in the
  buffer: those are dropped.
-/

import Naitron.Server.Isolation

namespace Naitron

variable (E : Ext)

/-- What a live controller has sent is cut into the frames dispatched and its
    buffer. -/
def LiveRead (f : Flight) (ct : CtrlId) : Prop :=
  ∀ t, f.ctrls ct = some t →
    scanFrames (f.received ct).length (f.received ct) = (f.delivered ct, .needMore, t.rbuf)

/-- The complete frames received from a controller have been dispatched, and
    the buffer of a live one is what the scan left over. -/
structure ReadInv (f : Flight) (ct : CtrlId) : Prop where
  delivered : framesIn (f.received ct) = f.delivered ct
  buffered : ∀ t, f.ctrls ct = some t →
    scanFrames (f.received ct).length (f.received ct) = (f.delivered ct, .needMore, t.rbuf)

-- ============================================================================
-- Moves that read nothing from a controller
-- ============================================================================

/-- The read side of a controller is as before, or the controller is gone. -/
structure SameRead (ct : CtrlId) (f f' : Flight) : Prop where
  received : f'.received ct = f.received ct
  delivered : f'.delivered ct = f.delivered ct
  rbuf : ∀ t', f'.ctrls ct = some t' → ∃ t, f.ctrls ct = some t ∧ t'.rbuf = t.rbuf

theorem SameRead.refl (ct : CtrlId) (f : Flight) : SameRead ct f f :=
  ⟨rfl, rfl, fun t ht => ⟨t, ht, rfl⟩⟩

theorem SameRead.trans {ct : CtrlId} {f f' f'' : Flight} (h : SameRead ct f f')
    (h' : SameRead ct f' f'') : SameRead ct f f'' := by
  refine ⟨h'.received.trans h.received, h'.delivered.trans h.delivered, fun t'' ht'' => ?_⟩
  obtain ⟨t', ht', heq'⟩ := h'.rbuf t'' ht''
  obtain ⟨t, ht, heq⟩ := h.rbuf t' ht'
  exact ⟨t, ht, heq'.trans heq⟩

theorem SameRead.liveRead {ct : CtrlId} {f f' : Flight} (h : SameRead ct f f')
    (hr : LiveRead f ct) : LiveRead f' ct := by
  intro t' ht'
  obtain ⟨t, ht, heq⟩ := h.rbuf t' ht'
  rw [h.received, h.delivered, heq]
  exact hr t ht

theorem SameRead.readInv {ct : CtrlId} {f f' : Flight} (h : SameRead ct f f')
    (hr : ReadInv f ct) : ReadInv f' ct :=
  ⟨by rw [h.received, h.delivered]; exact hr.delivered, h.liveRead hr.buffered⟩

/-- The write side of a controller changes. -/
theorem SameRead.queue {ct j : CtrlId} {f f' : Flight} {t t' : Ctrl} (ht : f.ctrls j = some t)
    (hk : KeepsCtrl t t') (hrec : f'.received ct = f.received ct)
    (hdel : f'.delivered ct = f.delivered ct)
    (hctrls : f'.ctrls = Function.update f.ctrls j (some t')) : SameRead ct f f' := by
  refine ⟨hrec, hdel, fun u hu => ?_⟩
  rw [hctrls] at hu
  rcases update_some_cases hu with ⟨rfl, hv⟩ | ⟨-, hu⟩
  · cases hv
    exact ⟨t, ht, hk.rbuf⟩
  · exact ⟨u, hu, rfl⟩

theorem Micro.sameRead {f f' : Flight} {l : Label} {ct : CtrlId} (hm : Micro f l f')
    (hread : l ≠ .read ct) (hspawn : l ≠ .spawn ct) : SameRead ct f f' := by
  cases hm with
  | queue j t t' ht hk => exact .queue ht hk rfl rfl rfl
  | relay k j c t t' payload _ _ _ _ ht hk => exact .queue ht hk rfl rfl rfl
  | notice k j c t t' payload _ _ _ _ ht hk => exact .queue ht hk rfl rfl rfl
  | alloc k j c c' slot slots t t' type payload _ _ _ _ _ _ ht hk => exact .queue ht hk rfl rfl rfl
  | fill j t rbuf ht =>
      have hj : ct ≠ j := fun hj => hread (by rw [hj])
      refine ⟨rfl, rfl, fun u hu => ⟨u, ?_, rfl⟩⟩
      simpa only [Function.update_of_ne hj] using hu
  | receive j bs =>
      have hj : ct ≠ j := fun hj => hread (by rw [hj])
      exact ⟨Function.update_of_ne hj _ _, rfl, fun u hu => ⟨u, hu, rfl⟩⟩
  | deliver j fs =>
      have hj : ct ≠ j := fun hj => hread (by rw [hj])
      exact ⟨rfl, Function.update_of_ne hj _ _, fun u hu => ⟨u, hu, rfl⟩⟩
  | spawn i s services =>
      have hj : ct ≠ f.nctrl := fun hj => hspawn (by rw [hj])
      refine ⟨Function.update_of_ne hj _ _, Function.update_of_ne hj _ _, fun u hu => ⟨u, ?_, rfl⟩⟩
      simpa only [Function.update_of_ne hj] using hu
  | drop idle j services =>
      refine ⟨rfl, rfl, fun u hu => ?_⟩
      rcases update_some_cases hu with ⟨-, hv⟩ | ⟨-, hu⟩
      · cases hv
      · exact ⟨u, hu, rfl⟩
  | _ => exact ⟨rfl, rfl, fun u hu => ⟨u, hu, rfl⟩⟩

theorem Moves.sameRead {P : Label → Prop} {f f' : Flight} {ct : CtrlId} (hm : Moves P f f')
    (hP : ∀ l, P l → l ≠ .read ct ∧ l ≠ .spawn ct) : SameRead ct f f' :=
  hm.keep (I := fun x => SameRead ct f x)
    (fun hl hmic hs => hs.trans (hmic.sameRead (hP _ hl).1 (hP _ hl).2)) (.refl ct f)

/-- A new controller has sent nothing yet. -/
theorem Micro.liveRead {f f' : Flight} {l : Label} {ct : CtrlId} (hm : Micro f l f')
    (hread : l ≠ .read ct) (h : LiveRead f ct) : LiveRead f' ct := by
  by_cases hspawn : l = .spawn ct
  · subst hspawn
    cases hm with
    | spawn i s services =>
        intro t ht
        simp only [Function.update_self, Option.some.injEq] at ht ⊢
        rw [← ht]
        rfl
  · exact (hm.sameRead hread hspawn).liveRead h

theorem Micro.readInv {f f' : Flight} {l : Label} {ct : CtrlId} (hm : Micro f l f')
    (hread : l ≠ .read ct) (h : ReadInv f ct) : ReadInv f' ct := by
  refine ⟨?_, hm.liveRead hread h.buffered⟩
  by_cases hspawn : l = .spawn ct
  · subst hspawn
    cases hm with
    | spawn i s services => simp [framesIn, scanFrames]
  · exact ((hm.sameRead hread hspawn).readInv h).delivered

theorem Own.ne_read {k : ConnId} {l : Label} (h : Own k l) (ct : CtrlId) :
    l ≠ .read ct ∧ l ≠ .spawn ct := by
  constructor <;> (rintro rfl; cases h)

theorem Reach.ne_read {may : Prop} {k : ConnId} {l : Label} (h : Reach may k l) (ct : CtrlId) :
    l ≠ .read ct ∧ l ≠ .spawn ct := by
  obtain h | ⟨-, rfl⟩ := h
  · exact h.ne_read ct
  · constructor <;> (intro hl; cases hl)

theorem DeathOwn.ne_read {f : Flight} {ct : CtrlId} {l : Label} (h : DeathOwn f ct l)
    (ct' : CtrlId) : l ≠ .read ct' ∧ l ≠ .spawn ct' := by
  obtain ⟨k, -, hl⟩ | rfl := h
  · exact hl.ne_read ct'
  · constructor <;> (intro hl; cases hl)

-- ============================================================================
-- Reading
-- ============================================================================

/-- The `recv` loop appends to the buffer. -/
theorem ctrlRecv_append :
    ∀ (rs : List RecvResult) (buf : Bytes), ∃ more, (ctrlRecv rs buf).2 = buf ++ more := by
  intro rs
  induction rs with
  | nil => exact fun buf => ⟨[], (List.append_nil buf).symm⟩
  | cons r rs ih =>
      intro buf
      cases r with
      | data b bs =>
          simp only [ctrlRecv]
          split
          · exact ⟨b :: bs, rfl⟩
          · obtain ⟨more, hmore⟩ := ih (buf ++ b :: bs)
            exact ⟨b :: bs ++ more, by rw [hmore, List.append_assoc]⟩
      | eintr => exact ih buf
      | eof | eagain | error => exact ⟨[], (List.append_nil buf).symm⟩

theorem fillCtrl_read {g : Gateway} {ct : CtrlId} {t : Ctrl} (ht : g.ctrls ct = some t)
    (more : Bytes) :
    (fillCtrl g ct t (t.rbuf ++ more)).received ct = g.received ct ++ more ∧
      (fillCtrl g ct t (t.rbuf ++ more)).delivered = g.delivered ∧
      (fillCtrl g ct t (t.rbuf ++ more)).ctrls ct = some { t with rbuf := t.rbuf ++ more } := by
  simp [fillCtrl, Gateway.modCtrl, ht]

theorem controllerDied_read {g : Gateway} (h : Inv g.toFlight) (ct : CtrlId) :
    SameRead ct g.toFlight (controllerDied E g ct).toFlight :=
  Moves.sameRead (controllerDied_moves E h ct) fun _ hl => DeathOwn.ne_read hl ct

theorem buryCtrl_gone (g : Gateway) (i : Nat) (ct : CtrlId) : (buryCtrl E g i ct).ctrls ct = none :=
  Function.update_self _ _ _

theorem controllerDied_gone (g : Gateway) (ct : CtrlId) :
    (controllerDied E g ct).ctrls ct = none := by
  unfold controllerDied
  split
  · assumption
  · exact buryCtrl_gone E _ _ ct

theorem deliverFrame_read {g : Gateway} (h : Inv g.toFlight) (ct : CtrlId) (x : WireFrame) :
    (deliverFrame E ct g x).received ct = g.received ct ∧
      (deliverFrame E ct g x).delivered ct = g.delivered ct ++ [x] := by
  have hsame : SameRead ct g.toFlight (dispatchFrame E g x).toFlight :=
    Moves.sameRead (dispatchFrame_moves E h.slots x)
      fun l ⟨_, _, _, _, _, hl⟩ => hl.ne_read ct
  refine ⟨hsame.received, ?_⟩
  simp only [deliverFrame, Function.update_self]
  rw [hsame.delivered]

/-- The frame loop dispatches its frames in order. -/
theorem frameLoop_read (ct : CtrlId) :
    ∀ (fs : List WireFrame) {g : Gateway}, Inv g.toFlight →
      (fs.foldl (deliverFrame E ct) g).received ct = g.received ct ∧
        (fs.foldl (deliverFrame E ct) g).delivered ct = g.delivered ct ++ fs := by
  intro fs
  induction fs with
  | nil => exact fun _ => ⟨rfl, (List.append_nil _).symm⟩
  | cons x fs ih =>
      intro g h
      have hx := deliverFrame_read E h ct x
      have hinv := Moves.inv (deliverFrame_moves E h.slots ct x) h
      obtain ⟨hrec, hdel⟩ := ih hinv
      rw [List.foldl_cons]
      refine ⟨hrec.trans hx.1, ?_⟩
      rw [hdel, hx.2, List.append_assoc, List.singleton_append]

theorem modCtrl_rbuf_read (g : Gateway) (ct : CtrlId) (buf : Bytes) :
    (g.modCtrl ct fun t => { t with rbuf := buf }).received = g.received ∧
      (g.modCtrl ct fun t => { t with rbuf := buf }).delivered = g.delivered ∧
      ∀ t', (g.modCtrl ct fun t => { t with rbuf := buf }).ctrls ct = some t' → t'.rbuf = buf := by
  unfold Gateway.modCtrl
  split
  · rename_i hnone
    refine ⟨rfl, rfl, fun t' ht' => ?_⟩
    rw [hnone] at ht'
    cases ht'
  · refine ⟨rfl, rfl, fun t' ht' => ?_⟩
    simp only [Function.update_self, Option.some.injEq] at ht'
    rw [← ht']

/-- Giving up on a controller drops the complete frames of its buffer. -/
def DropsFrames (t : Ctrl) (rs : List RecvResult) : Prop :=
  (ctrlRecv rs t.rbuf).1 = true ∧ framesIn (ctrlRecv rs t.rbuf).2 ≠ []

theorem readFrames_read {g : Gateway} (h : Inv g.toFlight) (ct : CtrlId) (buf : Bytes) :
    (readFrames E g ct buf).2.received ct = g.received ct ∧
      (readFrames E g ct buf).2.delivered ct = g.delivered ct ++ framesIn buf ∧
      ∀ t, (readFrames E g ct buf).2.ctrls ct = some t →
        scanFrames buf.length buf = (framesIn buf, .needMore, t.rbuf) := by
  obtain ⟨hrec, hdel⟩ := frameLoop_read E ct (framesIn buf) h
  have hinv := Moves.inv (frameLoop_moves E h ct (framesIn buf)) h
  have hscan : scanFrames buf.length buf = (framesIn buf, (scanFrames buf.length buf).2) := rfl
  unfold readFrames
  dsimp only
  cases hend : (scanFrames buf.length buf).2.1 with
  | bad =>
      have hdied := controllerDied_read E hinv ct
      refine ⟨hdied.received.trans hrec, hdied.delivered.trans hdel, fun t ht => ?_⟩
      rw [show (controllerDied E (List.foldl (deliverFrame E ct) g (scanFrames buf.length buf).1)
        ct).ctrls ct = none from controllerDied_gone E _ ct] at ht
      cases ht
  | needMore =>
      obtain ⟨hrec', hdel', hrbuf⟩ := modCtrl_rbuf_read
        (List.foldl (deliverFrame E ct) g (framesIn buf)) ct (scanFrames buf.length buf).2.2
      refine ⟨(congrFun hrec' ct).trans hrec, (congrFun hdel' ct).trans hdel, fun t ht => ?_⟩
      rw [hscan, ← hend, hrbuf t ht]

/-- What an event leaves of `ReadInv`: the complete frames received are those
    dispatched unless the event gave up with frames in the buffer. -/
theorem onCtrlReadable_read {g : Gateway} (h : Inv g.toFlight) {ct : CtrlId} {t : Ctrl}
    (hr : LiveRead g.toFlight ct) (ht : g.ctrls ct = some t) (rs : List RecvResult) :
    (framesIn ((onCtrlReadable E g ct rs).2.received ct) =
        (onCtrlReadable E g ct rs).2.delivered ct ↔ ¬ DropsFrames t rs) ∧
      LiveRead (onCtrlReadable E g ct rs).2.toFlight ct := by
  obtain ⟨more, hmore⟩ := ctrlRecv_append rs t.rbuf
  have hinv := Moves.inv (fillCtrl_moves g ct t (t.rbuf ++ more)) h
  obtain ⟨hrec, hdel, -⟩ := fillCtrl_read ht more
  have hbuf := hr t ht
  have hall : framesIn (g.received ct ++ more) = g.delivered ct ++ framesIn (t.rbuf ++ more) :=
    framesIn_append hbuf
  unfold DropsFrames LiveRead onCtrlReadable
  rw [ht]
  dsimp only
  rw [hmore]
  cases hgave : (ctrlRecv rs t.rbuf).1 with
  | true =>
      have hdied := controllerDied_read E hinv ct
      simp only [if_true]
      constructor
      · rw [hdied.received, hdied.delivered, hrec, hdel, hall]
        simp
      · intro t' ht'
        rw [show (controllerDied E (fillCtrl g ct t (t.rbuf ++ more)) ct).ctrls ct = none from
          controllerDied_gone E _ ct] at ht'
        cases ht'
  | false =>
      obtain ⟨hrec', hdel', hscan'⟩ := readFrames_read E hinv ct (t.rbuf ++ more)
      simp only [Bool.false_eq_true, if_false, false_and, not_false_eq_true, iff_true]
      rw [hrec', hdel', hrec, hdel]
      refine ⟨hall, fun t' ht' => ?_⟩
      have happ := scanFrames_append more _ _ _ _ le_rfl hbuf
      rw [List.length_append, happ, hscan' t' ht']

-- ============================================================================
-- Runs
-- ============================================================================

/-- A step that gives up on no controller with complete frames in its
    buffer. -/
def KeepsFrames (g : Gateway) : Input → Prop
  | .event (.ctrl ct true _ i) => ∀ t, g.ctrls ct = some t → ¬ DropsFrames t i.recvs
  | _ => True

/-- Only an event of the controller itself reads from it. -/
theorem Handles.read_eq {g : Gateway} {idle : Bool} {e : Event} {ct : CtrlId}
    (h : Handles E g idle e (.read ct)) : ∃ read write i, e = .ctrl ct read write i := by
  obtain ⟨cmdline, -, hl | ⟨ct', hl⟩ | ⟨ct', -, hl⟩⟩ | h := h
  · cases hl
  · cases hl
  · cases hl
  · cases e with
    | listen | listenControl | control => simp at h
    | client k read write i =>
        obtain hl | hl | ⟨ct', hl⟩ | hl := h <;> cases hl
    | ctrl ct' read write i =>
        obtain ⟨t, -, hl | hl | ⟨-, k, -, hl⟩ | ⟨-, hl⟩⟩ := h
        · cases hl
          exact ⟨read, write, i, rfl⟩
        · cases hl
        · exact absurd rfl (hl.ne_read ct).1
        · exact absurd rfl (hl.ne_read ct).1

/-- A property of what was read from a controller holds after a step if every
    move that reads nothing from it keeps the property, and reading from it
    does. -/
theorem step_read_rule {I : Flight → Prop} {ct : CtrlId}
    (hI : ∀ {f f' : Flight} {l : Label}, Micro f l f' → l ≠ .read ct → I f → I f')
    {g : Gateway} (h : Inv g.toFlight) (hi : I g.toFlight) (i : Input)
    (hread : ∀ write inp t, i = .event (.ctrl ct true write inp) → g.ctrls ct = some t →
      I (onCtrlReadable E g ct inp.recvs).2.toFlight) : I (step E g i).toFlight := by
  have hmoves : ∀ {P : Label → Prop} {f f' : Flight}, Moves P f f' →
      (∀ l, P l → l ≠ .read ct) → I f → I f' :=
    fun hm hP hf => hm.keep (I := I) (fun hl hmic hx => hI hmic (hP _ hl) hx) hf
  cases i with
  | tick =>
      refine hmoves (afterBatch_moves E h) ?_ hi
      rintro l hl rfl
      exact hl
  | event e =>
      by_cases hown : ∃ read write inp, e = .ctrl ct read write inp
      · -- reading, if the event does it, and then writing
        obtain ⟨read, write, inp, rfl⟩ := hown
        have hfirst : Inv (if read then onCtrlReadable E g ct inp.recvs
              else (.zero, g)).2.toFlight ∧
            I (if read then onCtrlReadable E g ct inp.recvs else (.zero, g)).2.toFlight := by
          cases read with
          | false => exact ⟨h, hi⟩
          | true =>
              rw [if_pos rfl]
              cases ht : g.ctrls ct with
              | none =>
                  rw [onCtrlReadable_dead E ht]
                  exact ⟨h, hi⟩
              | some t =>
                  exact ⟨Moves.inv (onCtrlReadable_moves E h ht inp.recvs) h,
                    hread write inp t rfl ht⟩
        show I (onCtrlEvent E g ct read write inp).toFlight
        unfold onCtrlEvent
        split
        · rename_i hres
          rw [hres] at hfirst
          exact hfirst.2
        · rename_i hres
          rw [hres] at hfirst
          split
          · refine hmoves (onCtrlWritable_moves E hfirst.1 ct inp.sends) ?_ hfirst.2
            rintro l (rfl | ⟨-, hl⟩)
            · simp
            · exact (DeathOwn.ne_read hl ct).1
          · exact hfirst.2
      · refine hmoves (handleEvent_moves E h e false fun hf => by cases hf) ?_ hi
        rintro l hl rfl
        exact hown (Handles.read_eq E hl)

theorem step_liveRead {g : Gateway} (i : Input) (h : Inv g.toFlight) {ct : CtrlId}
    (hr : LiveRead g.toFlight ct) : LiveRead (step E g i).toFlight ct :=
  step_read_rule E (I := fun f => LiveRead f ct) (fun hm hl hf => hm.liveRead hl hf) h hr i
    fun _ inp _ _ ht => (onCtrlReadable_read E h hr ht inp.recvs).2

theorem step_readInv {g : Gateway} {i : Input} (h : Inv g.toFlight)
    (hr : ∀ ct, ReadInv g.toFlight ct) (hi : KeepsFrames g i) :
    ∀ ct, ReadInv (step E g i).toFlight ct := by
  intro ct
  refine step_read_rule E (I := fun f => ReadInv f ct) (fun hm hl hf => hm.readInv hl hf) h
    (hr ct) i ?_
  rintro write inp t rfl ht
  obtain ⟨hiff, hlive⟩ := onCtrlReadable_read E h (hr ct).buffered ht inp.recvs
  exact ⟨hiff.mpr (hi t ht), hlive⟩

theorem Fresh.readInv {g : Gateway} (h : Fresh g) (ct : CtrlId) : ReadInv g.toFlight ct where
  delivered := by
    rw [h.received, h.delivered]
    rfl
  buffered := by
    intro t ht
    rw [h.ctrls] at ht
    cases ht

/-- In every run, what a live controller has sent is cut into the frames
    dispatched and its buffer. -/
theorem ReachableBy.liveRead {P : Gateway → Input → Prop} {g : Gateway}
    (hg : ReachableBy E P g) (ct : CtrlId) : LiveRead g.toFlight ct := by
  induction hg with
  | start g hf =>
      refine (startServices_moves E hf).keep (I := fun f => LiveRead f ct)
        (fun hl hm hx => hm.liveRead ?_ hx) (hf.readInv ct).buffered
      rintro rfl
      exact hl
  | step g i hg _ ih => exact step_liveRead E i (ReachableBy.inv E hg) ih

theorem ReachableBy.readInv {g : Gateway} (hg : ReachableBy E KeepsFrames g) :
    ∀ ct, ReadInv g.toFlight ct := by
  induction hg with
  | start g hf =>
      intro ct
      refine (startServices_moves E hf).keep (I := fun f => ReadInv f ct)
        (fun hl hm hx => hm.readInv ?_ hx) (hf.readInv ct)
      rintro rfl
      exact hl
  | step g i hg hi ih => exact step_readInv E (ReachableBy.inv E hg) ih hi

end Naitron
