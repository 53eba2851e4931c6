/-
  Naitron.Server.Batch

  The objects that the events of one batch name.

  The poller hands out a batch with the objects registered at that time.
  Handling an event may close objects that later events of the batch name: a
  frame answers and closes a client, a dying controller closes the clients
  that wait on it, a command destroys controllers.  `Spares` says, of the
  state before an event, that it does none of this to a given later event.
-/

import Naitron.Server.Delivery

namespace Naitron

variable (E : Ext)

/-- The object an event names is there. -/
def Event.alive (f : Flight) : Event → Prop
  | .listen _ _ _ | .listenControl _ => True
  | .control cc _ _ => (f.cctrls cc).isSome
  | .ctrl ct _ _ _ => (f.ctrls ct).isSome
  | .client k _ _ _ => (f.conns k).isSome

/-- Two events name the same object. -/
def Event.sameObject : Event → Event → Prop
  | .control cc _ _, .control cc' _ _ => cc = cc'
  | .ctrl ct _ _ _, .ctrl ct' _ _ _ => ct = ct'
  | .client k _ _ _, .client k' _ _ _ => k = k'
  | _, _ => False

/-- Handling `e` cannot close the object of `e'`: it names another object; no
    command it runs destroys the controller of `e'`; no frame it reads has an
    effect on the client of `e'`, and that client does not wait on a
    controller that dies. -/
def Spares (g : Gateway) (e e' : Event) : Prop :=
  ¬ e.sameObject e' ∧
    match e, e' with
    | _, .ctrl ct' _ _ _ =>
        ∀ cmdline, eventCommand E g e = some cmdline → ¬ commandDrops g.toFlight cmdline ct'
    | .ctrl ct read write i, .client k' _ _ _ =>
        ∀ t, g.ctrls ct = some t →
          (read = true → ¬ framesTouch g.toFlight (framesRead t i.recvs) k') ∧
            (ctrlDies t read write i → ¬ WaitsOn g.toFlight k' ct)
    | _, _ => True

/-- Reaching a connection drops no controller and ends no control client. -/
theorem Reach.spares {may : Prop} {k : ConnId} {l : Label} (h : Reach may k l) :
    (∀ idle ct, l ≠ .drop idle ct) ∧ ∀ cc, l ≠ .operator cc := by
  obtain h | ⟨-, rfl⟩ := h
  · constructor
    · rintro idle ct rfl
      exact h
    · rintro cc rfl
      exact h
  · constructor
    · intro idle ct hl
      cases hl
    · intro cc hl
      cases hl

theorem Handles.spares_client {g : Gateway} {e : Event} {k' : ConnId} {read' write' : Bool}
    {i' : ClientInput} (h : Spares E g e (.client k' read' write' i')) :
    ¬ Handles E g false e (.close k') := by
  rintro (⟨cmdline, -, hl | ⟨ct, hl⟩ | ⟨ct, -, hl⟩⟩ | hl)
  · cases hl
  · cases hl
  · cases hl
  · cases e with
    | listen | listenControl | control => simp at hl
    | client k read write i =>
        obtain hl | hl | ⟨ct, hl⟩ | hl := hl
        · exact h.1 (hl.conn_eq rfl).symm
        · cases hl
        · cases hl
        · cases hl
    | ctrl ct read write i =>
        obtain ⟨t, ht, hl | hl | ⟨hread, k, htouch, hl⟩ | ⟨hdies, ⟨k, hwait, hl⟩ | hl⟩⟩ := hl
        · cases hl
        · cases hl
        · cases hl.conn_eq rfl
          exact (h.2 t ht).1 hread htouch
        · cases hl.conn_eq rfl
          exact (h.2 t ht).2 hdies hwait
        · cases hl

theorem Handles.spares_ctrl {g : Gateway} {e : Event} {ct' : CtrlId} {read' write' : Bool}
    {i' : CtrlInput} (h : Spares E g e (.ctrl ct' read' write' i')) (idle : Bool) :
    ¬ Handles E g false e (.drop idle ct') := by
  have hcmd : ∀ cmdline, eventCommand E g e = some cmdline →
      ¬ commandDrops g.toFlight cmdline ct' := by
    have := h.2
    cases e <;> exact this
  rintro (⟨cmdline, hev, hl | ⟨ct, hl⟩ | ⟨ct, hdrop, hl⟩⟩ | hl)
  · cases hl
  · cases hl
  · cases hl
    exact hcmd cmdline hev hdrop
  · cases e with
    | listen | listenControl | control => simp at hl
    | client k read write i =>
        obtain hl | hl | ⟨ct, hl⟩ | hl := hl <;> cases hl
    | ctrl ct read write i =>
        obtain ⟨t, ht, hl | hl | ⟨hread, k, htouch, hl⟩ | ⟨hdies, ⟨k, hwait, hl⟩ | hl⟩⟩ := hl
        · cases hl
        · cases hl
        · exact hl.spares.1 _ _ rfl
        · exact hl.spares.1 _ _ rfl
        · cases hl
          exact h.1 rfl

theorem Handles.spares_control {g : Gateway} {e : Event} {cc' : CctrlId} {read' : Bool}
    {rs' : List RecvResult} (h : Spares E g e (.control cc' read' rs')) :
    ¬ Handles E g false e (.operator cc') := by
  rintro (⟨cmdline, -, hl | ⟨ct, hl⟩ | ⟨ct, -, hl⟩⟩ | hl)
  · cases hl
  · cases hl
  · cases hl
  · cases e with
    | listen | listenControl => simp at hl
    | control cc read rs =>
        cases hl
        exact h.1 rfl
    | client k read write i =>
        obtain hl | hl | ⟨ct, hl⟩ | hl := hl <;> cases hl
    | ctrl ct read write i =>
        obtain ⟨t, ht, hl | hl | ⟨hread, k, htouch, hl⟩ | ⟨hdies, ⟨k, hwait, hl⟩ | hl⟩⟩ := hl
        · cases hl
        · cases hl
        · exact hl.spares.2 _ rfl
        · exact hl.spares.2 _ rfl
        · cases hl

/-- An event that spares another leaves its object there. -/
theorem handleEvent_spares {g : Gateway} (h : Inv g.toFlight) {e e' : Event}
    (hs : Spares E g e e') (ha : e'.alive g.toFlight) :
    e'.alive (handleEvent E g e).toFlight := by
  have hm := handleEvent_moves E h e false fun hf => by cases hf
  cases e' with
  | listen | listenControl => trivial
  | control cc read rs =>
      exact Moves.cctrl_isSome hm
        (fun l hl heq => Handles.spares_control E hs (heq ▸ hl)) ha
  | ctrl ct read write i =>
      exact Moves.ctrl_isSome hm
        (fun l hl idle heq => Handles.spares_ctrl E hs idle (heq ▸ hl)) ha
  | client k read write i =>
      exact Moves.conn_isSome hm (fun l hl heq => Handles.spares_client E hs (heq ▸ hl)) ha

/-- Every event of a batch spares the later ones, in the state before it. -/
def SparingBatch (g : Gateway) (evs : List Event) : Prop :=
  ∀ pre e post, evs = pre ++ e :: post →
    ∀ e' ∈ post, Spares E (pre.foldl (handleEvent E) g) e e'

theorem batch_alive :
    ∀ (evs : List Event) (g : Gateway), Inv g.toFlight → (∀ e ∈ evs, e.alive g.toFlight) →
      SparingBatch E g evs →
      ∀ pre e post, evs = pre ++ e :: post → e.alive (pre.foldl (handleEvent E) g).toFlight := by
  intro evs
  induction evs with
  | nil =>
      intro g _ _ _ pre e post h
      simp at h
  | cons x evs ih =>
      intro g hinv halive hspare pre e post h
      cases pre with
      | nil =>
          obtain ⟨rfl, -⟩ := List.cons.inj h
          exact halive x List.mem_cons_self
      | cons y pre =>
          obtain ⟨rfl, hrest⟩ := List.cons.inj h
          refine ih (handleEvent E g x) (step_inv E (.event x) hinv) ?_ ?_ pre e post hrest
          · intro e' he'
            exact handleEvent_spares E hinv (hspare [] x evs rfl e' he')
              (halive e' (List.mem_cons_of_mem x he'))
          · intro pre' e' post' h' e'' he''
            exact hspare (x :: pre') e' post' (by rw [h']; rfl) e'' he''

/-- In a batch whose events spare the later ones, each event is dispatched to
    an object that is there. -/
theorem events_dispatched_to_live_objects {g : Gateway} (hg : Reachable E g) (evs : List Event)
    (halive : ∀ e ∈ evs, e.alive g.toFlight) (hspare : SparingBatch E g evs) :
    ∀ pre e post, evs = pre ++ e :: post → e.alive (pre.foldl (handleEvent E) g).toFlight :=
  batch_alive E evs g (ReachableBy.inv E hg) halive hspare

/-! ## A controller and a client ready at once -/

/-- The places of a batch of two. -/
theorem split_pair {α : Type} {a b e : α} {pre post : List α} (h : [a, b] = pre ++ e :: post) :
    (pre = [] ∧ e = a ∧ post = [b]) ∨ (pre = [a] ∧ e = b ∧ post = []) := by
  match pre, h with
  | [], h =>
      cases h
      exact Or.inl ⟨rfl, rfl, rfl⟩
  | [_], h =>
      cases h
      exact Or.inr ⟨rfl, rfl, rfl⟩
  | _ :: _ :: _, h => simp at h

/-- The environment in which sockets take whatever they are given. -/
def eagerExt : Ext := .ofAnswers fun _ => { quietAnswer with sends := [.more 65535] }

/-- A second client is connected, client 1. -/
def twoClients : Gateway := step eagerExt (helloInFlight eagerExt) helloConnect

theorem twoClients_reachable : Reachable eagerExt twoClients :=
  .step _ _ (helloInFlight_reachable eagerExt trivial trivial) trivial

/-- The greeter answers client 0. -/
def greeterAnswers : Event := .ctrl 0 true false { recvs := recvOf (responseFrame 4095) }

theorem twoClients_live :
    (twoClients.conns 1).isSome ∧ gwConnForId twoClients.toFlight 4095 = some 0 ∧
      ∃ t, twoClients.ctrls 0 = some t ∧ t.rbuf = [] := by
  have hmap : (twoClients.ctrls 0).map (·.rbuf) = some [] := by decide +kernel
  exact ⟨by decide +kernel, by decide +kernel, Option.map_eq_some_iff.mp hmap⟩

/-- The greeter's frame belongs to client 0. -/
theorem greeterAnswers_spares (i : ClientInput) :
    Spares eagerExt twoClients greeterAnswers (.client 1 true false i) := by
  obtain ⟨-, howner, t, ht, hbuf⟩ := twoClients_live
  refine ⟨id, fun t' ht' => ?_⟩
  obtain rfl : t' = t := Option.some.inj (ht'.symm.trans ht)
  have hbytes : (ctrlRecv (recvOf (responseFrame 4095)) t'.rbuf) =
      (false, responseFrame 4095) := by
    rw [hbuf]
    decide
  have hids : (framesIn (responseFrame 4095)).map (fun x => x.hdr.requestId) = [4095] := by
    decide
  have hsound : ((scanFrames (responseFrame 4095).length (responseFrame 4095)).2.1 == .bad) =
      false := by
    decide
  constructor
  · rintro - ⟨x, hx, hid, -⟩
    rw [framesRead, hbytes] at hx
    rw [if_neg Bool.false_ne_true] at hx
    have hmem : x.hdr.requestId ∈ (framesIn (responseFrame 4095)).map fun x => x.hdr.requestId :=
      List.mem_map_of_mem hx
    rw [hids, List.mem_singleton] at hmem
    rw [hmem, howner] at hid
    cases hid
  · rintro (⟨-, hkill⟩ | ⟨hwrite, -⟩)
    · rw [readKills, hbytes, hsound] at hkill
      cases hkill
    · cases hwrite

/-- The greeter's answer frees client 0, and the bytes of client 1, in the same
    batch, find client 1. -/
theorem events_dispatched_to_live_objects_hello :
    ((handleEvent eagerExt twoClients greeterAnswers).conns 0).isSome = false ∧
      Event.alive ([greeterAnswers].foldl (handleEvent eagerExt) twoClients).toFlight
        (.client 1 true false { recvs := recvOf (lit "GET /hello HTTP/1.1\r\n\r\n") }) := by
  refine ⟨by decide +kernel, ?_⟩
  obtain ⟨hclient, -, t, ht, -⟩ := twoClients_live
  refine events_dispatched_to_live_objects eagerExt twoClients_reachable
    [greeterAnswers, .client 1 true false
      { recvs := recvOf (lit "GET /hello HTTP/1.1\r\n\r\n") }] ?_ ?_ [greeterAnswers] _ [] rfl
  · intro e he
    rcases List.mem_pair.mp he with rfl | rfl
    · exact Option.isSome_iff_exists.mpr ⟨t, ht⟩
    · exact hclient
  · intro pre e post h e' he'
    rcases split_pair h with ⟨rfl, rfl, rfl⟩ | ⟨rfl, rfl, rfl⟩
    · rw [List.mem_singleton] at he'
      subst he'
      rw [List.foldl_nil]
      exact greeterAnswers_spares _
    · cases he'

/-- The greeter's answer and the client's next bytes arrive together: the
    answer is written and the client freed before its own event is handled. -/
theorem batch_dispatches_to_freed_client :
    ¬ ∀ (E : Ext) (g : Gateway), Reachable E g → ∀ evs : List Event,
      (∀ e ∈ evs, e.alive g.toFlight) → evs.Pairwise (fun e e' => ¬ e.sameObject e') →
      ∀ pre e post, evs = pre ++ e :: post → e.alive (pre.foldl (handleEvent E) g).toFlight := by
  intro h
  have hclient : ((helloInFlight eagerExt).conns 0).isSome := by decide +kernel
  have hgreeter : ((helloInFlight eagerExt).ctrls 0).isSome := by decide +kernel
  have halive := h eagerExt (helloInFlight eagerExt)
    (helloInFlight_reachable eagerExt trivial trivial)
    [.ctrl 0 true false { recvs := recvOf (responseFrame 4095) }, .client 0 true false {}]
    (fun e he => by
      rcases List.mem_pair.mp he with rfl | rfl
      · exact hgreeter
      · exact hclient)
    (by simp [Event.sameObject])
    [.ctrl 0 true false { recvs := recvOf (responseFrame 4095) }] (.client 0 true false {}) [] rfl
  have hgone : ((handleEvent eagerExt (helloInFlight eagerExt)
      (.ctrl 0 true false { recvs := recvOf (responseFrame 4095) })).conns 0).isSome = false := by
    decide +kernel
  rw [List.foldl_cons, List.foldl_nil, Event.alive, hgone] at halive
  cases halive

end Naitron
