/-
  Naitron.Server.Sessions

  What a controller is sent for one client connection.

  The frames queued for a connection are nothing, one request, or a WebSocket
  session: `WS_OPEN`, messages, and at most one `WS_CLOSE`.  A session that is
  in flight ends in one of two ways (`Outcome`): the connection goes away and
  the controller is told once, or the controller itself let it go and is told
  nothing.
-/

import Naitron.Server.Slots

namespace Naitron

variable (E : Ext)

-- ============================================================================
-- Sessions
-- ============================================================================

/-- The frames queued for a connection, oldest first. -/
def sessionLog (f : Flight) (k : ConnId) : List QueuedFrame := f.queued.filter (·.conn == k)

/-- Messages of a session. -/
def wsMsgs (ct : CtrlId) (k : ConnId) (id : Nat) (ps : List Bytes) : List QueuedFrame :=
  ps.map fun p => ⟨ct, k, .wsMsg, id, p⟩

/-- A session so far: `WS_OPEN` and messages. -/
def wsTalk (ct : CtrlId) (k : ConnId) (id : Nat) (p : Bytes) (ps : List Bytes) :
    List QueuedFrame :=
  ⟨ct, k, .wsOpen, id, p⟩ :: wsMsgs ct k id ps

/-- All that a controller is ever sent for a connection. -/
inductive Session (k : ConnId) : List QueuedFrame → Prop
  | none : Session k []
  | request (ct : CtrlId) (id : Nat) (p : Bytes) : Session k [⟨ct, k, .request, id, p⟩]
  | talk (ct : CtrlId) (id : Nat) (p : Bytes) (ps : List Bytes) : Session k (wsTalk ct k id p ps)
  | closed (ct : CtrlId) (id : Nat) (p : Bytes) (ps : List Bytes) (q : Bytes) :
      Session k (wsTalk ct k id p ps ++ [⟨ct, k, .wsClose, id, q⟩])

/-- The frames queued for a connection that is still there. -/
structure LiveSession (k : ConnId) (c : Conn) (log : List QueuedFrame) : Prop where
  idle : c.waitCtrl = none → log = []
  request : ∀ ct, c.waitCtrl = some ct → c.isWs = false →
    ∃ p, log = [⟨ct, k, .request, c.reqId, p⟩]
  ws : ∀ ct, c.waitCtrl = some ct → c.isWs = true → ∃ p ps, log = wsTalk ct k c.reqId p ps

theorem LiveSession.session {k : ConnId} {c : Conn} {log : List QueuedFrame}
    (h : LiveSession k c log) : Session k log := by
  cases hwait : c.waitCtrl with
  | none =>
      rw [h.idle hwait]
      exact .none
  | some ct =>
      cases hws : c.isWs with
      | false =>
          obtain ⟨p, hlog⟩ := h.request ct hwait hws
          rw [hlog]
          exact .request ct c.reqId p
      | true =>
          obtain ⟨p, ps, hlog⟩ := h.ws ct hwait hws
          rw [hlog]
          exact .talk ct c.reqId p ps

/-- The record depends on what a change of the connection keeps. -/
theorem LiveSession.congr {k : ConnId} {c c' : Conn} {log : List QueuedFrame}
    (h : LiveSession k c log) (hid : c'.reqId = c.reqId) (hwait : c'.waitCtrl = c.waitCtrl)
    (hws : c'.isWs = c.isWs) : LiveSession k c' log := by
  refine ⟨fun hw => h.idle (hwait ▸ hw), fun ct hw hf => ?_, fun ct hw ht => ?_⟩
  · rw [hid]
    exact h.request ct (hwait ▸ hw) (hws ▸ hf)
  · rw [hid]
    exact h.ws ct (hwait ▸ hw) (hws ▸ ht)

theorem wsTalk_snoc (ct : CtrlId) (k : ConnId) (id : Nat) (p : Bytes) (ps : List Bytes)
    (q : Bytes) :
    wsTalk ct k id p ps ++ [⟨ct, k, .wsMsg, id, q⟩] = wsTalk ct k id p (ps ++ [q]) := by
  simp [wsTalk, wsMsgs]

/-- A frame more, in the record of its own connection and of another. -/
theorem sessionLog_snoc {f f' : Flight} {q : QueuedFrame} (hq : f'.queued = f.queued ++ [q]) :
    sessionLog f' q.conn = sessionLog f q.conn ++ [q] := by
  rw [sessionLog, sessionLog, hq, List.filter_append, List.filter_singleton]
  simp

theorem sessionLog_snoc_other {f f' : Flight} {q : QueuedFrame} {k : ConnId}
    (hq : f'.queued = f.queued ++ [q]) (h : k ≠ q.conn) : sessionLog f' k = sessionLog f k := by
  have hne : (q.conn == k) = false := by simpa using fun heq => h heq.symm
  rw [sessionLog, sessionLog, hq, List.filter_append, List.filter_singleton, hne]
  simp

-- ============================================================================
-- Every move keeps the pattern
-- ============================================================================

/-- The record of every connection fits its state. -/
structure SessionInv (f : Flight) : Prop where
  live : ∀ k c, f.conns k = some c → LiveSession k c (sessionLog f k)
  gone : ∀ k, f.conns k = none → Session k (sessionLog f k)
  fresh : ∀ k, f.nconn ≤ k → sessionLog f k = []

/-- A move that concerns one connection. -/
theorem SessionInv.of_conn {f f' : Flight} (h : SessionInv f) (k : ConnId)
    (hother : ∀ j, j ≠ k → f'.conns j = f.conns j ∧ sessionLog f' j = sessionLog f j)
    (hn : f.nconn ≤ f'.nconn) (hk : k < f'.nconn)
    (hlive : ∀ c, f'.conns k = some c → LiveSession k c (sessionLog f' k))
    (hgone : f'.conns k = none → Session k (sessionLog f' k)) : SessionInv f' where
  live j c hc := by
    by_cases hj : j = k
    · subst hj
      exact hlive c hc
    · obtain ⟨hconn, hlog⟩ := hother j hj
      rw [hlog]
      exact h.live j c (hconn ▸ hc)
  gone j hc := by
    by_cases hj : j = k
    · subst hj
      exact hgone hc
    · obtain ⟨hconn, hlog⟩ := hother j hj
      rw [hlog]
      exact h.gone j (hconn ▸ hc)
  fresh j hj := by
    obtain ⟨-, hlog⟩ := hother j (Nat.ne_of_gt (Nat.lt_of_lt_of_le hk hj))
    rw [hlog]
    exact h.fresh j (hn.trans hj)

theorem SlotInv.lt_nconn {f : Flight} (h : SlotInv f) {k : ConnId} {c : Conn}
    (hc : f.conns k = some c) : k < f.nconn := by
  by_contra hge
  rw [h.fresh k (Nat.le_of_not_lt hge)] at hc
  cases hc

theorem Micro.sessionInv {f f' : Flight} {l : Label} (hm : Micro f l f') (hs : SlotInv f)
    (h : SessionInv f) : SessionInv f' := by
  cases hm with
  | tune k c c' hc hk =>
      refine h.of_conn k (fun j hj => ⟨Function.update_of_ne hj _ _, rfl⟩) le_rfl (hs.lt_nconn hc)
        (fun d hd => ?_) fun hd => ?_
      · simp only [Function.update_self, Option.some.injEq] at hd
        subst hd
        exact (h.live k c hc).congr hk.reqId hk.waitCtrl hk.isWs
      · simp only [Function.update_self, reduceCtorEq] at hd
  | release k s c hc | letgo k s c hc =>
      refine h.of_conn k (fun j hj => ⟨Function.update_of_ne hj _ _, rfl⟩) le_rfl (hs.lt_nconn hc)
        (fun d hd => ?_) fun hd => ?_
      · simp only [Function.update_self, Option.some.injEq] at hd
        subst hd
        exact (h.live k c hc).congr rfl rfl rfl
      · simp only [Function.update_self, reduceCtorEq] at hd
  | close k =>
      refine ⟨fun j d hd => ?_, fun j hd => ?_, h.fresh⟩
      · rcases update_some_cases hd with ⟨-, hv⟩ | ⟨-, hv⟩
        · cases hv
        · exact h.live j d hv
      · by_cases hj : j = k
        · subst hj
          show Session j (sessionLog f j)
          cases hc : f.conns j with
          | none => exact h.gone j hc
          | some c => exact (h.live j c hc).session
        · exact h.gone j ((Function.update_of_ne hj _ _).symm.trans hd)
  | relay k ct c t t' payload hc hws hin hwait =>
      refine h.of_conn k (fun j hj => ⟨rfl, sessionLog_snoc_other rfl hj⟩) le_rfl (hs.lt_nconn hc)
        (fun d hd => ?_) fun hd => ?_
      · have hd' : f.conns k = some d := hd
        rw [hc] at hd'
        cases hd'
        obtain ⟨p, ps, hlog⟩ := (h.live k c hc).ws ct hwait hws
        rw [sessionLog_snoc (f := f) (q := ⟨ct, k, .wsMsg, c.reqId, payload⟩) rfl]
        dsimp only
        rw [hlog, wsTalk_snoc]
        refine ⟨fun hw => ?_, fun ct' hw hf => ?_, fun ct' hw _ => ?_⟩
        · rw [hwait] at hw
          cases hw
        · rw [hws] at hf
          cases hf
        · rw [hwait] at hw
          cases hw
          exact ⟨p, ps ++ [payload], rfl⟩
      · have hd' : f.conns k = none := hd
        rw [hc] at hd'
        cases hd'
  | notice k ct c t t' payload hc hws hin hwait =>
      refine h.of_conn k
        (fun j hj => ⟨Function.update_of_ne hj _ _, sessionLog_snoc_other rfl hj⟩) le_rfl
        (hs.lt_nconn hc) (fun d hd => ?_) fun _ => ?_
      · simp only [Function.update_self, reduceCtorEq] at hd
      · obtain ⟨p, ps, hlog⟩ := (h.live k c hc).ws ct hwait hws
        rw [sessionLog_snoc (f := f) (q := ⟨ct, k, .wsClose, c.reqId, payload⟩) rfl]
        dsimp only
        rw [hlog]
        exact .closed ct c.reqId p ps payload
  | alloc k ct c c' slot slots t t' type payload hc hidle ha hopen hid =>
      refine h.of_conn k
        (fun j hj => ⟨Function.update_of_ne hj _ _, sessionLog_snoc_other rfl hj⟩) le_rfl
        (hs.lt_nconn hc) (fun d hd => ?_) fun hd => ?_
      · simp only [Function.update_self, Option.some.injEq] at hd
        subst hd
        have hempty := (h.live k c hc).idle hidle.waitCtrl
        rw [sessionLog_snoc (f := f) (q := ⟨ct, k, type, c'.reqId, payload⟩) rfl]
        dsimp only
        rw [hempty, List.nil_append, hopen.type]
        refine ⟨fun hw => ?_, fun ct' hw hf => ?_, fun ct' hw ht => ?_⟩
        · rw [hopen.waitCtrl] at hw
          cases hw
        · rw [hopen.waitCtrl] at hw
          cases hw
          exact ⟨payload, by rw [hf]; rfl⟩
        · rw [hopen.waitCtrl] at hw
          cases hw
          exact ⟨payload, [], by rw [ht]; rfl⟩
      · simp only [Function.update_self, reduceCtorEq] at hd
  | accept c hc =>
      refine h.of_conn f.nconn (fun j hj => ⟨Function.update_of_ne hj _ _, rfl⟩) (Nat.le_succ _)
        (Nat.lt_succ_self _) (fun d hd => ?_) fun hd => ?_
      · simp only [Function.update_self, Option.some.injEq] at hd
        subst hd
        have hempty : sessionLog f f.nconn = [] := h.fresh f.nconn le_rfl
        refine ⟨fun _ => hempty, fun ct hw => ?_, fun ct hw => ?_⟩
        · rw [hc.waitCtrl] at hw
          cases hw
        · rw [hc.waitCtrl] at hw
          cases hw
      · simp only [Function.update_self, reduceCtorEq] at hd
  | _ => exact ⟨h.live, h.gone, h.fresh⟩

theorem Moves.sessionInv {P : Label → Prop} {f f' : Flight} (hm : Moves P f f') (h : Inv f)
    (hs : SessionInv f) : SessionInv f' := by
  have hboth : Inv f' ∧ SessionInv f' :=
    hm.keep (I := fun x => Inv x ∧ SessionInv x)
      (fun _ hmic hx => ⟨hmic.inv hx.1, hmic.sessionInv hx.1.slots hx.2⟩) ⟨h, hs⟩
  exact hboth.2

theorem Fresh.sessionInv {g : Gateway} (h : Fresh g) : SessionInv g.toFlight := by
  have hlog : ∀ k, sessionLog g.toFlight k = [] := fun k => by rw [sessionLog, h.queued]; rfl
  refine ⟨fun k c hc => ?_, fun k _ => ?_, fun k _ => hlog k⟩
  · rw [h.conns] at hc
    cases hc
  · rw [hlog]
    exact .none

theorem step_sessionInv {g : Gateway} (i : Input) (h : Inv g.toFlight)
    (hs : SessionInv g.toFlight) : SessionInv (step E g i).toFlight := by
  cases i with
  | event e => exact Moves.sessionInv (handleEvent_moves E h e false fun hi => by cases hi) h hs
  | tick => exact Moves.sessionInv (afterBatch_moves E h) h hs

theorem ReachableBy.sessionInv {P : Gateway → Input → Prop} {g : Gateway}
    (h : ReachableBy E P g) : SessionInv g.toFlight := by
  induction h with
  | start g hg => exact Moves.sessionInv (startServices_moves E hg) hg.inv hg.sessionInv
  | step g i hg _ ih => exact step_sessionInv E i (ReachableBy.inv E hg) ih

-- ============================================================================
-- How a session ends
-- ============================================================================

/-- The connection has been served: it is gone, or its controller let it go. -/
structure Ended (f : Flight) (k : ConnId) : Prop where
  used : k < f.nconn
  idle : ∀ c, f.conns k = some c → c.inflight = false ∧ c.waitCtrl ≠ none

/-- A move that leaves a connection and its record alone. -/
theorem Ended.congr {f f' : Flight} {k : ConnId} (h : Ended f k) (hn : f.nconn ≤ f'.nconn)
    (hconn : f'.conns k = f.conns k) : Ended f' k :=
  ⟨h.used.trans_le hn, fun c hc => h.idle c (hconn ▸ hc)⟩

/-- No move brings an ended connection back, or adds to its record. -/
theorem Micro.ended {f f' : Flight} {l : Label} {k : ConnId} (hm : Micro f l f')
    (h : Ended f k) :
    Ended f' k ∧ sessionLog f' k = sessionLog f k ∧ (f.conns k = none → f'.conns k = none) := by
  have hsame : ∀ {f' : Flight}, f.nconn ≤ f'.nconn → f'.conns k = f.conns k →
      sessionLog f' k = sessionLog f k →
      Ended f' k ∧ sessionLog f' k = sessionLog f k ∧ (f.conns k = none → f'.conns k = none) :=
    fun hn hconn hlog => ⟨h.congr hn hconn, hlog, fun hnone => hconn.trans hnone⟩
  have hchange : ∀ {c d : Conn}, f.conns k = some c → d.inflight = false →
      d.waitCtrl = c.waitCtrl →
      (∀ e, Function.update f.conns k (some d) k = some e → e.inflight = false ∧
        e.waitCtrl ≠ none) ∧ (f.conns k = none → Function.update f.conns k (some d) k = none) := by
    intro c d hc hin hwait
    refine ⟨fun e he => ?_, fun hnone => ?_⟩
    · rw [Function.update_self] at he
      cases he
      exact ⟨hin, hwait ▸ (h.idle c hc).2⟩
    · rw [hc] at hnone
      cases hnone
  cases hm with
  | tune j c c' hc hk =>
      by_cases hj : k = j
      · subst hj
        obtain ⟨hidle, hgone⟩ := hchange hc (hk.inflight.trans (h.idle c hc).1) hk.waitCtrl
        exact ⟨⟨h.used, hidle⟩, rfl, hgone⟩
      · exact hsame le_rfl (Function.update_of_ne hj _ _) rfl
  | release j s c hc | letgo j s c hc =>
      by_cases hj : k = j
      · subst hj
        obtain ⟨hidle, hgone⟩ := hchange (d := { c with inflight := false }) hc rfl rfl
        exact ⟨⟨h.used, hidle⟩, rfl, hgone⟩
      · exact hsame le_rfl (Function.update_of_ne hj _ _) rfl
  | close j =>
      by_cases hj : k = j
      · subst hj
        refine ⟨⟨h.used, fun c hc => ?_⟩, rfl, fun _ => Function.update_self _ _ _⟩
        simp only [Function.update_self, reduceCtorEq] at hc
      · exact hsame le_rfl (Function.update_of_ne hj _ _) rfl
  | relay j ct c t t' payload hc hws hin =>
      have hj : k ≠ j := by
        rintro rfl
        rw [(h.idle c hc).1] at hin
        cases hin
      exact hsame le_rfl rfl (sessionLog_snoc_other rfl hj)
  | notice j ct c t t' payload hc hws hin =>
      have hj : k ≠ j := by
        rintro rfl
        rw [(h.idle c hc).1] at hin
        cases hin
      exact hsame le_rfl (Function.update_of_ne hj _ _) (sessionLog_snoc_other rfl hj)
  | alloc j ct c c' slot slots t t' type payload hc hidle =>
      have hj : k ≠ j := by
        rintro rfl
        exact (h.idle c hc).2 hidle.waitCtrl
      exact hsame le_rfl (Function.update_of_ne hj _ _) (sessionLog_snoc_other rfl hj)
  | accept c hc =>
      exact hsame (Nat.le_succ _) (Function.update_of_ne (Nat.ne_of_lt h.used) _ _) rfl
  | _ => exact hsame le_rfl rfl rfl

theorem Moves.ended {P : Label → Prop} {f f' : Flight} {k : ConnId} (hm : Moves P f f')
    (h : Ended f k) : Ended f' k ∧ sessionLog f' k = sessionLog f k := by
  refine hm.keep (I := fun x => Ended x k ∧ sessionLog x k = sessionLog f k) ?_ ⟨h, rfl⟩
  intro a b l _ hmic ⟨ha, hlog⟩
  obtain ⟨hb, hlog', -⟩ := hmic.ended ha
  exact ⟨hb, hlog'.trans hlog⟩

/-- What becomes of a session that was in flight with the record `log`: it goes
    on; the connection is gone and the controller has been told so, once; or
    the controller let the session go, if it may have, and is told nothing. -/
inductive Outcome (may : Prop) (k : ConnId) (ct : CtrlId) (id : Nat) (log : List QueuedFrame)
    (f : Flight) : Prop
  | on (c : Conn) (ps : List Bytes) (conn : f.conns k = some c) (ws : c.isWs = true)
      (inflight : c.inflight = true) (wait : c.waitCtrl = some ct) (reqId : c.reqId = id)
      (eq : sessionLog f k = log ++ wsMsgs ct k id ps)
  | told (ps : List Bytes) (q : Bytes) (ended : Ended f k) (gone : f.conns k = none)
      (eq : sessionLog f k = log ++ wsMsgs ct k id ps ++ [⟨ct, k, .wsClose, id, q⟩])
  | letGo (ps : List Bytes) (allowed : may) (ended : Ended f k)
      (eq : sessionLog f k = log ++ wsMsgs ct k id ps)

/-- A session in flight waits on a controller that is there. -/
theorem WaitInv.ctrl_some {f : Flight} (hw : WaitInv f) (h : Inv f) {k : ConnId} {c : Conn}
    {ct : CtrlId} (hc : f.conns k = some c) (hin : c.inflight = true)
    (hwait : c.waitCtrl = some ct) : f.ctrls ct ≠ none := by
  obtain ⟨ct', hct', i, r, hat⟩ := hw _ k c (h.slots.inflight k c hc hin) hc
  rw [hwait] at hct'
  cases hct'
  obtain ⟨t, ht, -⟩ := h.ctrls.owner i r ct hat
  rw [ht]
  simp

theorem Micro.outcome {may : Prop} {f f' : Flight} {l : Label} {k : ConnId} {ct : CtrlId}
    {id : Nat} {log : List QueuedFrame} (hm : Micro f l f') (h : Inv f) (hw : WaitInv f)
    (hlost : f.lost = []) (hl : l = .letgo k → may) (ho : Outcome may k ct id log f) :
    Outcome may k ct id log f' := by
  cases ho with
  | told ps q ended gone eq =>
      obtain ⟨hended, hlog, hgone⟩ := hm.ended ended
      exact .told ps q hended (hgone gone) (hlog.trans eq)
  | letGo ps allowed ended eq =>
      obtain ⟨hended, hlog, -⟩ := hm.ended ended
      exact .letGo ps allowed hended (hlog.trans eq)
  | on c ps conn ws inflight wait reqId eq =>
      have hsame : ∀ {f' : Flight}, f'.conns k = f.conns k → sessionLog f' k = sessionLog f k →
          Outcome may k ct id log f' := fun hconn hlog =>
        .on c ps (hconn.trans conn) ws inflight wait reqId (hlog.trans eq)
      cases hm with
      | tune j d d' hd hk =>
          by_cases hj : k = j
          · subst hj
            rw [conn] at hd
            cases hd
            exact .on d' ps (Function.update_self _ _ _) (hk.isWs.trans ws)
              (hk.inflight.trans inflight) (hk.waitCtrl.trans wait) (hk.reqId.trans reqId) eq
          · exact hsame (Function.update_of_ne hj _ _) rfl
      | release j s d hd _ hquiet =>
          by_cases hj : k = j
          · -- a session in flight is not dropped in silence
            subst hj
            rw [conn] at hd
            cases hd
            rcases hquiet ws ct wait with hnone | hne
            · exact absurd hnone (hw.ctrl_some h conn inflight wait)
            · exact absurd hlost hne
          · exact hsame (Function.update_of_ne hj _ _) rfl
      | letgo j s d hd =>
          by_cases hj : k = j
          · subst hj
            rw [conn] at hd
            cases hd
            refine .letGo ps (hl rfl) ⟨h.slots.lt_nconn conn, fun e he => ?_⟩ eq
            simp only [Function.update_self, Option.some.injEq] at he
            subst he
            exact ⟨rfl, by simp [wait]⟩
          · exact hsame (Function.update_of_ne hj _ _) rfl
      | close j hj' =>
          by_cases hj : k = j
          · subst hj
            rw [hj' c conn] at inflight
            cases inflight
          · exact hsame (Function.update_of_ne hj _ _) rfl
      | relay j ct' d t t' payload hd _ _ hwait =>
          by_cases hj : k = j
          · subst hj
            rw [conn] at hd
            cases hd
            rw [wait] at hwait
            cases hwait
            subst reqId
            refine .on c (ps ++ [payload]) conn ws inflight wait rfl ?_
            rw [sessionLog_snoc (f := f) (q := ⟨ct, k, .wsMsg, c.reqId, payload⟩) rfl, eq]
            simp [wsMsgs]
          · exact hsame rfl (sessionLog_snoc_other rfl hj)
      | notice j ct' d t t' payload hd _ _ hwait =>
          by_cases hj : k = j
          · subst hj
            rw [conn] at hd
            cases hd
            rw [wait] at hwait
            cases hwait
            subst reqId
            have hgone : Function.update f.conns k none k = none := Function.update_self _ _ _
            refine .told ps payload ⟨h.slots.lt_nconn conn, fun e he => ?_⟩ hgone ?_
            · simp only [Function.update_self, reduceCtorEq] at he
            · rw [sessionLog_snoc (f := f) (q := ⟨ct, k, .wsClose, c.reqId, payload⟩) rfl, eq]
          · exact hsame (Function.update_of_ne hj _ _) (sessionLog_snoc_other rfl hj)
      | alloc j ct' d d' slot slots t t' type payload hd hidle =>
          have hj : k ≠ j := by
            rintro rfl
            rw [conn] at hd
            cases hd
            rw [hidle.inflight] at inflight
            cases inflight
          exact hsame (Function.update_of_ne hj _ _) (sessionLog_snoc_other rfl hj)
      | accept d hd =>
          exact hsame (Function.update_of_ne (Nat.ne_of_lt (h.slots.lt_nconn conn)) _ _) rfl
      | _ => exact hsame rfl rfl

/-- What was lost stays on record. -/
theorem Micro.lost_mono {f f' : Flight} {l : Label} (hm : Micro f l f') (h : f'.lost = []) :
    f.lost = [] := by
  cases hm with
  | lose q => exact absurd h (by simp)
  | _ => exact h

theorem Moves.outcome {P : Label → Prop} {may : Prop} {f f' : Flight} {k : ConnId} {ct : CtrlId}
    {id : Nat} {log : List QueuedFrame} (hm : Moves P f f') (hP : ∀ ct, ¬ P (.drop false ct))
    (hl : P (.letgo k) → may) (h : Inv f) (hw : WaitInv f) (hlost : f'.lost = [])
    (ho : Outcome may k ct id log f) : Outcome may k ct id log f' := by
  have hall : Inv f' ∧ WaitInv f' ∧ (f'.lost = [] → Outcome may k ct id log f') := by
    refine hm.keep (I := fun x => Inv x ∧ WaitInv x ∧ (x.lost = [] → Outcome may k ct id log x))
      ?_ ⟨h, hw, fun _ => ho⟩
    intro a b l hPl hmic ⟨ha, hwa, hoa⟩
    have hlost := fun hb : b.lost = [] => hmic.lost_mono hb
    exact ⟨hmic.inv ha, hmic.waitInv (fun ct hct => hP ct (hct ▸ hPl)) ha.slots hwa,
      fun hb => hmic.outcome ha hwa (hlost hb) (fun hlab => hl (hlab ▸ hPl)) (hoa (hlost hb))⟩
  exact hall.2.2 hlost

-- ============================================================================
-- Sessions that the controller ends
-- ============================================================================

/-- A WebSocket whose session is in flight. -/
structure InSession (f : Flight) (k : ConnId) (c : Conn) (ct : CtrlId) : Prop where
  conn : f.conns k = some c
  ws : c.isWs = true
  inflight : c.inflight = true
  wait : c.waitCtrl = some ct

theorem InSession.outcome {f : Flight} {k : ConnId} {c : Conn} {ct : CtrlId}
    (h : InSession f k c ct) (may : Prop) : Outcome may k ct c.reqId (sessionLog f k) f :=
  .on c [] h.conn h.ws h.inflight h.wait rfl (by simp [wsMsgs])

/-- A session that goes on untouched, or has ended with nothing said. -/
def Silent (f : Flight) (k : ConnId) (c : Conn) (log : List QueuedFrame) : Prop :=
  sessionLog f k = log ∧ (f.conns k = some c ∨ Ended f k)

theorem Silent.ended {P : Label → Prop} {f f' : Flight} {k : ConnId} {c : Conn}
    {log : List QueuedFrame} (hm : Moves P f f') (hlog : sessionLog f k = log) (h : Ended f k) :
    Silent f' k c log := by
  obtain ⟨hended, hlog'⟩ := Moves.ended hm h
  exact ⟨hlog'.trans hlog, Or.inr hended⟩

/-- A step that runs neither `service-rm` nor `service-scale`. -/
def NoRemoval (g : Gateway) : Input → Prop
  | .event e => ∀ cmdline, eventCommand E g e = some cmdline →
      ∀ cmd save, strtokR cmdline = some (cmd, save) →
        cmd ≠ lit "service-rm" ∧ cmd ≠ lit "service-scale"
  | .tick => True

theorem NoRemoval.idleStep {g : Gateway} {i : Input} (h : NoRemoval E g i) : IdleStep E g i := by
  cases i with
  | tick => trivial
  | event e =>
      rintro cmdline hcmd ct ⟨j, ss, htargets, -⟩
      unfold commandTargets at htargets
      split at htargets
      · cases htargets
      · rename_i cmd save htok
        obtain ⟨hrm, hscale⟩ := h cmdline hcmd cmd save htok
        split at htargets
        · cases htargets
        · rw [if_neg hrm, if_neg hscale] at htargets
          cases htargets

theorem ReachableBy.idle {g : Gateway} (h : ReachableBy E (NoRemoval E) g) :
    ReachableBy E (IdleStep E) g := by
  induction h with
  | start g hg => exact .start g hg
  | step g i _ hi ih => exact .step g i ih (hi.idleStep E)

/-- Whether a step ends the session of a connection from the controller's side:
    a frame of a controller frees its slot, or the controller dies or is torn
    down. -/
def ControllerEnds (g : Gateway) (k : ConnId) : Input → Prop
  | .event (.ctrl ct read write i) =>
      ∃ t, g.ctrls ct = some t ∧
        (read = true ∧ framesRelease g.toFlight (framesRead t i.recvs) k ∨
          ctrlDies t read write i ∧ WaitsOn g.toFlight k ct)
  | .event _ => False
  | .tick => g.devWatch = true

theorem Handles.letgo {g : Gateway} {e : Event} {k : ConnId}
    (h : Handles E g true e (.letgo k)) : ControllerEnds g k (.event e) := by
  obtain ⟨cmdline, -, hl | ⟨ct, hl⟩ | ⟨ct, -, hl⟩⟩ | h := h
  · cases hl
  · cases hl
  · cases hl
  · cases e with
    | listen | listenControl | control => simp at h
    | ctrl ct read write i =>
        obtain ⟨t, ht, hl | hl | ⟨hr, j, -, hl⟩ | ⟨hdies, hl⟩⟩ := h
        · cases hl
        · cases hl
        · obtain hl | ⟨hrel, hl⟩ := hl
          · cases hl
          · cases hl
            exact ⟨t, ht, Or.inl ⟨hr, hrel⟩⟩
        · obtain ⟨j, hwaits, hl | ⟨-, hl⟩⟩ | hl := hl
          · cases hl
          · cases hl
            exact ⟨t, ht, Or.inr ⟨hdies, hwaits⟩⟩
          · cases hl
    | client j read write i =>
        obtain hl | hl | ⟨ct, hl⟩ | hl := h
        · cases hl
        · cases hl
        · cases hl
        · cases hl

/-- The client asks for a WebSocket. -/
def helloUpgrade : Input :=
  .event (.client 0 true false { recvs := recvOf (lit
    "GET /hello HTTP/1.1\r\nUpgrade: websocket\r\nSec-WebSocket-Key: a2V5\r\n\r\n") })

/-- The session is open. -/
def helloUpgraded (E : Ext) : Gateway := step E (helloConnected E) helloUpgrade

end Naitron
