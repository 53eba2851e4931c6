/-
  Naitron.Server.Moves

  What the gateway can do to connections, controllers and the slot table, one
  small move at a time.

  `Micro f l f'` says everything a single move can change, guards included;
  the label names the object it touches.  `Moves P` is a sequence of moves
  whose labels all satisfy `P`.  Each function of server.c is shown to be such
  a sequence once, with the strongest `P` it admits (Naitron.Server.ConnEffects
  to Naitron.Server.EventEffects); invariants and frame conditions are then
  shown move by move, here and in the modules that need them.
-/

import Naitron.Server.Loop
import Naitron.Lib.Steps

namespace Naitron

-- ============================================================================
-- Labels
-- ============================================================================

/-- The kinds of move and the object each one touches. -/
inductive Label where
  /-- Fields of a connection other than its place in the slot table. -/
  | tune (k : ConnId)
  /-- The write side of a controller connection. -/
  | queue (ct : CtrlId)
  /-- The read side of a controller connection. -/
  | read (ct : CtrlId)
  /-- A message of a WebSocket is queued to its controller. -/
  | relay (k : ConnId)
  /-- The slot of a connection that goes away is freed. -/
  | release (k : ConnId)
  /-- The slot of a connection is freed for its controller, which answered,
      ended the exchange or died. -/
  | letgo (k : ConnId)
  /-- A connection goes away. -/
  | close (k : ConnId)
  /-- A connection gets a slot and waits on a controller. -/
  | alloc (k : ConnId) (ct : CtrlId)
  /-- A slot is taken and given back at once. -/
  | bounce (k : ConnId)
  /-- A connection is accepted. -/
  | accept (k : ConnId)
  /-- A controller connection comes up. -/
  | spawn (ct : CtrlId)
  /-- A controller connection goes away; `idle` when no request waits on it. -/
  | drop (idle : Bool) (ct : CtrlId)
  /-- A service changes, its controllers do not. -/
  | svc
  /-- A control client is served or goes away. -/
  | operator (cc : CctrlId)
  /-- A control client is accepted. -/
  | greet (cc : CctrlId)
deriving DecidableEq, Repr

/-- The connection a move touches. -/
def Label.conn? : Label → Option ConnId
  | .tune k | .relay k | .release k | .letgo k | .close k | .alloc k _ | .bounce k | .accept k =>
      some k
  | _ => none

/-- Moves that take no slot and bring nothing up. -/
def Label.shrinks : Label → Prop
  | .alloc _ _ | .bounce _ | .accept _ | .spawn _ => False
  | _ => True

-- ============================================================================
-- Moves
-- ============================================================================

/-- What a move on a connection keeps: its place in the slot table, whether it
    is a WebSocket, and that it has left `CS_READ` or has not entered `CS_WS`. -/
structure Keeps (c c' : Conn) : Prop where
  inflight : c'.inflight = c.inflight
  reqId : c'.reqId = c.reqId
  waitCtrl : c'.waitCtrl = c.waitCtrl
  isWs : c'.isWs = c.isWs
  left : c.state ≠ .csRead → c'.state ≠ .csRead
  entered : c'.state = .csWs → c.state = .csWs

/-- A change that leaves the state of the connection alone. -/
theorem Keeps.of_state {c c' : Conn} (hin : c'.inflight = c.inflight) (hid : c'.reqId = c.reqId)
    (hwait : c'.waitCtrl = c.waitCtrl) (hws : c'.isWs = c.isWs) (hst : c'.state = c.state) :
    Keeps c c' :=
  ⟨hin, hid, hwait, hws, fun h => hst ▸ h, fun h => hst ▸ h⟩

/-- What a change of the write side of a controller keeps. -/
structure KeepsCtrl (t t' : Ctrl) : Prop where
  svc : t'.svc = t.svc
  slot : t'.slot = t.slot
  rbuf : t'.rbuf = t.rbuf

/-- A connection whose end is not told to a controller: it is no WebSocket, or
    its controller is gone, or there was no memory for the message. -/
def Unnoticed (f : Flight) (c : Conn) : Prop :=
  c.isWs = true → ∀ ct, c.waitCtrl = some ct → f.ctrls ct = none ∨ f.lost ≠ []

/-- A connection that has not been given to a controller. -/
structure IdleConn (c : Conn) : Prop where
  inflight : c.inflight = false
  waitCtrl : c.waitCtrl = none
  isWs : c.isWs = false

/-- A connection just given to a controller, with a frame of this type. -/
structure Opens (c : Conn) (type : NtcMsgType) (ct : CtrlId) : Prop where
  type : type = if c.isWs then .wsOpen else .request
  inflight : c.inflight = true
  waitCtrl : c.waitCtrl = some ct
  left : c.state ≠ .csRead
  entered : c.state = .csWs → c.isWs = true

/-- Whether some stored request waits on a controller. -/
def Waits (f : Flight) (ct : CtrlId) : Prop :=
  ∃ s k c, f.slots.pending s = some k ∧ f.conns k = some c ∧ c.waitCtrl = some ct

/-- One move. -/
inductive Micro (f : Flight) : Label → Flight → Prop
  | tune (k : ConnId) (c c' : Conn) (hc : f.conns k = some c) (hk : Keeps c c') :
      Micro f (.tune k) { f with conns := Function.update f.conns k (some c') }
  | emit (k : ConnId) (out : Bytes) :
      Micro f (.tune k) { f with sent := Function.update f.sent k out }
  | reply (k : ConnId) (n : Nat) :
      Micro f (.tune k) { f with replies := Function.update f.replies k n }
  | queue (ct : CtrlId) (t t' : Ctrl) (ht : f.ctrls ct = some t) (hk : KeepsCtrl t t') :
      Micro f (.queue ct) { f with ctrls := Function.update f.ctrls ct (some t') }
  | write (ct : CtrlId) (bs : Bytes) :
      Micro f (.queue ct) { f with written := Function.update f.written ct bs }
  | lose (q : QueuedFrame) : Micro f (.queue q.ctrl) { f with lost := f.lost ++ [q] }
  | relay (k : ConnId) (ct : CtrlId) (c : Conn) (t t' : Ctrl) (payload : Bytes)
      (hc : f.conns k = some c) (hws : c.isWs = true) (hin : c.inflight = true)
      (hwait : c.waitCtrl = some ct) (ht : f.ctrls ct = some t) (hk : KeepsCtrl t t') :
      Micro f (.relay k)
        { f with
          ctrls := Function.update f.ctrls ct (some t')
          queued := f.queued ++ [⟨ct, k, .wsMsg, c.reqId, payload⟩] }
  | fill (ct : CtrlId) (t : Ctrl) (rbuf : Bytes) (ht : f.ctrls ct = some t) :
      Micro f (.read ct)
        { f with ctrls := Function.update f.ctrls ct (some { t with rbuf := rbuf }) }
  | receive (ct : CtrlId) (bs : Bytes) :
      Micro f (.read ct) { f with received := Function.update f.received ct bs }
  | deliver (ct : CtrlId) (fs : List WireFrame) :
      Micro f (.read ct) { f with delivered := Function.update f.delivered ct fs }
  | release (k : ConnId) (s : Nat) (c : Conn) (hc : f.conns k = some c)
      (hs : f.slots.pending s = some k ∨ (c.inflight = true ∧ s = idSlot c.reqId))
      (hquiet : Unnoticed f c) :
      Micro f (.release k)
        { f with
          slots := f.slots.free ntcGenWrap s
          conns := Function.update f.conns k (some { c with inflight := false }) }
  | letgo (k : ConnId) (s : Nat) (c : Conn) (hc : f.conns k = some c)
      (hs : f.slots.pending s = some k ∨ (c.inflight = true ∧ s = idSlot c.reqId)) :
      Micro f (.letgo k)
        { f with
          slots := f.slots.free ntcGenWrap s
          conns := Function.update f.conns k (some { c with inflight := false }) }
  | notice (k : ConnId) (ct : CtrlId) (c : Conn) (t t' : Ctrl) (payload : Bytes)
      (hc : f.conns k = some c) (hws : c.isWs = true) (hin : c.inflight = true)
      (hwait : c.waitCtrl = some ct) (ht : f.ctrls ct = some t) (hk : KeepsCtrl t t') :
      Micro f (.close k)
        { f with
          ctrls := Function.update f.ctrls ct (some t')
          queued := f.queued ++ [⟨ct, k, .wsClose, c.reqId, payload⟩]
          slots := f.slots.free ntcGenWrap (idSlot c.reqId)
          conns := Function.update f.conns k none }
  | close (k : ConnId) (hc : ∀ c, f.conns k = some c → c.inflight = false) :
      Micro f (.close k) { f with conns := Function.update f.conns k none }
  | alloc (k : ConnId) (ct : CtrlId) (c c' : Conn) (slot : Nat) (slots : Lib.GenTable ConnId)
      (t t' : Ctrl) (type : NtcMsgType) (payload : Bytes)
      (hc : f.conns k = some c) (hidle : IdleConn c)
      (ha : f.slots.alloc k = some (slot, slots)) (hopen : Opens c' type ct)
      (hid : c'.reqId = encodeId (f.slots.gen slot) slot)
      (hlive : ∃ i s, slotAt f i s = some ct) (ht : f.ctrls ct = some t) (hk : KeepsCtrl t t') :
      Micro f (.alloc k ct)
        { f with
          conns := Function.update f.conns k (some c')
          slots := slots
          issued := ⟨c'.reqId, k, f.slots.freed slot⟩ :: f.issued
          ctrls := Function.update f.ctrls ct (some t')
          queued := f.queued ++ [⟨ct, k, type, c'.reqId, payload⟩] }
  | bounce (k : ConnId) (slot : Nat) (slots : Lib.GenTable ConnId)
      (ha : f.slots.alloc k = some (slot, slots)) :
      Micro f (.bounce k)
        { f with
          slots := slots.free ntcGenWrap (idSlot (encodeId (f.slots.gen slot) slot))
          issued := ⟨encodeId (f.slots.gen slot) slot, k, f.slots.freed slot⟩ :: f.issued }
  | accept (c : Conn) (hc : IdleConn c) (hst : c.state ≠ .csWs) :
      Micro f (.accept f.nconn)
        { f with
          conns := Function.update f.conns f.nconn (some c)
          nconn := f.nconn + 1
          replies := Function.update f.replies f.nconn 0
          sent := Function.update f.sent f.nconn [] }
  | spawn (i s : Nat) (services : List Service) (hs : s < ntcMaxReplicas)
      (hfree : slotAt f i s = none)
      (hset : ∀ i' s', slotAt { f with services := services } i' s' =
        if i' = i ∧ s' = s then some f.nctrl else slotAt f i' s') :
      Micro f (.spawn f.nctrl)
        { f with
          services := services
          ctrls := Function.update f.ctrls f.nctrl (some { svc := i, slot := s })
          nctrl := f.nctrl + 1
          received := Function.update f.received f.nctrl []
          delivered := Function.update f.delivered f.nctrl []
          written := Function.update f.written f.nctrl [] }
  | drop (idle : Bool) (ct : CtrlId) (services : List Service)
      (hidle : idle = true → ¬ Waits f ct)
      (hset : ∀ i s ct', slotAt { f with services := services } i s = some ct' ↔
        slotAt f i s = some ct' ∧ ct' ≠ ct) :
      Micro f (.drop idle ct)
        { f with services := services, ctrls := Function.update f.ctrls ct none }
  | svc (services : List Service)
      (hsame : ∀ i s, slotAt { f with services := services } i s = slotAt f i s) :
      Micro f .svc { f with services := services }
  | operator (cc : CctrlId) (x : Option Cctrl) :
      Micro f (.operator cc) { f with cctrls := Function.update f.cctrls cc x }
  | greet :
      Micro f (.greet f.ncctrl)
        { f with
          cctrls := Function.update f.cctrls f.ncctrl (some {})
          ncctrl := f.ncctrl + 1 }

/-- A sequence of moves with labels in `P`. -/
abbrev Moves (P : Label → Prop) : Flight → Flight → Prop := Lib.Steps Micro P

/-! ## Frame conditions -/

/-- What belongs to a connection. -/
def SameConn (k : ConnId) (f f' : Flight) : Prop :=
  f'.conns k = f.conns k ∧ f'.sent k = f.sent k ∧ f'.replies k = f.replies k

theorem Micro.sameConn {f f' : Flight} {l : Label} {k : ConnId} (h : Micro f l f')
    (hl : l.conn? ≠ some k) : SameConn k f f' := by
  have hne : ∀ {j : ConnId}, l.conn? = some j → k ≠ j := by
    rintro j hj rfl
    exact hl hj
  cases h with
  | tune j c c' => exact ⟨Function.update_of_ne (hne rfl) _ _, rfl, rfl⟩
  | emit j => exact ⟨rfl, Function.update_of_ne (hne rfl) _ _, rfl⟩
  | reply j => exact ⟨rfl, rfl, Function.update_of_ne (hne rfl) _ _⟩
  | release j => exact ⟨Function.update_of_ne (hne rfl) _ _, rfl, rfl⟩
  | letgo j => exact ⟨Function.update_of_ne (hne rfl) _ _, rfl, rfl⟩
  | notice j => exact ⟨Function.update_of_ne (hne rfl) _ _, rfl, rfl⟩
  | close j => exact ⟨Function.update_of_ne (hne rfl) _ _, rfl, rfl⟩
  | alloc j => exact ⟨Function.update_of_ne (hne rfl) _ _, rfl, rfl⟩
  | accept =>
      exact ⟨Function.update_of_ne (hne rfl) _ _, Function.update_of_ne (hne rfl) _ _,
        Function.update_of_ne (hne rfl) _ _⟩
  | _ => exact ⟨rfl, rfl, rfl⟩

/-- Moves that do not name a connection leave it alone. -/
theorem Moves.sameConn {P : Label → Prop} {f f' : Flight} {k : ConnId} (h : Moves P f f')
    (hP : ∀ l, P l → l.conn? ≠ some k) : SameConn k f f' :=
  h.keep (I := fun x => SameConn k f x)
    (fun hl hm hs => by
      obtain ⟨h1, h2, h3⟩ := hm.sameConn (hP _ hl)
      exact ⟨h1.trans hs.1, h2.trans hs.2.1, h3.trans hs.2.2⟩)
    ⟨rfl, rfl, rfl⟩

/-- A controller that is there stays there unless it is dropped. -/
theorem Micro.ctrl_isSome {f f' : Flight} {l : Label} {ct : CtrlId} (h : Micro f l f')
    (hl : ∀ idle, l ≠ .drop idle ct) (hct : (f.ctrls ct).isSome) : (f'.ctrls ct).isSome := by
  cases h with
  | queue j =>
      by_cases hj : ct = j
      · subst hj; simp
      · simpa [Function.update_of_ne hj] using hct
  | relay k j | notice k j | alloc k j =>
      by_cases hj : ct = j
      · subst hj; simp
      · simpa [Function.update_of_ne hj] using hct
  | fill j =>
      by_cases hj : ct = j
      · subst hj; simp
      · simpa [Function.update_of_ne hj] using hct
  | spawn =>
      by_cases hj : ct = f.nctrl
      · subst hj; simp
      · simpa [Function.update_of_ne hj] using hct
  | drop idle j =>
      have hj : ct ≠ j := fun hj => hl idle (by rw [hj])
      simpa [Function.update_of_ne hj] using hct
  | _ => exact hct

theorem Moves.ctrl_isSome {P : Label → Prop} {f f' : Flight} {ct : CtrlId} (h : Moves P f f')
    (hP : ∀ l, P l → ∀ idle, l ≠ .drop idle ct) (hct : (f.ctrls ct).isSome) :
    (f'.ctrls ct).isSome :=
  h.keep (I := fun x => (x.ctrls ct).isSome) (fun hl hm hs => hm.ctrl_isSome (hP _ hl) hs) hct

/-- A connection that is there stays there unless it is closed. -/
theorem Micro.conn_isSome {f f' : Flight} {l : Label} {k : ConnId} (h : Micro f l f')
    (hl : l ≠ .close k) (hk : (f.conns k).isSome) : (f'.conns k).isSome := by
  cases h with
  | tune j =>
      by_cases hj : k = j
      · subst hj; simp
      · simpa [Function.update_of_ne hj] using hk
  | release j | letgo j =>
      by_cases hj : k = j
      · subst hj; simp
      · simpa [Function.update_of_ne hj] using hk
  | close j | notice j =>
      have hj : k ≠ j := fun hj => hl (by rw [hj])
      simpa [Function.update_of_ne hj] using hk
  | alloc j =>
      by_cases hj : k = j
      · subst hj; simp
      · simpa [Function.update_of_ne hj] using hk
  | accept =>
      by_cases hj : k = f.nconn
      · subst hj; simp
      · simpa [Function.update_of_ne hj] using hk
  | _ => exact hk

theorem Moves.conn_isSome {P : Label → Prop} {f f' : Flight} {k : ConnId} (h : Moves P f f')
    (hP : ∀ l, P l → l ≠ .close k) (hk : (f.conns k).isSome) : (f'.conns k).isSome :=
  h.keep (I := fun x => (x.conns k).isSome) (fun hl hm hs => hm.conn_isSome (hP _ hl) hs) hk

/-- Only serving a control client can end it. -/
theorem Micro.cctrl_isSome {f f' : Flight} {l : Label} {cc : CctrlId} (h : Micro f l f')
    (hl : l ≠ .operator cc) (hcc : (f.cctrls cc).isSome) : (f'.cctrls cc).isSome := by
  cases h with
  | operator j =>
      have hj : cc ≠ j := fun hj => hl (by rw [hj])
      simpa [Function.update_of_ne hj] using hcc
  | greet =>
      by_cases hj : cc = f.ncctrl
      · subst hj; simp
      · simpa [Function.update_of_ne hj] using hcc
  | _ => exact hcc

theorem Moves.cctrl_isSome {P : Label → Prop} {f f' : Flight} {cc : CctrlId} (h : Moves P f f')
    (hP : ∀ l, P l → l ≠ .operator cc) (hcc : (f.cctrls cc).isSome) : (f'.cctrls cc).isSome :=
  h.keep (I := fun x => (x.cctrls cc).isSome) (fun hl hm hs => hm.cctrl_isSome (hP _ hl) hs) hcc

/-- Without a slot taken, the table only loses entries, and a slot still
    occupied has its old generation. -/
theorem Micro.pending_shrinks {f f' : Flight} {l : Label} {s : Nat} {k : ConnId}
    (h : Micro f l f') (hl : l.shrinks) (hs : f'.slots.pending s = some k) :
    f.slots.pending s = some k ∧ f'.slots.gen s = f.slots.gen s := by
  cases h with
  | release | letgo | notice => exact (Lib.GenTable.free_pending_some hs).2
  | alloc => exact absurd hl (by simp [Label.shrinks])
  | bounce => exact absurd hl (by simp [Label.shrinks])
  | _ => exact ⟨hs, rfl⟩

theorem Moves.pending_shrinks {P : Label → Prop} {f f' : Flight} (h : Moves P f f')
    (hP : ∀ l, P l → l.shrinks) {s : Nat} {k : ConnId} (hs : f'.slots.pending s = some k) :
    f.slots.pending s = some k ∧ f'.slots.gen s = f.slots.gen s := by
  induction h with
  | refl => exact ⟨hs, rfl⟩
  | tail _ hm ih =>
      obtain ⟨l, hl, hm⟩ := hm
      obtain ⟨hb, hgb⟩ := hm.pending_shrinks (hP l hl) hs
      obtain ⟨ha, hga⟩ := ih hb
      exact ⟨ha, hgb.trans hga⟩

/-- Without a slot taken, no connection changes the controller it waits on. -/
theorem Micro.waitCtrl_shrinks {f f' : Flight} {l : Label} {k : ConnId} {c' : Conn}
    (h : Micro f l f') (hl : l.shrinks) (hc : f'.conns k = some c') :
    ∃ c, f.conns k = some c ∧ c'.waitCtrl = c.waitCtrl := by
  cases h with
  | tune j c d hj hk =>
      by_cases hkj : k = j
      · subst hkj
        simp only [Function.update_self] at hc
        cases hc
        exact ⟨c, hj, hk.waitCtrl⟩
      · simp only [Function.update_of_ne hkj] at hc
        exact ⟨c', hc, rfl⟩
  | release j s c hj | letgo j s c hj =>
      by_cases hkj : k = j
      · subst hkj
        simp only [Function.update_self] at hc
        cases hc
        exact ⟨c, hj, rfl⟩
      · simp only [Function.update_of_ne hkj] at hc
        exact ⟨c', hc, rfl⟩
  | close j | notice j =>
      by_cases hkj : k = j
      · subst hkj
        simp only [Function.update_self] at hc
        cases hc
      · simp only [Function.update_of_ne hkj] at hc
        exact ⟨c', hc, rfl⟩
  | alloc => exact absurd hl (by simp [Label.shrinks])
  | accept => exact absurd hl (by simp [Label.shrinks])
  | _ => exact ⟨c', hc, rfl⟩

theorem Moves.waitCtrl_shrinks {P : Label → Prop} {f f' : Flight} (h : Moves P f f')
    (hP : ∀ l, P l → l.shrinks) {k : ConnId} {c' : Conn} (hc : f'.conns k = some c') :
    ∃ c, f.conns k = some c ∧ c'.waitCtrl = c.waitCtrl := by
  induction h generalizing c' with
  | refl => exact ⟨c', hc, rfl⟩
  | tail _ hm ih =>
      obtain ⟨l, hl, hm⟩ := hm
      obtain ⟨c, hb, hw⟩ := hm.waitCtrl_shrinks (hP l hl) hc
      obtain ⟨d, ha, hw'⟩ := ih hb
      exact ⟨d, ha, hw.trans hw'⟩

end Naitron
