/-
  Naitron.Server.EventEffects

  Poll events as moves.

  `eventCommand` is the control command an event runs, read off the state
  before the event; `Handles` is everything the event can do.  From it follow
  the invariants of every run: `Reachable.inv` without any condition, and
  `WaitInv` for runs whose commands destroy idle controllers only.
-/

import Naitron.Server.DispatchEffects

namespace Naitron

variable (E : Ext)

-- ============================================================================
-- Client events
-- ============================================================================

/-- The connection, if it is there, is a WebSocket. -/
def StillWs (f : Flight) (k : ConnId) : Prop := ∀ c, f.conns k = some c → c.isWs = true

theorem Moves.own_stillWs {f f' : Flight} {k : ConnId} (hm : Moves (Own k) f f')
    (h : StillWs f k) : StillWs f' k := by
  refine hm.keep (I := fun x => StillWs x k) (fun hl hm hs c' hc' => ?_) h
  obtain ⟨c, hc, hk | rfl⟩ := hm.own_conn hl hc'
  · exact hk.isWs.trans (hs c hc)
  · exact hs c hc

/-- A message of a WebSocket in flight, queued to its controller. -/
theorem relay_moves {g : Gateway} {k : ConnId} {c : Conn} {ct : CtrlId} (hc : g.conns k = some c)
    (hws : c.isWs = true) (hin : c.inflight = true) (hwait : c.waitCtrl = some ct)
    (payload : Bytes) :
    Moves (Own k) g.toFlight (ctrlQueue E g ct k .wsMsg c.reqId payload).2.toFlight := by
  rcases ctrlQueue_cases E g ct k .wsMsg c.reqId payload with
    ⟨t, t', ht, hk, -, heq⟩ | ⟨-, -, heq⟩ | ⟨-, heq⟩
  · rw [heq]
    exact .one (.relay k ct c t t' payload hc hws hin hwait ht hk) rfl
  · exact .of_eq heq
  · rw [heq]
    exact .one (.lose ⟨ct, k, .wsMsg, c.reqId, payload⟩) trivial

theorem onWsFrame_moves {g : Gateway} {k : ConnId} (h : StillWs g.toFlight k) (f : WsFrame) :
    Moves (Own k) g.toFlight (onWsFrame E g k f).2.toFlight := by
  unfold onWsFrame
  split
  · exact connClose_moves E g k
  · split
    · dsimp only
      split
      · exact .refl _
      · exact streamPush_moves E g k _
    · split
      · exact .refl _
      · split
        · exact .refl _
        · rename_i c hc
          split
          · exact .refl _
          · rename_i ct hwait
            split
            · exact .refl _
            · rename_i hin
              dsimp only
              split
              · exact .refl _
              · split
                · exact .refl _
                · exact relay_moves E (g := (g.ask E).2) hc (h c hc) (by simpa using hin) hwait _

theorem wsLoop_moves (k : ConnId) :
    ∀ (fuel : Nat) (g : Gateway) (buf : Bytes), StillWs g.toFlight k →
      Moves (Own k) g.toFlight (wsLoop E k fuel g buf).2.toFlight := by
  intro fuel
  induction fuel with
  | zero =>
      intro g buf _
      exact modConn_moves' fun c => .of_state rfl rfl rfl rfl rfl
  | succ fuel ih =>
      intro g buf h
      rw [wsLoop]
      split
      · refine modConn_moves' ?_
        exact fun c => .of_state rfl rfl rfl rfl rfl
      · exact connClose_moves E g k
      · rename_i f consumed _
        have hframe := onWsFrame_moves E h f
        split
        · rename_i hres
          exact Moves.of_result hres hframe
        · rename_i hres
          have hframe' := Moves.of_result hres hframe
          exact hframe'.trans (ih _ _ (Moves.own_stillWs hframe' h))

theorem onWsReadable_moves {g : Gateway} {k : ConnId} (h : StillWs g.toFlight k)
    (rs : List RecvResult) : Moves (Own k) g.toFlight (onWsReadable E g k rs).2.toFlight := by
  unfold onWsReadable
  split
  · exact .refl _
  · split
    · exact connClose_moves E g k
    · exact wsLoop_moves E k _ g _ h

theorem onWaitReadable_moves (g : Gateway) (k : ConnId) (rs : List RecvResult) :
    Moves (Own k) g.toFlight (onWaitReadable E g k rs).toFlight := by
  unfold onWaitReadable
  split
  · exact connClose_moves E g k
  · exact connClose_moves E g k
  · exact .refl _

theorem requestCommand_modConn (g : Gateway) (k : ConnId) (F : Conn → Conn) (c : Conn)
    (eof : Bool) : requestCommand E (g.modConn k F) c eof = requestCommand E g c eof := by
  unfold Gateway.modConn
  split <;> rfl

/-- Serving the bytes that were just put into a connection's buffer. -/
theorem processBuffered_moves {g : Gateway} (h : Inv g.toFlight) {k : ConnId} {c : Conn}
    (hc : g.conns k = some c) (hconn : IdleConn c) (buf : Bytes) (eof idle : Bool)
    (hidle : idle = true →
      IdleCommand g.toFlight (requestCommand E g { c with rbuf := buf } eof)) :
    Moves (Admins g.toFlight idle k (requestCommand E g { c with rbuf := buf } eof)) g.toFlight
      (processRequest E (g.modConn k fun c => { c with rbuf := buf }) k eof).2.toFlight := by
  have hfill : Moves (Own k) g.toFlight (g.modConn k fun c => { c with rbuf := buf }).toFlight :=
    modConn_moves' fun c => .of_state rfl rfl rfl rfl rfl
  have hconn' : (g.modConn k fun c => { c with rbuf := buf }).conns k =
      some { c with rbuf := buf } := by
    simp [Gateway.modConn, hc]
  rw [← requestCommand_modConn E g k fun c => { c with rbuf := buf }] at hidle ⊢
  refine (own_admins hfill).trans ((processRequest_moves E (Moves.inv hfill h) hconn'
    ⟨hconn.inflight, hconn.waitCtrl, hconn.isWs⟩ eof idle fun hi => (hidle hi).own hfill).mono ?_)
  rintro l (hl | ⟨cmdline, hcl, hl⟩)
  · exact Or.inl hl
  · exact Or.inr ⟨cmdline, hcl, hl.own hfill⟩

/-- The control command a readable plaintext connection runs. -/
def readCommand (g : Gateway) (c : Conn) (rs : List RecvResult) : Option Bytes :=
  match connRecv rs c.rbuf with
  | (.failed, _) => none
  | (.eof, buf) => requestCommand E g { c with rbuf := buf } true
  | (.open, buf) => requestCommand E g { c with rbuf := buf } false

theorem onReadable_moves {g : Gateway} (h : Inv g.toFlight) {k : ConnId} {c : Conn}
    (hc : g.conns k = some c) (hconn : IdleConn c) (rs : List RecvResult) (idle : Bool)
    (hidle : idle = true → IdleCommand g.toFlight (readCommand E g c rs)) :
    Moves (Admins g.toFlight idle k (readCommand E g c rs)) g.toFlight
      (onReadable E g k rs).2.toFlight := by
  unfold onReadable
  simp only [hc]
  unfold readCommand at hidle ⊢
  rcases hr : connRecv rs c.rbuf with ⟨e, buf⟩
  rw [hr] at hidle
  cases e with
  | failed => exact own_admins (connClose_moves E g k)
  | eof => exact processBuffered_moves E h hc hconn buf true idle hidle
  | «open» => exact processBuffered_moves E h hc hconn buf false idle hidle

/-- The control command a TLS event runs. -/
def tlsCommand (g : Gateway) (c : Conn) (i : TlsInput) : Option Bytes :=
  if tlsRecv i.plain c.rbuf = c.rbuf ∧ i.closed = false then none
  else requestCommand E g { c with rbuf := tlsRecv i.plain c.rbuf } i.closed

theorem tlsDriveRead_moves {g : Gateway} (h : Inv g.toFlight) {k : ConnId} {c : Conn}
    (hc : g.conns k = some c) (hconn : IdleConn c) (i : TlsInput) (idle : Bool)
    (hidle : idle = true → IdleCommand g.toFlight (tlsCommand E g c i)) :
    Moves (Admins g.toFlight idle k (tlsCommand E g c i)) g.toFlight
      (tlsDriveRead E g k c i).2.toFlight := by
  unfold tlsDriveRead
  unfold tlsCommand at hidle ⊢
  dsimp only
  split
  · exact .refl _
  · rename_i hmore
    rw [if_neg hmore] at hidle
    exact processBuffered_moves E h hc hconn _ i.closed idle hidle

/-- The control command an event on a client connection runs. -/
def clientCommand (g : Gateway) (c : Conn) (read : Bool) (i : ClientInput) : Option Bytes :=
  if c.state ≠ .csRead then none
  else if c.tls then if i.tls.pumpOk then tlsCommand E g c i.tls else none
  else if read then readCommand E g c i.recvs
  else none

theorem tlsDrive_moves {g : Gateway} (h : Inv g.toFlight) {k : ConnId} {c : Conn}
    (hc : g.conns k = some c) (htls : c.tls = true) (read : Bool) {i : ClientInput}
    (hpump : i.tls.pumpOk = true) (idle : Bool)
    (hidle : idle = true → IdleCommand g.toFlight (clientCommand E g c read i)) :
    Moves (Admins g.toFlight idle k (clientCommand E g c read i)) g.toFlight
      (tlsDrive E g k c i.tls).2.toFlight := by
  unfold tlsDrive
  cases hst : c.state with
  | csRead =>
      have hcmd : clientCommand E g c read i = tlsCommand E g c i.tls := by
        simp [clientCommand, hst, htls, hpump]
      rw [hcmd] at hidle ⊢
      exact tlsDriveRead_moves E h hc ((h.phase k c hc).reading hst) i.tls idle hidle
  | csWait =>
      dsimp only
      split
      · exact own_admins (connClose_moves E g k)
      · exact .refl _
  | csWrite | csStream | csWs => exact own_admins (tlsDriveWrite_moves E g k c)

theorem onTlsEvent_moves {g : Gateway} (h : Inv g.toFlight) {k : ConnId} {c : Conn}
    (hc : g.conns k = some c) (htls : c.tls = true) (read : Bool) (i : ClientInput) (idle : Bool)
    (hidle : idle = true → IdleCommand g.toFlight (clientCommand E g c read i)) :
    Moves (Admins g.toFlight idle k (clientCommand E g c read i)) g.toFlight
      (onTlsEvent E g k i.tls).toFlight := by
  unfold onTlsEvent
  simp only [hc]
  cases hpump : i.tls.pumpOk with
  | false => exact own_admins (connClose_moves E g k)
  | true =>
      have hdrive := tlsDrive_moves E h hc htls read hpump idle hidle
      simp only [Bool.not_true, Bool.false_eq_true, if_false]
      split
      · rename_i hres
        exact Moves.of_result hres hdrive
      · rename_i hres
        exact (Moves.of_result hres hdrive).trans (own_admins (tlsSetInterest_moves E _ k))

/-- A write, and a read unless the write closed the connection. -/
theorem writeThenRead_moves (g : Gateway) (k : ConnId) (write : Bool) {R : Gateway → Gateway}
    (hR : ∀ g', Moves (Own k) g.toFlight g'.toFlight → Moves (Own k) g'.toFlight (R g').toFlight) :
    Moves (Own k) g.toFlight
      (match (if write then onWritable E g k else (.zero, g)) with
        | (.neg, g) => g
        | (.zero, g) => R g).toFlight := by
  have hw : Moves (Own k) g.toFlight
      (if write then onWritable E g k else (.zero, g)).2.toFlight := by
    split
    · exact onWritable_moves E g k
    · exact .refl _
  split
  · rename_i hres
    exact Moves.of_result hres hw
  · rename_i hres
    have hw' := Moves.of_result hres hw
    exact hw'.trans (hR _ hw')

/-- A plaintext connection whose request has been read minds its own
    business. -/
theorem onClientEvent_own {g : Gateway} (h : Inv g.toFlight) {k : ConnId} {c : Conn}
    (hc : g.conns k = some c) (htls : c.tls = false) (hst : c.state ≠ .csRead)
    (read write : Bool) (i : ClientInput) :
    Moves (Own k) g.toFlight (onClientEvent E g k read write i).toFlight := by
  unfold onClientEvent
  simp only [hc, htls, Bool.false_eq_true, if_false]
  cases hcase : c.state with
  | csRead => exact absurd hcase hst
  | csWait =>
      dsimp only
      split
      · exact onWaitReadable_moves E g k i.recvs
      · exact .refl _
  | csStream =>
      refine writeThenRead_moves E g k write fun g' _ => ?_
      split
      · exact onWaitReadable_moves E g' k i.recvs
      · exact .refl _
  | csWs =>
      have hws : StillWs g.toFlight k := fun d hd => (h.phase k d hd).ws (by
        rw [hc] at hd
        cases hd
        exact hcase)
      refine writeThenRead_moves E g k write fun g' hw => ?_
      split
      · exact onWsReadable_moves E (Moves.own_stillWs hw hws) i.recvs
      · exact .refl _
  | csWrite =>
      dsimp only
      split
      · exact onWritable_moves E g k
      · exact .refl _

theorem onClientEvent_moves {g : Gateway} (h : Inv g.toFlight) {k : ConnId} {c : Conn}
    (hc : g.conns k = some c) (read write : Bool) (i : ClientInput) (idle : Bool)
    (hidle : idle = true → IdleCommand g.toFlight (clientCommand E g c read i)) :
    Moves (Admins g.toFlight idle k (clientCommand E g c read i)) g.toFlight
      (onClientEvent E g k read write i).toFlight := by
  cases htls : c.tls with
  | true =>
      unfold onClientEvent
      simp only [hc, htls, if_true]
      exact onTlsEvent_moves E h hc htls read i idle hidle
  | false =>
      by_cases hst : c.state = .csRead
      · unfold onClientEvent
        simp only [hc, htls, hst, Bool.false_eq_true, if_false]
        cases read with
        | false => exact .refl _
        | true =>
            have hcmd : clientCommand E g c true i = readCommand E g c i.recvs := by
              simp [clientCommand, hst, htls]
            rw [hcmd] at hidle ⊢
            exact onReadable_moves E h hc ((h.phase k c hc).reading hst) i.recvs idle hidle
      · exact own_admins (onClientEvent_own E h hc htls hst read write i)

-- ============================================================================
-- Other events
-- ============================================================================

theorem acceptConns_moves (g : Gateway) (isAdmin isTls : Bool) (as : List Accepted) :
    Moves (fun l => ∃ k, l = .accept k) g.toFlight
      (acceptConns g isAdmin isTls as).toFlight := by
  refine (Lib.Steps.foldl Gateway.toFlight (I := fun _ => True) as g trivial ?_).1
  intro a _ x _
  refine ⟨?_, trivial⟩
  unfold acceptConn
  split
  · exact .one (.accept _ ⟨rfl, rfl, rfl⟩ (by simp)) ⟨_, rfl⟩
  · exact .refl _

theorem acceptCctrls_moves (g : Gateway) (oks : List Bool) :
    Moves (fun l => ∃ cc, l = .greet cc) g.toFlight (oks.foldl acceptCctrl g).toFlight := by
  refine (Lib.Steps.foldl Gateway.toFlight (I := fun _ => True) oks g trivial ?_).1
  intro a _ ok _
  refine ⟨?_, trivial⟩
  unfold acceptCctrl
  split
  · exact .one .greet ⟨_, rfl⟩
  · exact .refl _

/-- The control command a line from a control client runs. -/
def controlReadCommand (g : Gateway) (x : Cctrl) (rs : List RecvResult) : Option Bytes :=
  match controlRecv rs x.buf with
  | .line buf => controlCommand g.token.bytes buf
  | _ => none

theorem dropCctrl_moves (g : Gateway) (cc : CctrlId) :
    Moves (· = .operator cc) g.toFlight (dropCctrl g cc).toFlight :=
  .one (.operator cc none) rfl

theorem onControlReadable_moves {g : Gateway} (h : Inv g.toFlight) {cc : CctrlId} {x : Cctrl}
    (hx : g.cctrls cc = some x) (rs : List RecvResult) (idle : Bool)
    (hidle : idle = true → IdleCommand g.toFlight (controlReadCommand g x rs)) :
    Moves (fun l => (∃ cmdline, controlReadCommand g x rs = some cmdline ∧
        Commands g.toFlight idle cmdline l) ∨ l = .operator cc)
      g.toFlight (onControlReadable E g cc rs).toFlight := by
  unfold onControlReadable
  simp only [hx]
  unfold controlReadCommand at hidle ⊢
  cases hread : controlRecv rs x.buf with
  | gone => exact (dropCctrl_moves g cc).mono fun l hl => Or.inr hl
  | wait buf => exact .one (.operator cc _) (Or.inr rfl)
  | line buf =>
      rw [hread] at hidle
      dsimp only at hidle ⊢
      unfold processControl
      cases hcmd : controlCommand g.token.bytes buf with
      | none => exact (dropCctrl_moves g cc).mono fun l hl => Or.inr hl
      | some cmdline =>
          have hexec := execControlCommand_moves E h cmdline idle
            fun hi ct hct => hidle hi cmdline hcmd ct hct
          exact (hexec.mono fun l hl => Or.inl ⟨cmdline, rfl, hl⟩).trans
            ((dropCctrl_moves _ cc).mono fun l hl => Or.inr hl)

/-- Whether an event of a controller ends with its death. -/
def ctrlDies (t : Ctrl) (read write : Bool) (i : CtrlInput) : Prop :=
  read = true ∧ readKills t i.recvs = true ∨ write = true ∧ SendResult.error ∈ i.sends

/-- What an event of a controller does. -/
def CtrlOwn (f : Flight) (ct : CtrlId) (t : Ctrl) (read write : Bool) (i : CtrlInput)
    (l : Label) : Prop :=
  l = .read ct ∨ l = .queue ct ∨ (read = true ∧ FrameOwn f (framesRead t i.recvs) l) ∨
    ctrlDies t read write i ∧ DeathOwn f ct l

theorem CtrlOwn.shrinks {f : Flight} {ct : CtrlId} {t : Ctrl} {read write : Bool} {i : CtrlInput}
    {l : Label} (h : CtrlOwn f ct t read write i l) : l.shrinks := by
  obtain rfl | rfl | ⟨-, k, -, hl⟩ | ⟨-, hl | rfl⟩ := h
  · trivial
  · trivial
  · exact hl.shrinks
  · exact hl.shrinks
  · trivial

theorem onCtrlEvent_moves {g : Gateway} (h : Inv g.toFlight) {ct : CtrlId} {t : Ctrl}
    (ht : g.ctrls ct = some t) (read write : Bool) (i : CtrlInput) :
    Moves (CtrlOwn g.toFlight ct t read write i) g.toFlight
      (onCtrlEvent E g ct read write i).toFlight := by
  have hread : Moves (CtrlOwn g.toFlight ct t read write i) g.toFlight
      (if read then onCtrlReadable E g ct i.recvs else (.zero, g)).2.toFlight := by
    split
    · rename_i hr
      refine (onCtrlReadable_moves E h ht i.recvs).mono ?_
      rintro l ((hl | hl) | ⟨hkill, hl⟩)
      · exact Or.inl hl
      · exact Or.inr (Or.inr (Or.inl ⟨hr, hl⟩))
      · exact Or.inr (Or.inr (Or.inr ⟨Or.inl ⟨hr, hkill⟩, hl⟩))
    · exact .refl _
  unfold onCtrlEvent
  split
  · rename_i hres
    exact Moves.of_result hres hread
  · rename_i hres
    have hread := Moves.of_result hres hread
    split
    · rename_i hw
      refine hread.trans ((onCtrlWritable_moves E (Moves.inv hread h) ct i.sends).mono ?_)
      rintro l (hl | ⟨herr, hl⟩)
      · exact Or.inr (Or.inl hl)
      · exact Or.inr (Or.inr (Or.inr ⟨Or.inr ⟨hw, herr⟩, hl.pull hread fun l hl => hl.shrinks⟩))
    · exact hread

-- ============================================================================
-- All events
-- ============================================================================

/-- The control command an event runs. -/
def eventCommand (g : Gateway) : Event → Option Bytes
  | .control cc read rs =>
      if read then (g.cctrls cc).bind fun x => controlReadCommand g x rs else none
  | .client k read _ i => (g.conns k).bind fun c => clientCommand E g c read i
  | _ => none

/-- Everything an event can do. -/
def Handles (g : Gateway) (idle : Bool) (e : Event) (l : Label) : Prop :=
  (∃ cmdline, eventCommand E g e = some cmdline ∧ Commands g.toFlight idle cmdline l) ∨
    match e with
    | .listen _ _ _ => ∃ k, l = .accept k
    | .listenControl _ => ∃ cc, l = .greet cc
    | .control cc _ _ => l = .operator cc
    | .ctrl ct read write i => ∃ t, g.ctrls ct = some t ∧ CtrlOwn g.toFlight ct t read write i l
    | .client k _ _ _ => Serve k l

/-- Handling an event is a sequence of the moves that `Handles` lists. -/
theorem handleEvent_moves {g : Gateway} (h : Inv g.toFlight) (e : Event) (idle : Bool)
    (hidle : idle = true → IdleCommand g.toFlight (eventCommand E g e)) :
    Moves (Handles E g idle e) g.toFlight (handleEvent E g e).toFlight := by
  cases e with
  | listen isAdmin isTls as =>
      exact (acceptConns_moves g isAdmin isTls as).mono fun l hl => Or.inr hl
  | listenControl oks => exact (acceptCctrls_moves g oks).mono fun l hl => Or.inr hl
  | control cc read rs =>
      unfold handleEvent
      dsimp only
      split
      · rename_i hr
        cases hx : g.cctrls cc with
        | none =>
            unfold onControlReadable
            rw [hx]
            exact .refl _
        | some x =>
            have hcmd : eventCommand E g (.control cc read rs) = controlReadCommand g x rs := by
              simp [eventCommand, hr, hx]
            rw [hcmd] at hidle
            refine (onControlReadable_moves E h hx rs idle hidle).mono fun l hl => ?_
            unfold Handles
            rw [hcmd]
            exact hl
      · exact .refl _
  | ctrl ct read write i =>
      cases ht : g.ctrls ct with
      | none =>
          refine .of_eq ?_
          simp only [handleEvent, onCtrlEvent, onCtrlReadable, onCtrlWritable, ht]
          cases read <;> cases write <;> simp [ht]
      | some t => exact (onCtrlEvent_moves E h ht read write i).mono fun l hl => Or.inr ⟨t, ht, hl⟩
  | client k read write i =>
      cases hc : g.conns k with
      | none =>
          refine .of_eq ?_
          simp only [handleEvent, onClientEvent, hc]
      | some c =>
          have hcmd : eventCommand E g (.client k read write i) = clientCommand E g c read i := by
            simp [eventCommand, hc]
          rw [hcmd] at hidle
          refine (onClientEvent_moves E h hc read write i idle hidle).mono ?_
          rintro l (hl | ⟨cmdline, hcl, hl⟩)
          · exact Or.inr hl
          · exact Or.inl ⟨cmdline, hcmd.trans hcl, hl⟩

-- ============================================================================
-- Runs
-- ============================================================================

theorem Fresh.inv {g : Gateway} (h : Fresh g) : Inv g.toFlight where
  slots :=
    { wf := by
        rw [h.slots]
        exact Lib.GenTable.init_wf _ _
      pending := by
        intro s k hs
        rw [h.slots] at hs
        cases hs
      inflight := by
        intro k c hc
        rw [h.conns] at hc
        cases hc
      reading := by
        intro k c hc
        rw [h.conns] at hc
        cases hc
      fresh := fun k _ => h.conns k }
  ctrls :=
    { owner := by
        intro i s ct hct
        rw [h.noReplica] at hct
        cases hct
      placed := by
        intro ct t ht
        rw [h.ctrls] at ht
        cases ht
      fresh := fun ct _ => h.ctrls ct }
  issued := by
    intro e he
    rw [h.issued] at he
    cases he
  phase := by
    intro k c hc
    rw [h.conns] at hc
    cases hc

theorem Fresh.waitInv {g : Gateway} (h : Fresh g) : WaitInv g.toFlight := by
  intro s k c hs
  rw [h.slots] at hs
  cases hs

theorem startServices_moves {g : Gateway} (h : Fresh g) :
    Moves Tends g.toFlight (startServices E g).toFlight :=
  startLoop_moves E _ g List.nodup_range fun i _ s => h.noReplica i s

/-- One step keeps the invariants. -/
theorem step_inv {g : Gateway} (i : Input) (h : Inv g.toFlight) : Inv (step E g i).toFlight := by
  cases i with
  | event e => exact Moves.inv (handleEvent_moves E h e false fun hi => by cases hi) h
  | tick => exact Moves.inv (afterBatch_moves E h) h

/-- The invariants hold in every state of every run, whatever its steps. -/
theorem ReachableBy.inv {P : Gateway → Input → Prop} {g : Gateway} (h : ReachableBy E P g) :
    Inv g.toFlight := by
  induction h with
  | start g hg => exact Moves.inv (startServices_moves E hg) hg.inv
  | step g i _ _ ih => exact step_inv E i ih

/-- A step whose control command, if any, destroys idle controllers only. -/
def IdleStep (g : Gateway) : Input → Prop
  | .event e => IdleCommand g.toFlight (eventCommand E g e)
  | .tick => True

/-- With idle commands only, no busy controller is dropped. -/
theorem Handles.ne_drop {g : Gateway} {e : Event} {ct : CtrlId} :
    ¬ Handles E g true e (.drop false ct) := by
  rintro (⟨cmdline, -, hl | ⟨ct', hl⟩ | ⟨ct', -, hl⟩⟩ | h)
  · cases hl
  · cases hl
  · cases hl
  · cases e with
    | listen | listenControl | control => simp at h
    | ctrl ct' read write i =>
        obtain ⟨t, -, hl | hl | ⟨-, k, -, hl⟩ | ⟨-, hl⟩⟩ := h
        · cases hl
        · cases hl
        · exact hl.tends
        · exact hl.tends
    | client k read write i =>
        obtain hl | hl | ⟨ct', hl⟩ | hl := h
        · exact hl.tends
        · cases hl
        · cases hl
        · cases hl

theorem step_waitInv {g : Gateway} {i : Input} (h : Inv g.toFlight) (hw : WaitInv g.toFlight)
    (hi : IdleStep E g i) : WaitInv (step E g i).toFlight := by
  cases i with
  | event e =>
      exact Moves.waitInv (handleEvent_moves E h e true fun _ => hi)
        (fun ct hl => Handles.ne_drop E hl) h hw
  | tick => exact Moves.waitInv (afterBatch_moves E h) (fun ct hl => hl) h hw

theorem ReachableBy.waitInv {g : Gateway} (h : ReachableBy E (IdleStep E) g) :
    WaitInv g.toFlight := by
  induction h with
  | start g hg =>
      exact Moves.waitInv (startServices_moves E hg) (fun ct hl => hl) hg.inv hg.waitInv
  | step g i hg hi ih => exact step_waitInv E (ReachableBy.inv E hg) ih hi

end Naitron
