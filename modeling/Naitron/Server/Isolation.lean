/-
  Naitron.Server.Isolation

  What a controller can do to clients of other controllers.

  A frame is delivered by its id alone, so a controller reaches every request
  in flight whose id it names.  A connection that waits on another controller
  is left alone as long as no frame that has an effect names it, and only
  then if the environment may do what it likes.
-/

import Naitron.Server.Failure

namespace Naitron

variable (E : Ext)

/-- The connection waits on another controller, or on none. -/
def WaitsElsewhere (f : Flight) (ct : CtrlId) (k : ConnId) : Prop :=
  ∀ c, f.conns k = some c → c.waitCtrl ≠ some ct

/-- No frame in what a controller sends has an effect on a connection that
    waits elsewhere. -/
def MindsOwnRequests (f : Flight) (ct : CtrlId) (t : Ctrl) (rs : List RecvResult) : Prop :=
  ∀ x ∈ framesRead t rs, ∀ k c, gwConnForId f x.hdr.requestId = some k → f.conns k = some c →
    c.waitCtrl ≠ some ct → frameReaches c x = false

/-- Reading from a controller that minds its own requests changes, answers or
    closes no connection that waits elsewhere. -/
theorem onCtrlReadable_spares {g : Gateway} (h : Inv g.toFlight) {ct : CtrlId} {t : Ctrl}
    (ht : g.ctrls ct = some t) {rs : List RecvResult} (hown : MindsOwnRequests g.toFlight ct t rs)
    {k : ConnId} (hk : WaitsElsewhere g.toFlight ct k) :
    SameConn k g.toFlight (onCtrlReadable E g ct rs).2.toFlight := by
  refine Moves.sameConn (onCtrlReadable_moves E h ht rs) ?_
  rintro l ((rfl | ⟨j, ⟨x, hx, hid, c, hc, hreach⟩, hl⟩) |
    ⟨-, ⟨j, ⟨_, c, -, hc, hw⟩, hl⟩ | rfl⟩) hconn
  · cases hconn
  · cases hl.conn_eq hconn
    rw [hown x hx k c hid hc (hk c hc)] at hreach
    cases hreach
  · cases hl.conn_eq hconn
    exact hk c hc hw
  · cases hconn

/-- Whatever the environment does, reading from a controller changes, answers
    or closes no connection that waits elsewhere: exactly when the controller
    minds its own requests. -/
theorem onCtrlReadable_isolates_iff {g : Gateway} (hg : Reachable E g) {ct : CtrlId} {t : Ctrl}
    (ht : g.ctrls ct = some t) (rs : List RecvResult) :
    (∀ (io : Nat → Answer) (k : ConnId), WaitsElsewhere g.toFlight ct k →
      SameConn k g.toFlight (onCtrlReadable (E.withIo io) g ct rs).2.toFlight) ↔
      MindsOwnRequests g.toFlight ct t rs := by
  have h := ReachableBy.inv E hg
  constructor
  · intro hsame x hx k c hid hc hw
    by_contra hreach
    have htouch : framesTouch g.toFlight (framesRead t rs) k :=
      ⟨x, hx, hid, c, hc, Bool.eq_true_of_not_eq_false hreach⟩
    have helse : WaitsElsewhere g.toFlight ct k := by
      intro d hd
      rw [hc] at hd
      cases hd
      exact hw
    obtain ⟨io, hgone⟩ := onCtrlReadable_can_end E h ht htouch
    have hkept : (onCtrlReadable (E.withIo io) g ct rs).2.conns k = g.conns k :=
      (hsame io k helse).1
    rw [hgone, hc] at hkept
    cases hkept
  · intro hown io k hk
    exact onCtrlReadable_spares (E.withIo io) h ht hown hk

/-! ## One controller answering for another -/

/-- A whole RESPONSE frame for a request id. -/
def responseFrame (id : Nat) : Bytes :=
  let payload := putU16 200 ++ putU16 ctJson.length ++ ctJson ++ putU32 2 ++ lit "ok"
  ntcWireWriteHeader NtcMsgType.response.code id payload.length ++ payload

theorem helloInFlight_clock_live :
    ∃ t, (helloInFlight quietExt).ctrls 1 = some t ∧ t.rbuf = [] :=
  Option.map_eq_some_iff.mp helloInFlight_waits.clock

theorem helloInFlight_waitsElsewhere : WaitsElsewhere (helloInFlight quietExt).toFlight 1 0 := by
  intro c hc
  obtain ⟨d, hd, hfields⟩ := Option.map_eq_some_iff.mp helloInFlight_waits.waiting
  obtain rfl : d = c := Option.some.inj (hd.symm.trans hc)
  rw [Prod.mk.injEq, Prod.mk.injEq] at hfields
  rw [hfields.2.2]
  decide

/-- The clock may answer a request that is not there: whatever the sockets do,
    nobody is touched. -/
theorem onCtrlReadable_isolates_hello :
    ∃ t, (helloInFlight quietExt).ctrls 1 = some t ∧ ∀ io : Nat → Answer,
      SameConn 0 (helloInFlight quietExt).toFlight
        (onCtrlReadable (quietExt.withIo io) (helloInFlight quietExt) 1
          (recvOf (responseFrame 7))).2.toFlight := by
  obtain ⟨t, ht, hbuf⟩ := helloInFlight_clock_live
  have hids : (framesRead { svc := 1, slot := 0 } (recvOf (responseFrame 7))).map
      (·.hdr.requestId) = [7] := by decide
  have hnone : gwConnForId (helloInFlight quietExt).toFlight 7 = none := by decide +kernel
  have hown : MindsOwnRequests (helloInFlight quietExt).toFlight 1 t (recvOf (responseFrame 7)) := by
    intro x hx k c hid
    have hframes : framesRead t (recvOf (responseFrame 7)) =
        framesRead { svc := 1, slot := 0 } (recvOf (responseFrame 7)) := by
      simp only [framesRead, hbuf]
    rw [hframes] at hx
    have hxid := List.mem_map_of_mem (f := fun x : WireFrame => x.hdr.requestId) hx
    rw [hids, List.mem_singleton] at hxid
    rw [hxid, hnone] at hid
    cases hid
  have hrun := helloInFlight_reachable quietExt (P := fun _ _ => True) trivial trivial
  exact ⟨t, ht, fun io => (onCtrlReadable_isolates_iff quietExt hrun ht _).mpr hown io 0
    helloInFlight_waitsElsewhere⟩

/-- The clock answers the request that the greeter was sent. -/
theorem onCtrlReadable_answers_other_request :
    ¬ ∀ (E : Ext) (g : Gateway), Reachable E g → ∀ (ct : CtrlId) (rs : List RecvResult),
      (∃ t, g.ctrls ct = some t) → ∀ k, WaitsElsewhere g.toFlight ct k →
        SameConn k g.toFlight (onCtrlReadable E g ct rs).2.toFlight := by
  intro h
  obtain ⟨t, ht, -⟩ := helloInFlight_clock_live
  have hsame := h quietExt (helloInFlight quietExt)
    (helloInFlight_reachable quietExt trivial trivial) 1 (recvOf (responseFrame 4095)) ⟨t, ht⟩ 0
    helloInFlight_waitsElsewhere
  have hanswered : (onCtrlReadable quietExt (helloInFlight quietExt) 1
      (recvOf (responseFrame 4095))).2.replies 0 = 1 := by decide +kernel
  rw [hsame.2.2, helloInFlight_waits.unanswered] at hanswered
  cases hanswered

end Naitron
