/-
  Naitron.Server.Ipc

  The socket between the gateway and a controller as a queue of frames.

  Outward, `ctrl_queue` appends to a buffer that `on_ctrl_writable` drains by
  short writes; the SDK's read loop takes the frames out of what has been
  sent.  Inward, the controller's frames arrive in pieces; what has been
  dispatched of a live controller and what is in its buffer is always the cut
  of what has been received.
-/

import Naitron.ControllerSdk
import Naitron.Server.Delivery
import Naitron.Server.Output

namespace Naitron

variable (E : Ext)

-- ============================================================================
-- To the controller
-- ============================================================================

/-- The frame of a `ctrl_queue` call. -/
def CtrlOp.msg (type : NtcMsgType) (rid : Nat) (payload : Bytes) (hid : rid < 2 ^ 32)
    (hlen : payload.length ≤ ntcCtlMaxPayload) : WireMsg :=
  ⟨type.code, rid, payload, type.code_lt, hid, hlen.trans_lt (by decide)⟩

/-- The bytes a controller has yet to be sent. -/
def Ctrl.pending (t : Ctrl) : Bytes := t.wbuf.drop t.wsent

/-- The bytes that `recv` returns before it fails or would block. -/
def recvBytes : List RecvResult → Bytes
  | .data b bs :: rs => b :: bs ++ recvBytes rs
  | .eintr :: rs => recvBytes rs
  | _ => []

/-- Whether `recv` reports end of file or an error before it would block. -/
def recvEnds : List RecvResult → Bool
  | .data _ _ :: rs => recvEnds rs
  | .eintr :: rs => recvEnds rs
  | .eof :: _ => true
  | .error :: _ => true
  | _ => false

/-- A readable event with no end of file, no error, and no more bytes in the
    buffer than it may hold. -/
structure QuietEvent (t : Ctrl) (rs : List RecvResult) : Prop where
  goes_on : recvEnds rs = false
  backlog : t.rbuf.length + (recvBytes rs).length ≤ ntcCtrlMaxRbuf

theorem ctrlRecv_quiet :
    ∀ (rs : List RecvResult) (buf : Bytes), recvEnds rs = false →
      buf.length + (recvBytes rs).length ≤ ntcCtrlMaxRbuf →
      ctrlRecv rs buf = (false, buf ++ recvBytes rs) := by
  intro rs
  induction rs with
  | nil =>
      intro buf _ _
      simp [ctrlRecv, recvBytes]
  | cons r rs ih =>
      intro buf hends hlen
      cases r with
      | data b bs =>
          simp only [recvBytes, List.length_append, List.length_cons] at hlen
          rw [ctrlRecv, if_neg (by simp only [List.length_append, List.length_cons]; omega),
            ih (buf ++ b :: bs) hends (by simp only [List.length_append, List.length_cons]; omega),
            recvBytes, List.append_assoc]
      | eintr => exact ih buf hends hlen
      | eof | error => cases hends
      | eagain => simp [ctrlRecv, recvBytes]

/-- Where a controller stands in a stream of messages: the first `n` have been
    dispatched, and what has arrived of the next is in the buffer. -/
structure InStep (f : Flight) (ct : CtrlId) (t : Ctrl) (ms : List WireMsg) (n : Nat) : Prop where
  live : f.ctrls ct = some t
  delivered : f.delivered ct = (ms.take n).map WireMsg.frame
  received : f.received ct = (ms.take n).flatMap WireMsg.bytes ++ t.rbuf
  unfinished : Lib.Unfinished WireMsg.bytes (ms.drop n) t.rbuf

/-- A live controller that has sent a part of a stream is in step with it. -/
theorem LiveRead.inStep {f : Flight} {ct : CtrlId} {t : Ctrl} (hr : LiveRead f ct)
    (ht : f.ctrls ct = some t) {ms : List WireMsg}
    (hms : f.received ct <+: ms.flatMap WireMsg.bytes) : ∃ n, InStep f ct t ms n := by
  obtain ⟨n, rest, hcut, hrest⟩ := Lib.Framing.exists_cut ms _ hms
  have hscan := scanFrames_stream _ hrest (ms.take n) (f.received ct).length (by rw [hcut])
  rw [← hcut, hr t ht] at hscan
  obtain ⟨hdel, hbuf⟩ := Prod.mk.inj hscan
  obtain ⟨-, hbuf⟩ := Prod.mk.inj hbuf
  exact ⟨n, ht, hdel, hbuf ▸ hcut, hbuf ▸ hrest⟩

/-- What arrives in a quiet event ends inside a frame. -/
theorem scanFrames_quiet {f : Flight} {ct : CtrlId} {t : Ctrl} (hr : LiveRead f ct)
    (ht : f.ctrls ct = some t) {more : Bytes} {ms : List WireMsg}
    (hms : f.received ct ++ more <+: ms.flatMap WireMsg.bytes) :
    (scanFrames (t.rbuf ++ more).length (t.rbuf ++ more)).2.1 = .needMore := by
  obtain ⟨n, rest, hcut, hrest⟩ := Lib.Framing.exists_cut ms _ hms
  have hscan := scanFrames_stream _ hrest (ms.take n)
    ((f.received ct).length + more.length) (by rw [← hcut, List.length_append])
  rw [← hcut, scanFrames_append more _ _ _ _ le_rfl (hr t ht)] at hscan
  rw [(Prod.mk.inj hscan).2]

/-- A quiet readable event runs the frame loop and keeps what is left over. -/
theorem onCtrlReadable_quiet_eq {g : Gateway} {ct : CtrlId} {t : Ctrl}
    (hr : LiveRead g.toFlight ct) (ht : g.ctrls ct = some t) {rs : List RecvResult}
    (hquiet : QuietEvent t rs) {ms : List WireMsg}
    (hms : g.received ct ++ recvBytes rs <+: ms.flatMap WireMsg.bytes) :
    ∃ rest, onCtrlReadable E g ct rs = (.zero,
      ((framesIn (t.rbuf ++ recvBytes rs)).foldl (deliverFrame E ct)
        (fillCtrl g ct t (t.rbuf ++ recvBytes rs))).modCtrl ct fun t => { t with rbuf := rest }) := by
  refine ⟨(scanFrames (t.rbuf ++ recvBytes rs).length (t.rbuf ++ recvBytes rs)).2.2, ?_⟩
  rw [onCtrlReadable, ht]
  dsimp only
  rw [ctrlRecv_quiet rs t.rbuf hquiet.goes_on hquiet.backlog, if_neg Bool.false_ne_true, readFrames]
  dsimp only
  rw [scanFrames_quiet hr ht hms]
  rfl

/-- A quiet readable event appends to what was received, and the controller
    stays. -/
theorem onCtrlReadable_quiet {g : Gateway} (h : Inv g.toFlight) {ct : CtrlId} {t : Ctrl}
    (hr : LiveRead g.toFlight ct) (ht : g.ctrls ct = some t) {rs : List RecvResult}
    (hquiet : QuietEvent t rs) {ms : List WireMsg}
    (hms : g.received ct ++ recvBytes rs <+: ms.flatMap WireMsg.bytes) :
    (∃ t', (onCtrlReadable E g ct rs).2.ctrls ct = some t') ∧
      (onCtrlReadable E g ct rs).2.received ct = g.received ct ++ recvBytes rs := by
  have hinv := Moves.inv (fillCtrl_moves g ct t (t.rbuf ++ recvBytes rs)) h
  obtain ⟨hrec, -, hlive⟩ := fillCtrl_read ht (recvBytes rs)
  obtain ⟨hrec', -, -⟩ := readFrames_read E hinv ct (t.rbuf ++ recvBytes rs)
  have hend := scanFrames_quiet hr ht hms
  have hrecv := ctrlRecv_quiet rs t.rbuf hquiet.goes_on hquiet.backlog
  have heq : onCtrlReadable E g ct rs =
      readFrames E (fillCtrl g ct t (t.rbuf ++ recvBytes rs)) ct (t.rbuf ++ recvBytes rs) := by
    rw [onCtrlReadable, ht]
    dsimp only
    rw [hrecv]
    rfl
  refine ⟨?_, by rw [heq]; exact hrec'.trans hrec⟩
  have hkills : readKills t rs = false := by
    rw [readKills, hrecv]
    dsimp only
    rw [hend]
    rfl
  refine Option.isSome_iff_exists.mp (Moves.ctrl_isSome (onCtrlReadable_moves E h ht rs) ?_
    (by rw [ht]; rfl))
  rintro l hl idle rfl
  obtain (hl | ⟨k, -, hl | ⟨-, hl⟩⟩) | ⟨hdies, -⟩ := hl
  · cases hl
  · exact hl
  · cases hl
  · rw [hkills] at hdies
    cases hdies

theorem helloId_lt : 4095 < 2 ^ 32 := by decide

end Naitron
