/-
  Naitron.SdkCallbacks

  Which callbacks of a controller the serve loop of `ntc_controller_run` calls
  for the frames it reads, and when one of them is not there.
-/

import Naitron.SdkAnswers

namespace Naitron

-- ============================================================================
-- The loop
-- ============================================================================

/-- The callbacks of an `ntc_controller`. -/
inductive NtcCallback where
  | handle
  | stream
  | wsOpen
  | wsMessage
  | wsClose
deriving DecidableEq, Repr

/-- `ntc_controller`: which callbacks are set. -/
structure NtcController where
  handle : Bool := false
  stream : Bool := false
  wsOpen : Bool := false
  wsMessage : Bool := false
  wsClose : Bool := false
deriving DecidableEq, Repr

namespace NtcController

def has (ctl : NtcController) : NtcCallback → Bool
  | .handle => ctl.handle
  | .stream => ctl.stream
  | .wsOpen => ctl.wsOpen
  | .wsMessage => ctl.wsMessage
  | .wsClose => ctl.wsClose

/-- The check at the entry. -/
def accepted (ctl : NtcController) : Bool :=
  ctl.handle || ctl.stream || ctl.wsOpen || ctl.wsMessage

/-- The callback that is called for a frame, by its type and payload.  Only for
    a REQUEST is it called whether it is set or not. -/
def call (ctl : NtcController) (m : Nat × Nat × Bytes) : Option NtcCallback :=
  match NtcMsgType.ofCode m.1 with
  | some .wsOpen =>
      if ctl.wsOpen && (RBuf.decodeRequest m.2.2).isSome then some .wsOpen else none
  | some .wsMsg =>
      if ctl.wsMessage && (ntcWireDecodeWsMsg m.2.2).isSome then some .wsMessage else none
  | some .wsClose => if ctl.wsClose then some .wsClose else none
  | some .request =>
      if ctl.stream then if (RBuf.decodeRequest m.2.2).isSome then some .stream else none
      else if (RBuf.decodeRequest m.2.2).isSome then some .handle
      else none
  | _ => none

/-- The callbacks called for the frames read; a missing one is the last. -/
def calls (ctl : NtcController) : List (Nat × Nat × Bytes) → List NtcCallback
  | [] => []
  | m :: ms =>
      match ctl.call m with
      | none => ctl.calls ms
      | some cb => if ctl.has cb then cb :: ctl.calls ms else [cb]

/-- What `ntc_controller_run` calls when the bytes `s` arrive and `read` gives
    the results `rs`. -/
def run (ctl : NtcController) (rs : List ReadResult) (s : Bytes) : List NtcCallback :=
  if ctl.accepted then ctl.calls (msgsRead rs s) else []

theorem run_eq {ctl : NtcController} (h : ctl.accepted = true) (rs : List ReadResult) (s : Bytes) :
    ctl.run rs s = ctl.calls (msgsRead rs s) :=
  if_pos h

/-- A REQUEST that the decoder takes. -/
def IsRequest (m : Nat × Nat × Bytes) : Prop :=
  NtcMsgType.ofCode m.1 = some .request ∧ (RBuf.decodeRequest m.2.2).isSome = true

/-- The one frame that makes the loop call a callback that is not set. -/
theorem call_missing_iff (ctl : NtcController) (m : Nat × Nat × Bytes) :
    (∃ cb, ctl.call m = some cb ∧ ctl.has cb = false) ↔
      (ctl.stream = false ∧ ctl.handle = false) ∧ IsRequest m := by
  rw [call, IsRequest]
  cases NtcMsgType.ofCode m.1 with
  | none => simp
  | some type =>
      cases type with
      | request =>
          cases hs : ctl.stream with
          | true => simp [has, hs]
          | false =>
              by_cases hdec : (RBuf.decodeRequest m.2.2).isSome = true
              · simp [has, hdec]
              · simp [hdec]
      | wsOpen | wsMsg | wsClose =>
          refine iff_of_false ?_ (by simp)
          rintro ⟨cb, hcall, hmissing⟩
          -- these three are called under a test of the callback
          dsimp only at hcall
          split at hcall
          · rename_i htest
            cases hcall
            rw [has] at hmissing
            simp [hmissing] at htest
          · cases hcall
      | _ => simp

theorem call_request {ctl : NtcController} (hs : ctl.stream = false) {m : Nat × Nat × Bytes}
    (hm : IsRequest m) : ctl.call m = some .handle := by
  rw [call, hm.1]
  dsimp only
  rw [hs, if_neg Bool.false_ne_true, if_pos hm.2]

/-- No callback that is missing is called if no frame asks for one. -/
theorem calls_present_iff (ctl : NtcController) :
    ∀ ms : List (Nat × Nat × Bytes), (∀ cb ∈ ctl.calls ms, ctl.has cb = true) ↔
      ∀ m ∈ ms, ¬ ∃ cb, ctl.call m = some cb ∧ ctl.has cb = false := by
  intro ms
  induction ms with
  | nil => exact iff_of_true nofun nofun
  | cons m ms ih =>
      rw [List.forall_mem_cons, calls]
      cases hcall : ctl.call m with
      | none =>
          dsimp only
          rw [ih]
          exact (and_iff_right (by simp)).symm
      | some cb =>
          dsimp only
          cases hhas : ctl.has cb with
          | true =>
              rw [if_pos rfl, List.forall_mem_cons, ih]
              exact and_congr (by simp [hhas]) Iff.rfl
          | false =>
              rw [if_neg Bool.false_ne_true]
              refine iff_of_false (fun h => ?_) fun h => h.1 ⟨cb, rfl, hhas⟩
              rw [h cb (List.mem_singleton_self cb)] at hhas
              cases hhas

/-- The serve loop calls no missing callback exactly when the controller can
    take requests or is sent none.  For every accepted definition, every list of
    frames and every way the reads are cut: the frames served are those before
    the first that is too long for the payload buffer. -/
theorem callbacks_present_iff {ctl : NtcController} (hctl : ctl.accepted = true)
    (ms : List WireMsg) (rs : List ReadResult) :
    (∀ cb ∈ ctl.run rs (ms.flatMap WireMsg.bytes), ctl.has cb = true) ↔
      ctl.stream = true ∨ ctl.handle = true ∨
        ∀ m ∈ ms.takeWhile fun m => m.payload.length ≤ ntcCtlMaxPayload,
          ¬ IsRequest m.triple := by
  rw [run_eq hctl, calls_present_iff, msgsRead_frames, List.forall_mem_map]
  simp only [call_missing_iff]
  cases ctl.stream <;> cases ctl.handle <;> simp

/-- `controllers/ws_echo.c`: a controller for WebSockets only. -/
def wsEcho : NtcController := { wsOpen := true, wsMessage := true, wsClose := true }

/-- A frame with a short payload, under one of the first ids. -/
def shortMsg (type : NtcMsgType) (rid : Fin 100) (payload : Bytes) (h : payload.length ≤ 99) :
    WireMsg :=
  ⟨type.code, rid, payload, type.code_lt, lt_of_le_of_lt rid.is_le (by decide),
    h.trans_lt (by decide)⟩

/-- A session under the id 7 with a PING, and a REQUEST that does not decode. -/
def wsSession : List WireMsg :=
  [shortMsg .wsOpen 7 (requestBytes { method := lit "GET", path := lit "/ws" }) (by decide),
    shortMsg .wsMsg 7 (1 :: slice32Bytes (lit "hi")) (by decide),
    shortMsg .ping 0 [] (by decide), shortMsg .wsClose 7 [] (by decide),
    shortMsg .request 8 (lit "GET") (by decide)]

/-- It serves the session with the three callbacks that it has. -/
theorem callbacks_present_ws_session :
    wsEcho.run [.more 5, .eintr] (wsSession.flatMap WireMsg.bytes) =
        [.wsOpen, .wsMessage, .wsClose] ∧
      ∀ cb ∈ wsEcho.run [.more 5, .eintr] (wsSession.flatMap WireMsg.bytes),
        wsEcho.has cb = true := by
  refine ⟨by decide +kernel, (callbacks_present_iff rfl _ _).mpr (Or.inr (Or.inr ?_))⟩
  rintro m hm ⟨htype, hdec⟩
  have hm' := (List.takeWhile_prefix _).subset hm
  simp only [wsSession, List.mem_cons, List.not_mem_nil, or_false] at hm'
  rcases hm' with rfl | rfl | rfl | rfl | rfl
  · cases htype
  · cases htype
  · cases htype
  · cases htype
  · revert hdec
    decide +kernel

/-- A plain request calls the handler it does not have. -/
theorem ws_echo_calls_missing_handler :
    wsEcho.accepted = true ∧ wsEcho.run [] getRequest.bytes = [.handle] ∧
      wsEcho.has .handle = false := by
  refine ⟨rfl, ?_, rfl⟩
  have hread := msgsRead_frames [getRequest] []
  have hfits : getRequest.payload.length ≤ ntcCtlMaxPayload := by decide +kernel
  have hall : [getRequest].takeWhile (fun m => m.payload.length ≤ ntcCtlMaxPayload) =
      [getRequest] := List.takeWhile_cons_of_pos (decide_eq_true hfits)
  rw [List.flatMap_singleton, hall] at hread
  have hreq : IsRequest getRequest.triple := ⟨by decide, getRequest_decodes.1⟩
  have hcall : wsEcho.call getRequest.triple = some .handle := call_request rfl hreq
  rw [run_eq rfl, hread, List.map_singleton, calls, hcall]
  rfl

end NtcController

end Naitron
