/-
  Naitron.WireStream

  The byte stream between the gateway and a controller: frames written one
  after another, and what either side makes of the part that has arrived.

  The gateway cuts its buffer with `ntc_wire_read_frame` (`scanFrames`); the
  controller SDK reads a header with `read_full` and
  `ntc_wire_parse_header`, then the payload.
-/

import Naitron.Wire
import Naitron.Lib.Framing

namespace Naitron

-- ============================================================================
-- Messages
-- ============================================================================

/-- A frame to be written, within the widths of the header's fields. -/
structure WireMsg where
  type : Nat
  requestId : Nat
  payload : Bytes
  type_lt : type < 2 ^ 8
  requestId_lt : requestId < 2 ^ 32
  length_lt : payload.length < 2 ^ 32
deriving DecidableEq

theorem NtcMsgType.code_lt (type : NtcMsgType) : type.code < 2 ^ 8 := by
  cases type <;> decide

/-- The id and the length of a frame that has neither. -/
theorem zero_lt_word : 0 < 2 ^ 32 := by decide

theorem NtcMsgType.ofCode_code (type : NtcMsgType) : NtcMsgType.ofCode type.code = some type := by
  cases type <;> rfl

/-- `ntc_wire_write_header` and the payload: what `ctrl_queue` and `send_frame`
    write. -/
def WireMsg.bytes (m : WireMsg) : Bytes :=
  ntcWireWriteHeader m.type m.requestId m.payload.length ++ m.payload

/-- The header as it is read back. -/
def WireMsg.hdr (m : WireMsg) : NtcWireHeader :=
  ⟨ntcWireVersion, m.type, m.requestId, m.payload.length⟩

/-- The frame as it is read back. -/
def WireMsg.frame (m : WireMsg) : WireFrame := ⟨m.hdr, m.payload⟩

theorem length_ntcWireWriteHeader (type id len : Nat) :
    (ntcWireWriteHeader type id len).length = ntcWireHeaderLen := rfl

theorem WireMsg.length_bytes (m : WireMsg) :
    m.bytes.length = ntcWireHeaderLen + m.payload.length := by
  rw [WireMsg.bytes, List.length_append, length_ntcWireWriteHeader]

/-- The fields of a header, read back. -/
theorem WireMsg.getBe_version (m : WireMsg) (more : Bytes) :
    getBe (((ntcWireWriteHeader m.type m.requestId m.payload.length ++ more).drop 4).take 1) =
      ntcWireVersion := rfl

theorem WireMsg.getBe_type (m : WireMsg) (more : Bytes) :
    getBe (((ntcWireWriteHeader m.type m.requestId m.payload.length ++ more).drop 5).take 1) =
      m.type := by
  have hval : getBe [UInt8.ofNat m.type] = m.type % 2 ^ 8 := by
    simp [getBe, UInt8.toNat_ofNat']
  exact hval.trans (Nat.mod_eq_of_lt m.type_lt)

theorem WireMsg.getBe_requestId (m : WireMsg) (more : Bytes) :
    getBe (((ntcWireWriteHeader m.type m.requestId m.payload.length ++ more).drop 8).take 4) =
      m.requestId :=
  (getBe_putU32 m.requestId).trans (Nat.mod_eq_of_lt m.requestId_lt)

theorem WireMsg.getBe_length (m : WireMsg) (more : Bytes) :
    getBe (((ntcWireWriteHeader m.type m.requestId m.payload.length ++ more).drop 12).take 4) =
      m.payload.length :=
  (getBe_putU32 m.payload.length).trans (Nat.mod_eq_of_lt m.length_lt)

theorem WireMsg.drop_header (m : WireMsg) (more : Bytes) :
    (ntcWireWriteHeader m.type m.requestId m.payload.length ++ more).drop ntcWireHeaderLen =
      more := rfl

/-- A beginning of a message that holds the header is the header and a
    beginning of the payload. -/
theorem WireMsg.prefix_header {m : WireMsg} {rest : Bytes} (h : rest <+: m.bytes)
    (hlen : ntcWireHeaderLen ≤ rest.length) :
    ∃ part, rest = ntcWireWriteHeader m.type m.requestId m.payload.length ++ part := by
  have hpre := List.prefix_of_prefix_length_le (List.prefix_append _ _) h
    ((length_ntcWireWriteHeader m.type m.requestId m.payload.length).le.trans hlen)
  obtain ⟨part, rfl⟩ := hpre
  exact ⟨part, rfl⟩

-- ============================================================================
-- The gateway's side
-- ============================================================================

/-- `ntc_wire_read_frame` behind a written header. -/
theorem ntcWireReadFrame_header (m : WireMsg) (more : Bytes) :
    ntcWireReadFrame (ntcWireWriteHeader m.type m.requestId m.payload.length ++ more) =
      if more.length < m.payload.length then .needMore
      else .frame ⟨m.hdr, more.take m.payload.length⟩ (ntcWireHeaderLen + m.payload.length) := by
  have hlen : (ntcWireWriteHeader m.type m.requestId m.payload.length ++ more).length =
      ntcWireHeaderLen + more.length := by
    rw [List.length_append, length_ntcWireWriteHeader]
  have hmagic : getBe ((ntcWireWriteHeader m.type m.requestId m.payload.length ++ more).take 4) =
      ntcWireMagic := rfl
  rw [ntcWireReadFrame, if_neg (by rw [hlen]; omega), if_neg (by rw [hmagic]; simp),
    m.getBe_version, if_neg (by decide)]
  dsimp only
  rw [m.getBe_length, m.getBe_type, m.getBe_requestId, m.drop_header, hlen]
  by_cases hshort : more.length < m.payload.length
  · rw [if_pos hshort, if_pos (by omega)]
  · rw [if_neg hshort, if_neg (by omega)]
    rfl

theorem ntcWireReadFrame_bytes (m : WireMsg) (more : Bytes) :
    ntcWireReadFrame (m.bytes ++ more) = .frame m.frame m.bytes.length := by
  rw [WireMsg.bytes, List.append_assoc, ntcWireReadFrame_header, if_neg (by simp),
    List.take_left, ← WireMsg.bytes, m.length_bytes]
  rfl

/-- A message that has not arrived whole is waited for. -/
theorem ntcWireReadFrame_unfinished {m : WireMsg} {rest : Bytes} (h : rest <+: m.bytes)
    (hlt : rest.length < m.bytes.length) : ntcWireReadFrame rest = .needMore := by
  by_cases hhdr : rest.length < ntcWireHeaderLen
  · rw [ntcWireReadFrame, if_pos hhdr]
  · obtain ⟨part, rfl⟩ := WireMsg.prefix_header h (not_lt.mp hhdr)
    rw [List.length_append, length_ntcWireWriteHeader, m.length_bytes] at hlt
    rw [ntcWireReadFrame_header, if_pos (by omega)]

/-- The scan of whole messages and the beginning of the next. -/
theorem scanFrames_stream (more : List WireMsg) {rest : Bytes}
    (hrest : Lib.Unfinished WireMsg.bytes more rest) :
    ∀ (ms : List WireMsg) (fuel : Nat), (ms.flatMap WireMsg.bytes ++ rest).length ≤ fuel →
      scanFrames fuel (ms.flatMap WireMsg.bytes ++ rest) =
        (ms.map WireMsg.frame, .needMore, rest) := by
  intro ms
  induction ms with
  | nil =>
      intro fuel _
      have hmore : ntcWireReadFrame rest = .needMore := by
        cases more with
        | nil =>
            rw [show rest = [] from hrest]
            rfl
        | cons m _ => exact ntcWireReadFrame_unfinished hrest.1 hrest.2
      cases fuel with
      | zero => rfl
      | succ fuel =>
          rw [List.flatMap_nil, List.nil_append, scanFrames, hmore]
          rfl
  | cons m ms ih =>
      intro fuel hfuel
      rw [List.flatMap_cons, List.append_assoc] at hfuel ⊢
      rw [List.length_append, m.length_bytes, ntcWireHeaderLen] at hfuel
      obtain ⟨fuel, rfl⟩ := Nat.exists_eq_succ_of_ne_zero (show fuel ≠ 0 by omega)
      rw [scanFrames, ntcWireReadFrame_bytes]
      dsimp only
      rw [List.drop_left, ih fuel (by omega)]
      rfl

theorem WireMsg.frame_injective : Function.Injective WireMsg.frame := by
  intro m m' h
  obtain ⟨hhdr, hpayload⟩ := WireFrame.mk.inj h
  obtain ⟨-, htype, hid, -⟩ := NtcWireHeader.mk.inj hhdr
  cases m
  cases m'
  dsimp only at htype hid hpayload
  subst htype hid hpayload
  rfl

/-- The bytes of a list of messages say which messages they are. -/
theorem WireMsg.flatMap_bytes_injective {ms ms' : List WireMsg}
    (h : ms.flatMap WireMsg.bytes = ms'.flatMap WireMsg.bytes) : ms = ms' := by
  have hscan : ∀ ms : List WireMsg, scanFrames (ms.flatMap WireMsg.bytes).length
      (ms.flatMap WireMsg.bytes) = (ms.map WireMsg.frame, .needMore, []) := by
    intro ms
    have hstream := scanFrames_stream [] rfl ms (ms.flatMap WireMsg.bytes ++ []).length le_rfl
    rwa [List.append_nil] at hstream
  have heq := hscan ms
  rw [h, hscan ms'] at heq
  exact (List.map_injective_iff.mpr WireMsg.frame_injective (Prod.mk.inj heq).1).symm

-- ============================================================================
-- The controller's side
-- ============================================================================

/-- `ntc_wire_parse_header`. -/
def ntcWireParseHeader (buf : Bytes) : Option NtcWireHeader :=
  if getBe (buf.take 4) ≠ ntcWireMagic then none
  else if !versionOk (getBe ((buf.drop 4).take 1)) then none
  else
    some
      { version := getBe ((buf.drop 4).take 1)
        type := getBe ((buf.drop 5).take 1)
        requestId := getBe ((buf.drop 8).take 4)
        length := getBe ((buf.drop 12).take 4) }

theorem ntcWireParseHeader_header (m : WireMsg) :
    ntcWireParseHeader (ntcWireWriteHeader m.type m.requestId m.payload.length) = some m.hdr := by
  have hmagic : getBe ((ntcWireWriteHeader m.type m.requestId m.payload.length).take 4) =
      ntcWireMagic := rfl
  have hversion := m.getBe_version []
  have htype := m.getBe_type []
  have hid := m.getBe_requestId []
  have hlen := m.getBe_length []
  rw [List.append_nil] at hversion htype hid hlen
  rw [ntcWireParseHeader, if_neg (by rw [hmagic]; simp), hversion, htype, hid, hlen,
    if_neg (by decide)]
  rfl

end Naitron
