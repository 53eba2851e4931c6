/-
  Naitron.WsStream

  The frames a WebSocket client sends, one after another, and what
  `ntc_ws_decode` makes of the part that has arrived.
-/

import Naitron.Lib.Framing
import Naitron.WsCodec

namespace Naitron

-- ============================================================================
-- Client frames
-- ============================================================================

/-- The opcodes of data and control frames a client may send while it keeps
    the connection open. -/
def NtcWsOpcode.Kept (op : NtcWsOpcode) : Prop :=
  op = .text ∨ op = .bin ∨ op = .ping ∨ op = .pong

/-- A well-formed frame of a client: masked, and of a size that the gateway
    promises to take; a control frame has at most 125 bytes. -/
structure WsClientFrame where
  opcode : NtcWsOpcode
  fin : Bool
  mask : Bytes
  payload : Bytes
  kept : opcode.Kept
  mask_length : mask.length = 4
  payload_le : payload.length ≤ ntcWsMaxPayload
  control_le : opcode = .ping ∨ opcode = .pong → payload.length ≤ 125

namespace WsClientFrame

/-- The seven length bits of the second byte. -/
def len7 (f : WsClientFrame) : Nat :=
  if 0xffff < f.payload.length then 127
  else if 125 < f.payload.length then 126
  else f.payload.length

/-- The extended length. -/
def lenExt (f : WsClientFrame) : Bytes :=
  if 0xffff < f.payload.length then
    putU32 (f.payload.length / 2 ^ 32) ++ putU32 f.payload.length
  else if 125 < f.payload.length then putU16 f.payload.length
  else []

/-- The first two bytes. -/
def b0 (f : WsClientFrame) : UInt8 :=
  UInt8.ofNat ((if f.fin then 128 else 0) + f.opcode.code)

def b1 (f : WsClientFrame) : UInt8 := UInt8.ofNat (128 + f.len7)

/-- The frame on the wire. -/
def bytes (f : WsClientFrame) : Bytes :=
  f.b0 :: f.b1 :: (f.lenExt ++ (f.mask ++ wsUnmask f.mask f.payload))

/-- What `ntc_ws_decode` reports of it. -/
def frame (f : WsClientFrame) : WsFrame := ⟨f.opcode.code, f.fin, f.payload⟩

theorem length_bytes (f : WsClientFrame) :
    f.bytes.length = 2 + f.lenExt.length + 4 + f.payload.length := by
  simp only [bytes, List.length_cons, List.length_append, length_wsUnmask, f.mask_length]
  omega

theorem two_le_length (f : WsClientFrame) : 2 ≤ f.bytes.length := by
  rw [f.length_bytes]
  omega

/-- The frame as a frame of the codec, in the shortest form. -/
def wire (f : WsClientFrame) : WsWireFrame where
  opcode := f.opcode.code
  fin := f.fin
  mask := some f.mask
  payload := f.payload
  form := wsShortest f.payload.length
  opcode_lt := opcode_code_lt f.opcode
  mask_length _ hm := Option.some.inj hm ▸ f.mask_length
  fits := wsShortest_fits f.payload_le

theorem wire_bytes (f : WsClientFrame) : f.wire.bytes = f.bytes := by
  have hcode : (wsShortest f.payload.length).code f.payload.length = f.len7 := by
    rw [wsShortest, len7]
    split_ifs <;> rfl
  have hext : (wsShortest f.payload.length).ext f.payload.length = f.lenExt := by
    rw [wsShortest, lenExt]
    split_ifs <;> rfl
  have hbyte : wsByte1 true (wsShortest f.payload.length) f.payload.length = f.b1 := by
    rw [wsByte1, hcode]
    rfl
  show wsByte0 _ _ :: wsByte1 true (wsShortest f.payload.length) f.payload.length ::
    ((wsShortest f.payload.length).ext f.payload.length ++ (f.mask ++ wsUnmask f.mask f.payload)) = _
  rw [hbyte, hext]
  rfl

/-- A frame that has arrived whole is decoded. -/
theorem ntcWsDecode_bytes (f : WsClientFrame) (more : Bytes) :
    ntcWsDecode (f.bytes ++ more) = .frame f.frame f.bytes.length := by
  rw [← f.wire_bytes]
  exact f.wire.ntcWsDecode_bytes f.payload_le more

/-- One that has not is waited for. -/
theorem ntcWsDecode_unfinished {f : WsClientFrame} {rest : Bytes} (h : rest <+: f.bytes)
    (hlt : rest.length < f.bytes.length) : ntcWsDecode rest = .needMore := by
  rw [← f.wire_bytes] at h hlt
  exact f.wire.ntcWsDecode_unfinished f.payload_le h hlt

end WsClientFrame

end Naitron
