/-
  Naitron.Ws

  The WebSocket frame codec of `src/core/ws.c`.  The accept key (SHA-1 and
  base64) is a parameter of the server model.
-/

import Naitron.Bytes

namespace Naitron

/-- `NTC_WS_MAX_PAYLOAD`. -/
def ntcWsMaxPayload : Nat := 1024 * 1024

/-- `ntc_ws_opcode`; a decoded opcode is any low nibble. -/
inductive NtcWsOpcode where
  | cont | text | bin | close | ping | pong
deriving DecidableEq, Repr

def NtcWsOpcode.code : NtcWsOpcode → Nat
  | .cont => 0
  | .text => 1
  | .bin => 2
  | .close => 8
  | .ping => 9
  | .pong => 10

/-- A decoded frame: opcode nibble, fin bit and unmasked payload. -/
structure WsFrame where
  opcode : Nat
  fin : Bool
  payload : Bytes
deriving DecidableEq, Repr

/-- Result of `ntc_ws_decode`: 0, -1, or 1 with the frame and its length. -/
inductive WsDecode where
  | needMore
  | bad
  | frame (f : WsFrame) (consumed : Nat)
deriving DecidableEq, Repr

/-- Payload length and header length so far, `none` when bytes are missing. -/
def wsLength (buf : Bytes) (len7 : Nat) : Option (Nat × Nat) :=
  if len7 = 126 then
    if buf.length < 4 then none else some (getBe ((buf.drop 2).take 2), 4)
  else if len7 = 127 then
    if buf.length < 10 then none else some (getBe ((buf.drop 2).take 8), 10)
  else some (len7, 2)

/-- Unmask: byte `i` is xored with mask byte `i & 3`. -/
def wsUnmask (mask payload : Bytes) : Bytes :=
  payload.mapIdx fun i b => b ^^^ mask.getD (i % 4) 0

/-- `ntc_ws_decode`. -/
def ntcWsDecode (buf : Bytes) : WsDecode :=
  match buf with
  | b0 :: b1 :: _ =>
      let masked := 128 ≤ b1.toNat
      match wsLength buf (b1.toNat % 128) with
      | none => .needMore
      | some (plen, off) =>
          if ntcWsMaxPayload < plen then .bad
          else if masked ∧ buf.length < off + 4 then .needMore
          else
            let mask := if masked then (buf.drop off).take 4 else []
            let off := if masked then off + 4 else off
            if buf.length < off + plen then .needMore
            else
              .frame
                { opcode := b0.toNat % 16
                  fin := 128 ≤ b0.toNat
                  payload := wsUnmask mask ((buf.drop off).take plen) }
                (off + plen)
  | _ => .needMore

/-- `ntc_ws_encode` with room for `cap` bytes. -/
def ntcWsEncode (opcode : NtcWsOpcode) (data : Bytes) (cap : Nat) : Option Bytes :=
  let b0 := UInt8.ofNat (128 + opcode.code)
  let out :=
    if 0xffff < data.length then
      [b0, 127] ++ putU32 (data.length / 2 ^ 32) ++ putU32 data.length ++ data
    else if 125 < data.length then [b0, 126] ++ putU16 data.length ++ data
    else [b0, UInt8.ofNat data.length] ++ data
  if cap < out.length then none else some out

example : ntcWsDecode (0x81 :: 0x85 :: 0x37 :: 0xfa :: 0x21 :: 0x3d :: 0x7f :: 0x9f :: 0x4d ::
    0x51 :: 0x58 :: []) = .frame ⟨1, true, lit "Hello"⟩ 11 := by
  decide

end Naitron
