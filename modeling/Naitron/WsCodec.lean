/-
  Naitron.WsCodec

  The frames of a WebSocket on the wire, and `ntc_ws_decode` and
  `ntc_ws_encode` as a codec for them: a frame in any of the three length
  forms, masked or not, is decoded when its last byte is there and not before.

  `ntc_ws_decode` unmasks in place.  `ntcWsDecodeBuf` gives the buffer as it is
  left as well; `ntcWsDecode` is its first half.
-/

import Naitron.Ws

namespace Naitron

-- ============================================================================
-- The buffer
-- ============================================================================

/-- `ntc_ws_decode`, with the buffer it leaves. -/
def ntcWsDecodeBuf (buf : Bytes) : WsDecode × Bytes :=
  match buf with
  | b0 :: b1 :: _ =>
      let masked := 128 ≤ b1.toNat
      match wsLength buf (b1.toNat % 128) with
      | none => (.needMore, buf)
      | some (plen, off) =>
          if ntcWsMaxPayload < plen then (.bad, buf)
          else if masked ∧ buf.length < off + 4 then (.needMore, buf)
          else
            let mask := if masked then (buf.drop off).take 4 else []
            let off := if masked then off + 4 else off
            if buf.length < off + plen then (.needMore, buf)
            else
              let buf :=
                if masked then
                  buf.take off ++ wsUnmask mask ((buf.drop off).take plen) ++ buf.drop (off + plen)
                else buf
              (.frame
                { opcode := b0.toNat % 16
                  fin := 128 ≤ b0.toNat
                  payload := (buf.drop off).take plen }
                (off + plen), buf)
  | _ => (.needMore, buf)

theorem length_wsUnmask (mask payload : Bytes) :
    (wsUnmask mask payload).length = payload.length := by
  rw [wsUnmask, List.length_mapIdx]

/-- Masking twice is not masking. -/
theorem wsUnmask_wsUnmask (mask payload : Bytes) :
    wsUnmask mask (wsUnmask mask payload) = payload := by
  refine List.ext_getElem (by rw [length_wsUnmask, length_wsUnmask]) fun i h₁ h₂ => ?_
  simp only [wsUnmask, List.getElem_mapIdx]
  rw [UInt8.xor_assoc, UInt8.xor_self, UInt8.xor_zero]

theorem wsUnmask_nil (payload : Bytes) : wsUnmask [] payload = payload := by
  refine List.ext_getElem (length_wsUnmask _ _) fun i h₁ h₂ => ?_
  simp only [wsUnmask, List.getElem_mapIdx, List.getD_nil]
  exact UInt8.xor_zero

/-- The payload is where the unmasked bytes have been put. -/
theorem unmasked_slice {buf bs : Bytes} {off plen : Nat} (hlen : bs.length = plen)
    (hoff : off + plen ≤ buf.length) :
    ((buf.take off ++ bs ++ buf.drop (off + plen)).drop off).take plen = bs := by
  have htake : (buf.take off).length = off := List.length_take_of_le (by omega)
  rw [List.append_assoc, List.drop_left' htake, List.take_left' hlen]

theorem ntcWsDecodeBuf_fst : ∀ buf : Bytes, (ntcWsDecodeBuf buf).1 = ntcWsDecode buf
  | [] | [_] => rfl
  | b0 :: b1 :: tail => by
      rw [ntcWsDecodeBuf, ntcWsDecode]
      generalize hbuf : b0 :: b1 :: tail = buf
      dsimp only
      cases wsLength buf (b1.toNat % 128) with
      | none => rfl
      | some r =>
          obtain ⟨plen, off⟩ := r
          dsimp only
          by_cases hlong : ntcWsMaxPayload < plen
          · rw [if_pos hlong, if_pos hlong]
          rw [if_neg hlong, if_neg hlong]
          by_cases hmask : 128 ≤ b1.toNat ∧ buf.length < off + 4
          · rw [if_pos hmask, if_pos hmask]
          rw [if_neg hmask, if_neg hmask]
          by_cases hmasked : 128 ≤ b1.toNat
          · simp only [if_pos hmasked]
            by_cases hshort : buf.length < off + 4 + plen
            · rw [if_pos hshort, if_pos hshort]
            rw [if_neg hshort, if_neg hshort]
            dsimp only
            rw [unmasked_slice _ (not_lt.mp hshort)]
            rw [length_wsUnmask, List.length_take, List.length_drop]
            omega
          · simp only [if_neg hmasked]
            by_cases hshort : buf.length < off + plen
            · rw [if_pos hshort, if_pos hshort]
            rw [if_neg hshort, if_neg hshort, wsUnmask_nil]

/-- While the decoder waits, nothing has been unmasked. -/
theorem ntcWsDecodeBuf_needMore {buf : Bytes} (h : ntcWsDecode buf = .needMore) :
    ntcWsDecodeBuf buf = (.needMore, buf) := by
  have hsnd : (ntcWsDecodeBuf buf).1 = .needMore → (ntcWsDecodeBuf buf).2 = buf := by
    intro hmore
    match buf with
    | [] | [_] => rfl
    | b0 :: b1 :: tail =>
        rw [ntcWsDecodeBuf] at hmore ⊢
        generalize b0 :: b1 :: tail = buf at hmore ⊢
        dsimp only at hmore ⊢
        cases hlen : wsLength buf (b1.toNat % 128) with
        | none => rfl
        | some r =>
            rw [hlen] at hmore
            dsimp only at hmore ⊢
            by_cases hlong : ntcWsMaxPayload < r.1
            · rw [if_pos hlong] at hmore
              cases hmore
            rw [if_neg hlong] at hmore ⊢
            by_cases hmask : 128 ≤ b1.toNat ∧ buf.length < r.2 + 4
            · rw [if_pos hmask]
            rw [if_neg hmask] at hmore ⊢
            by_cases hshort : buf.length < (if 128 ≤ b1.toNat then r.2 + 4 else r.2) + r.1
            · rw [if_pos hshort]
            · rw [if_neg hshort] at hmore
              cases hmore
  have hfst := ntcWsDecodeBuf_fst buf
  rw [h] at hfst
  exact Prod.ext hfst (hsnd hfst)

-- ============================================================================
-- Frames
-- ============================================================================

/-- How the length of the payload is written. -/
inductive WsLenForm where
  | len7
  | len16
  | len64
deriving DecidableEq, Repr

namespace WsLenForm

/-- The lengths a form has room for. -/
def bound : WsLenForm → Nat
  | .len7 => 126
  | .len16 => 2 ^ 16
  | .len64 => 2 ^ 64

/-- The seven length bits of the second byte. -/
def code (n : Nat) : WsLenForm → Nat
  | .len7 => n
  | .len16 => 126
  | .len64 => 127

/-- The bytes of the extended length. -/
def ext (n : Nat) : WsLenForm → Bytes
  | .len7 => []
  | .len16 => putU16 n
  | .len64 => putU32 (n / 2 ^ 32) ++ putU32 n

theorem code_lt {form : WsLenForm} {n : Nat} (h : n < form.bound) : form.code n < 128 := by
  cases form with
  | len7 => exact h.trans (by decide)
  | len16 =>
      show 126 < 128
      omega
  | len64 =>
      show 127 < 128
      omega

theorem getBe_append (a b : Bytes) : getBe (a ++ b) = getBe a * 2 ^ (8 * b.length) + getBe b := by
  induction b using List.reverseRecOn with
  | nil => simp [getBe]
  | append_singleton b c ih =>
      have hsnoc : ∀ s : Bytes, getBe (s ++ [c]) = getBe s * 2 ^ 8 + c.toNat := by
        intro s
        simp [getBe]
      rw [← List.append_assoc, hsnoc, ih, hsnoc, List.length_append, List.length_singleton]
      ring

/-- The extended length is the length. -/
theorem getBe_ext {form : WsLenForm} {n : Nat} (h : n < form.bound) (hform : form ≠ .len7) :
    getBe (form.ext n) = n := by
  cases form with
  | len7 => exact absurd rfl hform
  | len16 =>
      rw [ext, getBe_putU16]
      exact Nat.mod_eq_of_lt h
  | len64 =>
      have hn : n < 2 ^ 64 := h
      rw [ext, getBe_append, getBe_putU32, getBe_putU32, length_putU32]
      omega

end WsLenForm

/-- `wsLength` once the extended length is there. -/
theorem wsLength_ext {form : WsLenForm} {n : Nat} (h : n < form.bound) (b0 b1 : UInt8)
    (rest : Bytes) : wsLength (b0 :: b1 :: (form.ext n ++ rest)) (form.code n) =
      some (n, 2 + (form.ext n).length) := by
  have hvalue := WsLenForm.getBe_ext h
  rw [wsLength]
  cases form with
  | len7 =>
      have hn : n < 126 := h
      rw [WsLenForm.code, if_neg (by omega), if_neg (by omega)]
      rfl
  | len16 =>
      have hroom : ¬ (b0 :: b1 :: (putU16 n ++ rest)).length < 4 := by
        simp only [List.length_cons, List.length_append, length_putU16]
        omega
      have htake : ((b0 :: b1 :: (putU16 n ++ rest)).drop 2).take 2 = putU16 n :=
        List.take_left' (length_putU16 n)
      rw [WsLenForm.code, WsLenForm.ext, if_pos rfl, if_neg hroom, htake]
      exact congrArg (fun v => some (v, 4)) (hvalue nofun)
  | len64 =>
      have hlen : (putU32 (n / 2 ^ 32) ++ putU32 n).length = 8 := rfl
      have hroom : ¬ (b0 :: b1 :: (putU32 (n / 2 ^ 32) ++ putU32 n ++ rest)).length < 10 := by
        rw [List.length_cons, List.length_cons, List.length_append, hlen]
        omega
      have htake : ((b0 :: b1 :: (putU32 (n / 2 ^ 32) ++ putU32 n ++ rest)).drop 2).take 8 =
          putU32 (n / 2 ^ 32) ++ putU32 n :=
        List.take_left' hlen
      rw [WsLenForm.code, WsLenForm.ext, if_neg (by decide), if_pos rfl, if_neg hroom, htake]
      exact congrArg (fun v => some (v, 10)) (hvalue nofun)

/-- Before that, it waits. -/
theorem wsLength_short {form : WsLenForm} {n : Nat} (b0 b1 : UInt8) {rest : Bytes}
    (h : rest.length < (form.ext n).length) :
    wsLength (b0 :: b1 :: rest) (form.code n) = none := by
  rw [wsLength]
  cases form with
  | len7 => exact absurd h (Nat.not_lt_zero _)
  | len16 =>
      have hlen : rest.length < 2 := h
      rw [WsLenForm.code, if_pos rfl, if_pos]
      simp only [List.length_cons]
      omega
  | len64 =>
      have hlen : rest.length < 8 := h
      rw [WsLenForm.code, if_neg (by decide), if_pos rfl, if_pos]
      simp only [List.length_cons]
      omega

/-- The first two bytes. -/
def wsByte0 (opcode : Nat) (fin : Bool) : UInt8 := UInt8.ofNat ((if fin then 128 else 0) + opcode)

def wsByte1 (masked : Bool) (form : WsLenForm) (n : Nat) : UInt8 :=
  UInt8.ofNat ((if masked then 128 else 0) + form.code n)

theorem wsByte0_toNat {opcode : Nat} (h : opcode < 16) (fin : Bool) :
    (wsByte0 opcode fin).toNat = (if fin then 128 else 0) + opcode := by
  rw [wsByte0, UInt8.toNat_ofNat']
  split <;> omega

theorem wsByte1_toNat {form : WsLenForm} {n : Nat} (h : n < form.bound) (masked : Bool) :
    (wsByte1 masked form n).toNat = (if masked then 128 else 0) + form.code n := by
  have hcode := WsLenForm.code_lt h
  rw [wsByte1, UInt8.toNat_ofNat']
  split <;> omega

/-- What the decoder reads in the first two bytes. -/
theorem wsByte0_bits {opcode : Nat} (h : opcode < 16) (fin : Bool) :
    (wsByte0 opcode fin).toNat % 16 = opcode ∧
      decide (128 ≤ (wsByte0 opcode fin).toNat) = fin := by
  rw [wsByte0_toNat h]
  cases fin with
  | false => exact ⟨by simp; omega, by simp; omega⟩
  | true => exact ⟨by simp; omega, by simp⟩

theorem wsByte1_bits {form : WsLenForm} {n : Nat} (h : n < form.bound) (masked : Bool) :
    (wsByte1 masked form n).toNat % 128 = form.code n ∧
      (128 ≤ (wsByte1 masked form n).toNat ↔ masked = true) := by
  have hcode := WsLenForm.code_lt h
  rw [wsByte1_toNat h]
  cases masked with
  | false => exact ⟨by simp; omega, by simp; omega⟩
  | true => exact ⟨by simp; omega, by simp⟩

/-- A frame as it is sent: opcode and fin bit, the mask if there is one, the
    payload, and the form its length is written in, the shortest or a longer
    one. -/
structure WsWireFrame where
  opcode : Nat
  fin : Bool
  mask : Option Bytes
  payload : Bytes
  form : WsLenForm
  opcode_lt : opcode < 16
  mask_length : ∀ m, mask = some m → m.length = 4
  fits : payload.length < form.bound

namespace WsWireFrame

/-- The two bytes and the extended length. -/
def head (f : WsWireFrame) : Bytes :=
  wsByte0 f.opcode f.fin :: wsByte1 f.mask.isSome f.form f.payload.length ::
    f.form.ext f.payload.length

/-- The mask, and the payload under it. -/
def body (f : WsWireFrame) : Bytes := f.mask.getD [] ++ wsUnmask (f.mask.getD []) f.payload

/-- The frame on the wire. -/
def bytes (f : WsWireFrame) : Bytes := f.head ++ f.body

/-- What `ntc_ws_decode` reports of it. -/
def frame (f : WsWireFrame) : WsFrame := ⟨f.opcode, f.fin, f.payload⟩

/-- The number of mask bytes. -/
def maskLength (f : WsWireFrame) : Nat := if f.mask.isSome then 4 else 0

theorem length_mask (f : WsWireFrame) : (f.mask.getD []).length = f.maskLength := by
  rw [maskLength]
  cases hmask : f.mask with
  | none => rfl
  | some m => exact f.mask_length m hmask

theorem length_body (f : WsWireFrame) : f.body.length = f.maskLength + f.payload.length := by
  rw [body, List.length_append, length_wsUnmask, f.length_mask]

theorem length_head (f : WsWireFrame) :
    f.head.length = 2 + (f.form.ext f.payload.length).length := by
  rw [head, List.length_cons, List.length_cons]
  omega

/-- The decoder on a header, and what has arrived behind it. -/
theorem ntcWsDecode_head (f : WsWireFrame) (hmax : f.payload.length ≤ ntcWsMaxPayload)
    (rest : Bytes) :
    ntcWsDecode (f.head ++ rest) =
      if rest.length < f.maskLength + f.payload.length then .needMore
      else .frame
        { opcode := f.opcode
          fin := f.fin
          payload := wsUnmask (rest.take f.maskLength)
            ((rest.drop f.maskLength).take f.payload.length) }
        (f.head.length + f.maskLength + f.payload.length) := by
  obtain ⟨hop, hfin⟩ := wsByte0_bits f.opcode_lt f.fin
  obtain ⟨hmod, hbit⟩ := wsByte1_bits f.fits f.mask.isSome
  have hlen : (f.head ++ rest).length =
      2 + (f.form.ext f.payload.length).length + rest.length := by
    rw [List.length_append, f.length_head]
  have hdrop : ∀ n, (f.head ++ rest).drop (2 + (f.form.ext f.payload.length).length + n) =
      rest.drop n := by
    intro n
    rw [← f.length_head, ← List.drop_drop, List.drop_left]
  have hdrop0 := hdrop 0
  rw [Nat.add_zero, List.drop_zero] at hdrop0
  have hwait := wsLength_ext f.fits (wsByte0 f.opcode f.fin)
    (wsByte1 f.mask.isSome f.form f.payload.length) rest
  have hshape : f.head ++ rest = wsByte0 f.opcode f.fin ::
      wsByte1 f.mask.isSome f.form f.payload.length ::
        (f.form.ext f.payload.length ++ rest) := rfl
  rw [hshape] at hlen hdrop hdrop0 ⊢
  rw [ntcWsDecode, hmod, hwait]
  dsimp only
  rw [if_neg (not_lt.mpr hmax), hop, hfin, hlen, f.length_head]
  cases hmask : f.mask.isSome with
  | false =>
      have hzero : f.maskLength = 0 := by rw [maskLength, hmask]; rfl
      have hnot : ¬ 128 ≤ (wsByte1 false f.form f.payload.length).toNat := by
        rw [hmask] at hbit
        exact fun h => Bool.false_ne_true (hbit.mp h)
      rw [hmask] at hdrop0
      rw [if_neg fun h => hnot h.1, hzero]
      simp only [if_neg hnot]
      rw [hdrop0, List.take_zero, List.drop_zero, Nat.add_zero]
      exact if_congr (by omega) rfl rfl
  | true =>
      have hfour : f.maskLength = 4 := by rw [maskLength, hmask]; rfl
      have hmasked : 128 ≤ (wsByte1 true f.form f.payload.length).toNat := by
        rw [hmask] at hbit
        exact hbit.mpr rfl
      have hdrop4 := hdrop 4
      rw [hmask] at hdrop0 hdrop4
      rw [hfour]
      simp only [hmasked, true_and, if_true]
      rw [hdrop0, hdrop4]
      by_cases hshort : rest.length < 4
      · rw [if_pos (by omega), if_pos (by omega)]
      · rw [if_neg (by omega)]
        exact if_congr (by omega) rfl rfl

theorem length_bytes (f : WsWireFrame) :
    f.bytes.length = f.head.length + f.maskLength + f.payload.length := by
  rw [bytes, List.length_append, f.length_body, Nat.add_assoc]

/-- A frame that has arrived whole is decoded, whatever follows it. -/
theorem ntcWsDecode_bytes (f : WsWireFrame) (hmax : f.payload.length ≤ ntcWsMaxPayload)
    (more : Bytes) : ntcWsDecode (f.bytes ++ more) = .frame f.frame f.bytes.length := by
  have hbody : f.body ++ more =
      f.mask.getD [] ++ (wsUnmask (f.mask.getD []) f.payload ++ more) := by
    rw [body, List.append_assoc]
  have htake : (f.body ++ more).take f.maskLength = f.mask.getD [] := by
    rw [hbody]
    exact List.take_left' f.length_mask
  have hdrop : ((f.body ++ more).drop f.maskLength).take f.payload.length =
      wsUnmask (f.mask.getD []) f.payload := by
    rw [hbody, List.drop_left' f.length_mask]
    exact List.take_left' (length_wsUnmask _ _)
  have hlen : ¬ (f.body ++ more).length < f.maskLength + f.payload.length := by
    rw [List.length_append, f.length_body]
    omega
  have hhead := f.ntcWsDecode_head hmax (f.body ++ more)
  rw [if_neg hlen, htake, hdrop, wsUnmask_wsUnmask] at hhead
  rw [f.length_bytes, frame, ← hhead, bytes, List.append_assoc]

/-- One that has not is waited for. -/
theorem ntcWsDecode_unfinished (f : WsWireFrame) (hmax : f.payload.length ≤ ntcWsMaxPayload)
    {rest : Bytes} (h : rest <+: f.bytes) (hlt : rest.length < f.bytes.length) :
    ntcWsDecode rest = .needMore := by
  by_cases hhead : f.head.length ≤ rest.length
  · have hpre : f.head <+: rest :=
      List.prefix_of_prefix_length_le (List.prefix_append _ _) h hhead
    obtain ⟨q, rfl⟩ := hpre
    rw [f.length_bytes, List.length_append] at hlt
    rw [f.ntcWsDecode_head hmax, if_pos (by omega)]
  · have hpre : rest <+: f.head :=
      List.prefix_of_prefix_length_le h (List.prefix_append _ _) (by omega)
    rw [f.length_head] at hhead
    match rest with
    | [] | [_] => rfl
    | b0 :: b1 :: rest =>
        obtain ⟨rfl, htail⟩ := List.cons_prefix_cons.mp hpre
        obtain ⟨rfl, -⟩ := List.cons_prefix_cons.mp htail
        simp only [List.length_cons] at hhead
        rw [ntcWsDecode, (wsByte1_bits f.fits f.mask.isSome).1, wsLength_short _ _ (by omega)]

end WsWireFrame

/-- A length above the maximum is refused as soon as it is read. -/
theorem ntcWsDecode_tooLong (b0 : UInt8) (masked : Bool) {n : Nat} (hmax : ntcWsMaxPayload < n)
    (hn : n < 2 ^ 64) (more : Bytes) :
    ntcWsDecode (b0 :: wsByte1 masked .len64 n :: (WsLenForm.len64.ext n ++ more)) = .bad := by
  have hfits : n < WsLenForm.len64.bound := hn
  rw [ntcWsDecode, (wsByte1_bits hfits masked).1, wsLength_ext hfits]
  dsimp only
  rw [if_pos hmax]

-- ============================================================================
-- The encoder
-- ============================================================================

/-- The shortest form. -/
def wsShortest (n : Nat) : WsLenForm :=
  if 0xffff < n then .len64 else if 125 < n then .len16 else .len7

theorem wsShortest_fits {n : Nat} (h : n ≤ ntcWsMaxPayload) : n < (wsShortest n).bound := by
  rw [ntcWsMaxPayload] at h
  rw [wsShortest]
  split_ifs with hlong hmid
  · show n < 2 ^ 64
    omega
  · show n < 2 ^ 16
    omega
  · show n < 126
    omega

/-- `hdr` of `ntc_ws_encode`. -/
def wsHeaderLength (n : Nat) : Nat := if 0xffff < n then 10 else if 125 < n then 4 else 2

theorem opcode_code_lt (op : NtcWsOpcode) : op.code < 16 := by
  cases op <;> decide

/-- What the encoder writes for a message: one frame, unmasked, with fin set. -/
def wsServerFrame (op : NtcWsOpcode) (data : Bytes) (h : data.length ≤ ntcWsMaxPayload) :
    WsWireFrame where
  opcode := op.code
  fin := true
  mask := none
  payload := data
  form := wsShortest data.length
  opcode_lt := opcode_code_lt op
  mask_length := nofun
  fits := wsShortest_fits h

theorem wsServerFrame_length (op : NtcWsOpcode) {data : Bytes}
    (h : data.length ≤ ntcWsMaxPayload) :
    (wsServerFrame op data h).bytes.length = wsHeaderLength data.length + data.length := by
  have hmask : (wsServerFrame op data h).maskLength = 0 := rfl
  have hform : (wsServerFrame op data h).form = wsShortest data.length := rfl
  have hpay : (wsServerFrame op data h).payload = data := rfl
  rw [WsWireFrame.length_bytes, WsWireFrame.length_head, hmask, hform, hpay, wsHeaderLength,
    wsShortest]
  split_ifs <;> rfl

theorem ntcWsEncode_eq (op : NtcWsOpcode) {data : Bytes} (h : data.length ≤ ntcWsMaxPayload)
    (cap : Nat) : ntcWsEncode op data cap =
      if cap < wsHeaderLength data.length + data.length then none
      else some (wsServerFrame op data h).bytes := by
  have hbytes : (wsServerFrame op data h).bytes =
      wsByte0 op.code true :: wsByte1 false (wsShortest data.length) data.length ::
        ((wsShortest data.length).ext data.length ++ data) := by
    show _ ++ ([] ++ wsUnmask [] data) = _
    rw [wsUnmask_nil, List.nil_append]
    rfl
  rw [← wsServerFrame_length op h, hbytes, ntcWsEncode, wsShortest]
  by_cases hlong : 0xffff < data.length
  · rw [if_pos hlong, if_pos hlong, WsLenForm.ext, List.append_assoc]
    rfl
  · rw [if_neg hlong, if_neg hlong]
    by_cases hmid : 125 < data.length
    · rw [if_pos hmid, if_pos hmid]
      rfl
    · rw [if_neg hmid, if_neg hmid]
      have hlen : wsByte1 false .len7 data.length = UInt8.ofNat data.length :=
        congrArg UInt8.ofNat (Nat.zero_add _)
      rw [hlen]
      rfl

/-- The frame codec.  A frame whose payload is within the maximum is decoded,
    in any length form, when it has arrived whole, whatever follows it; on any
    proper beginning of it the decoder waits and leaves the buffer alone; a
    longer declared length is refused.  What the encoder writes is decoded to
    what it was given, and it fails only for want of room. -/
theorem ws_frame_codec :
    (∀ f : WsWireFrame, f.payload.length ≤ ntcWsMaxPayload →
      (∀ more, (ntcWsDecodeBuf (f.bytes ++ more)).1 = .frame f.frame f.bytes.length) ∧
      ∀ part, part <+: f.bytes → part ≠ f.bytes → ntcWsDecodeBuf part = (.needMore, part)) ∧
    (∀ (b0 : UInt8) (masked : Bool) (n : Nat) (more : Bytes), ntcWsMaxPayload < n → n < 2 ^ 64 →
      (ntcWsDecodeBuf (b0 :: wsByte1 masked .len64 n :: (WsLenForm.len64.ext n ++ more))).1 =
        .bad) ∧
    (∀ (op : NtcWsOpcode) (data : Bytes) (cap : Nat), data.length ≤ ntcWsMaxPayload →
      (ntcWsEncode op data cap = none ↔ cap < wsHeaderLength data.length + data.length) ∧
      ∀ out, ntcWsEncode op data cap = some out →
        (ntcWsDecodeBuf out).1 = .frame ⟨op.code, true, data⟩ out.length) := by
  refine ⟨fun f hmax => ⟨fun more => ?_, fun part hpart hne => ?_⟩,
    fun b0 masked n more hmax hn => ?_, fun op data cap hmax => ?_⟩
  · rw [ntcWsDecodeBuf_fst, f.ntcWsDecode_bytes hmax]
  · have hlt : part.length < f.bytes.length :=
      hpart.length_le.lt_of_ne fun hlen => hne (hpart.eq_of_length hlen)
    exact ntcWsDecodeBuf_needMore (f.ntcWsDecode_unfinished hmax hpart hlt)
  · rw [ntcWsDecodeBuf_fst, ntcWsDecode_tooLong b0 masked hmax hn]
  · rw [ntcWsEncode_eq op hmax]
    by_cases hcap : cap < wsHeaderLength data.length + data.length
    · rw [if_pos hcap]
      exact ⟨iff_of_true rfl hcap, nofun⟩
    · rw [if_neg hcap]
      refine ⟨iff_of_false nofun hcap, fun out hout => ?_⟩
      obtain rfl := Option.some.inj hout
      have hwhole := (wsServerFrame op data hmax).ntcWsDecode_bytes hmax []
      rw [List.append_nil] at hwhole
      rw [ntcWsDecodeBuf_fst]
      exact hwhole

/-- A masked frame with its two payload bytes in the longest form. -/
def hiFrame : WsWireFrame :=
  ⟨1, true, some [1, 2, 3, 4], lit "hi", .len64, by decide, by decide, by decide⟩

theorem ws_frame_codec_hi :
    (ntcWsDecodeBuf (hiFrame.bytes ++ [0x81])).1 = .frame ⟨1, true, lit "hi"⟩ 16 ∧
    ntcWsDecodeBuf (hiFrame.bytes.take 15) = (.needMore, hiFrame.bytes.take 15) ∧
    (ntcWsDecodeBuf (0x82 :: wsByte1 true .len64 (2 ^ 20 + 1) ::
      (WsLenForm.len64.ext (2 ^ 20 + 1) ++ []))).1 = .bad ∧
    (ntcWsEncode .text (lit "hi") 3 = none ↔ 3 < wsHeaderLength 2 + 2) := by
  obtain ⟨hframe, hlong, hencode⟩ := ws_frame_codec
  have hmax : hiFrame.payload.length ≤ ntcWsMaxPayload := by decide +kernel
  refine ⟨(hframe hiFrame hmax).1 [0x81], (hframe hiFrame hmax).2 _ (List.take_prefix _ _) ?_,
    hlong 0x82 true _ [] (by decide +kernel) (by decide +kernel),
    (hencode .text (lit "hi") 3 hmax).1⟩
  decide

end Naitron
