/-
  Naitron.Wire

  The controller protocol of `src/common/wire.c`: a 16-byte header followed by
  a payload, all integers big-endian.

  The bounded writer of the source sets an error flag when a field does not
  fit and reports -1 at the end; here a payload is built as a list and refused
  when a 16-bit field or the whole is too long.  The bounded reader is a
  function from the bytes left to a value and the bytes left after it.
-/

import Naitron.HttpRequest

namespace Naitron

/-- `NTC_WIRE_MAGIC`, "NTC1". -/
def ntcWireMagic : Nat := 0x4E544331

def ntcWireVersion : Nat := 2

def ntcWireVersionMax : Nat := 3

def ntcWireHeaderLen : Nat := 16

/-- `ntc_msg_type`. -/
inductive NtcMsgType where
  | hello | welcome | request | response | ping | pong
  | responseBegin | responseChunk | responseEnd
  | wsOpen | wsMsg | wsClose
deriving DecidableEq, Repr

def NtcMsgType.code : NtcMsgType → Nat
  | .hello => 1
  | .welcome => 2
  | .request => 3
  | .response => 4
  | .ping => 5
  | .pong => 6
  | .responseBegin => 7
  | .responseChunk => 8
  | .responseEnd => 9
  | .wsOpen => 10
  | .wsMsg => 11
  | .wsClose => 12

/-- The message a type byte names, `none` for the `default:` of a switch. -/
def NtcMsgType.ofCode : Nat → Option NtcMsgType
  | 1 => some .hello
  | 2 => some .welcome
  | 3 => some .request
  | 4 => some .response
  | 5 => some .ping
  | 6 => some .pong
  | 7 => some .responseBegin
  | 8 => some .responseChunk
  | 9 => some .responseEnd
  | 10 => some .wsOpen
  | 11 => some .wsMsg
  | 12 => some .wsClose
  | _ => none

-- ============================================================================
-- Reader
-- ============================================================================

def rU8 : Bytes → Option (Nat × Bytes)
  | b :: rest => some (b.toNat, rest)
  | [] => none

def rU16 (s : Bytes) : Option (Nat × Bytes) :=
  if s.length < 2 then none else some (getBe (s.take 2), s.drop 2)

def rU32 (s : Bytes) : Option (Nat × Bytes) :=
  if s.length < 4 then none else some (getBe (s.take 4), s.drop 4)

/-- `n` bytes, as `r_slice16` and `r_slice32` take them after the length. -/
def rBytes (n : Nat) (s : Bytes) : Option (Bytes × Bytes) :=
  if s.length < n then none else some (s.take n, s.drop n)

def rSlice16 (s : Bytes) : Option (Bytes × Bytes) := do
  let (n, s) ← rU16 s
  rBytes n s

def rSlice32 (s : Bytes) : Option (Bytes × Bytes) := do
  let (n, s) ← rU32 s
  rBytes n s

-- ============================================================================
-- Framing
-- ============================================================================

/-- `ntc_wire_header`. -/
structure NtcWireHeader where
  version : Nat
  type : Nat
  requestId : Nat
  length : Nat
deriving DecidableEq, Repr

/-- `ntc_wire_write_header`. -/
def ntcWireWriteHeader (type requestId payloadLen : Nat) : Bytes :=
  putU32 ntcWireMagic ++ [UInt8.ofNat ntcWireVersion, UInt8.ofNat type, 0, 0]
    ++ putU32 requestId ++ putU32 payloadLen

/-- `version_ok`. -/
def versionOk (v : Nat) : Bool := ntcWireVersion ≤ v && v ≤ ntcWireVersionMax

/-- A complete frame. -/
structure WireFrame where
  hdr : NtcWireHeader
  payload : Bytes
deriving DecidableEq, Repr

/-- Result of `ntc_wire_read_frame`: 0, -1, or 1 with the frame and the number
    of bytes it took. -/
inductive ReadFrame where
  | needMore
  | bad
  | frame (f : WireFrame) (consumed : Nat)
deriving DecidableEq, Repr

/-- `ntc_wire_read_frame`. -/
def ntcWireReadFrame (buf : Bytes) : ReadFrame :=
  if buf.length < ntcWireHeaderLen then .needMore
  else if getBe (buf.take 4) ≠ ntcWireMagic then .bad
  else if !versionOk (getBe ((buf.drop 4).take 1)) then .bad
  else
    let plen := getBe ((buf.drop 12).take 4)
    if buf.length < ntcWireHeaderLen + plen then .needMore
    else
      .frame
        { hdr :=
            { version := getBe ((buf.drop 4).take 1)
              type := getBe ((buf.drop 5).take 1)
              requestId := getBe ((buf.drop 8).take 4)
              length := plen }
          payload := (buf.drop ntcWireHeaderLen).take plen }
        (ntcWireHeaderLen + plen)

/-- How a run over a buffer ended: at an incomplete frame, or at bytes that
    are no frame. -/
inductive ScanEnd where
  | needMore
  | bad
deriving DecidableEq, Repr

/-- The frames at the head of a buffer, in order, up to the first incomplete
    or bad one, with the bytes left there.  Every frame takes at least its
    header, so the length of the buffer is fuel enough. -/
def scanFrames : Nat → Bytes → List WireFrame × ScanEnd × Bytes
  | 0, buf => ([], .needMore, buf)
  | fuel + 1, buf =>
      match ntcWireReadFrame buf with
      | .needMore => ([], .needMore, buf)
      | .bad => ([], .bad, buf)
      | .frame f consumed =>
          let r := scanFrames fuel (buf.drop consumed)
          (f :: r.1, r.2)

/-- The complete frames a buffer starts with. -/
def framesIn (buf : Bytes) : List WireFrame := (scanFrames buf.length buf).1

/-- A frame takes at least its header and at most the buffer. -/
theorem ntcWireReadFrame_consumed {buf : Bytes} {f : WireFrame} {n : Nat}
    (h : ntcWireReadFrame buf = .frame f n) : 0 < n ∧ n ≤ buf.length := by
  rw [ntcWireReadFrame] at h
  split_ifs at h with h1 h2 h3
  dsimp only at h
  split_ifs at h with h4
  cases h
  simp only [ntcWireHeaderLen] at h4 ⊢
  omega

/-- More bytes behind a buffer do not change a verdict on it. -/
theorem ntcWireReadFrame_append {buf : Bytes} (more : Bytes)
    (h : ntcWireReadFrame buf ≠ .needMore) :
    ntcWireReadFrame (buf ++ more) = ntcWireReadFrame buf := by
  have hlen : ¬ buf.length < ntcWireHeaderLen := fun hlt =>
    h (by rw [ntcWireReadFrame, if_pos hlt])
  have hlen' : ¬ (buf ++ more).length < ntcWireHeaderLen := by
    rw [List.length_append]
    omega
  have htake : ∀ i j, i + j ≤ ntcWireHeaderLen →
      ((buf ++ more).drop i).take j = (buf.drop i).take j := by
    intro i j hij
    rw [List.drop_append_of_le_length (by omega), List.take_append_of_le_length]
    simp only [List.length_drop]
    omega
  have htake4 : (buf ++ more).take 4 = buf.take 4 := htake 0 4 (by decide)
  rw [ntcWireReadFrame, if_neg hlen] at h
  rw [ntcWireReadFrame, ntcWireReadFrame, if_neg hlen, if_neg hlen', htake4,
    htake 4 1 (by decide), htake 5 1 (by decide), htake 8 4 (by decide), htake 12 4 (by decide)]
  by_cases hmagic : getBe (buf.take 4) ≠ ntcWireMagic
  · rw [if_pos hmagic, if_pos hmagic]
  rw [if_neg hmagic] at h ⊢
  rw [if_neg hmagic]
  by_cases hver : (!versionOk (getBe ((buf.drop 4).take 1))) = true
  · rw [if_pos hver, if_pos hver]
  rw [if_neg hver] at h ⊢
  rw [if_neg hver]
  dsimp only at h ⊢
  by_cases hfull : buf.length < ntcWireHeaderLen + getBe ((buf.drop 12).take 4)
  · rw [if_pos hfull] at h
    exact absurd rfl h
  rw [if_neg hfull, if_neg (by rw [List.length_append]; omega),
    List.drop_append_of_le_length (by omega), List.take_append_of_le_length]
  simp only [List.length_drop]
  omega

/-- Fuel beyond the length of the buffer makes no difference. -/
theorem scanFrames_fuel :
    ∀ (fuel fuel' : Nat) (buf : Bytes), buf.length ≤ fuel → buf.length ≤ fuel' →
      scanFrames fuel buf = scanFrames fuel' buf := by
  intro fuel
  induction fuel with
  | zero =>
      intro fuel' buf hlen _
      have hnil : buf = [] := List.eq_nil_of_length_eq_zero (by omega)
      subst hnil
      cases fuel' <;> rfl
  | succ fuel ih =>
      intro fuel' buf hlen hlen'
      cases fuel' with
      | zero =>
          have hnil : buf = [] := List.eq_nil_of_length_eq_zero (by omega)
          subst hnil
          rfl
      | succ fuel' =>
          rw [scanFrames, scanFrames]
          cases hr : ntcWireReadFrame buf with
          | needMore => rfl
          | bad => rfl
          | frame f n =>
              have hn := ntcWireReadFrame_consumed hr
              have hdrop : (buf.drop n).length = buf.length - n := List.length_drop
              dsimp only
              rw [ih fuel' (buf.drop n) (by omega) (by omega)]

/-- A scan that stopped for want of bytes goes on where it stopped when more
    of them arrive. -/
theorem scanFrames_append (more : Bytes) :
    ∀ (fuel : Nat) (buf rest : Bytes) (fs : List WireFrame), buf.length ≤ fuel →
      scanFrames fuel buf = (fs, .needMore, rest) →
      scanFrames (fuel + more.length) (buf ++ more) =
        (fs ++ (scanFrames (rest ++ more).length (rest ++ more)).1,
          (scanFrames (rest ++ more).length (rest ++ more)).2) := by
  intro fuel
  induction fuel with
  | zero =>
      intro buf rest fs hlen h
      have hnil : buf = [] := List.eq_nil_of_length_eq_zero (by omega)
      subst hnil
      cases h
      simp
  | succ fuel ih =>
      intro buf rest fs hlen h
      rw [scanFrames] at h
      cases hr : ntcWireReadFrame buf with
      | needMore =>
          rw [hr] at h
          cases h
          rw [scanFrames_fuel _ (buf ++ more).length _ (by rw [List.length_append]; omega) le_rfl]
          rfl
      | bad =>
          rw [hr] at h
          cases h
      | frame f n =>
          rw [hr] at h
          have hn := ntcWireReadFrame_consumed hr
          have happ : ntcWireReadFrame (buf ++ more) = .frame f n := by
            rw [ntcWireReadFrame_append more (by rw [hr]; simp), hr]
          dsimp only at h
          rcases hs : scanFrames fuel (buf.drop n) with ⟨gs, e, rest'⟩
          rw [hs] at h
          cases h
          have hdrop : (buf.drop n).length = buf.length - n := List.length_drop
          have hih := ih (buf.drop n) rest gs (by omega) hs
          rw [show fuel + 1 + more.length = fuel + more.length + 1 by omega, scanFrames, happ]
          dsimp only
          rw [List.drop_append_of_le_length hn.2, hih]
          rfl

theorem framesIn_append {buf rest more : Bytes} {fs : List WireFrame}
    (h : scanFrames buf.length buf = (fs, .needMore, rest)) :
    framesIn (buf ++ more) = fs ++ framesIn (rest ++ more) := by
  have := scanFrames_append more buf.length buf rest fs le_rfl h
  rw [framesIn, List.length_append, this, framesIn]

-- ============================================================================
-- Request payload
-- ============================================================================

/-- `w_slice16`. -/
def wSlice16 (s : Bytes) : Option Bytes :=
  if 0xFFFF < s.length then none else some (putU16 s.length ++ s)

/-- Name and value of a list of headers or parameters. -/
def wPairs : List NtcHeader → Option Bytes
  | [] => some []
  | h :: rest => do
      let n ← wSlice16 h.name
      let v ← wSlice16 h.value
      let r ← wPairs rest
      return n ++ v ++ r

/-- `ntc_wire_encode_request`; `none` is the result -1. -/
def ntcWireEncodeRequest (req : NtcRequest) (cap : Nat) : Option Bytes := do
  let method ← wSlice16 req.method
  let path ← wSlice16 req.path
  let query ← wSlice16 req.query
  let headers := req.headers.take ntcMaxHeaders
  let hs ← wPairs headers
  let params := req.params.take ntcMaxParams
  let ps ← wPairs params
  let sub ← wSlice16 req.authSub
  let scope ← wSlice16 req.authScope
  let out := method ++ path ++ query ++ putU16 headers.length ++ hs ++ putU16 params.length ++ ps
    ++ sub ++ scope ++ putU32 req.body.length ++ req.body
  if cap < out.length then none else some out

-- ============================================================================
-- Response payloads
-- ============================================================================

/-- What `ntc_wire_decode_response_ex` fills in. -/
structure WireResponse where
  status : Nat
  ctype : Bytes
  body : Bytes
  headers : Bytes
deriving DecidableEq, Repr

/-- `ntc_wire_decode_response_ex`; the header blob is optional. -/
def ntcWireDecodeResponseEx (buf : Bytes) : Option WireResponse := do
  let (status, s) ← rU16 buf
  let (ctype, s) ← rSlice16 s
  let (body, s) ← rSlice32 s
  if s.isEmpty then return ⟨status, ctype, body, []⟩
  else
    let (headers, _) ← rSlice16 s
    return ⟨status, ctype, body, headers⟩

/-- `ntc_wire_decode_response_begin`: status, flags and content type. -/
def ntcWireDecodeResponseBegin (buf : Bytes) : Option (Nat × Nat × Bytes) := do
  let (status, s) ← rU16 buf
  let (flags, s) ← rU8 s
  let (ctype, _) ← rSlice16 s
  return (status, flags, ctype)

/-- `ntc_wire_decode_chunk`. -/
def ntcWireDecodeChunk (buf : Bytes) : Option Bytes := (rSlice32 buf).map (·.1)

/-- `ntc_wire_decode_ws_msg`: opcode and data. -/
def ntcWireDecodeWsMsg (buf : Bytes) : Option (Nat × Bytes) := do
  let (opcode, s) ← rU8 buf
  let (data, _) ← rSlice32 s
  return (opcode, data)

/-- `ntc_wire_encode_ws_msg` with room for `cap` bytes. -/
def ntcWireEncodeWsMsg (opcode : Nat) (data : Bytes) (cap : Nat) : Option Bytes :=
  let out := [UInt8.ofNat opcode] ++ putU32 data.length ++ data
  if cap < out.length then none else some out

/-- `ntc_wire_encode_ws_close`. -/
def ntcWireEncodeWsClose (code : Nat) : Bytes := putU16 code

end Naitron
