/-
  Naitron.ControllerSdk

  The controller side of the socket, `src/common/controller_sdk.c`: the read
  loop of `ntc_controller_run` and the streaming API for handlers.  The socket
  blocks, so `read_full` and `write_full` come back with all they were asked
  for or not at all.
-/

import Naitron.WireResponse
import Naitron.WireStream

namespace Naitron

open Lib

/-- `NTC_CTL_MAX_PAYLOAD`. -/
def ntcCtlMaxPayload : Nat := 256 * 1024

-- ============================================================================
-- Reading
-- ============================================================================

/-- Result of one `read`: up to `n + 1` bytes, or the call was interrupted. -/
inductive ReadResult where
  | more (n : Nat)
  | eintr
deriving DecidableEq, Repr

/-- `read_full` for `n` bytes, on a socket on which the bytes `s` have
    arrived: the bytes, the results and the bytes left; `none` while it waits.
    A list that runs out stands for a `read` that takes what it can get. -/
def readFull : List ReadResult → Nat → Bytes → Option (Bytes × List ReadResult × Bytes)
  | [], n, s => if s.length < n then none else some (s.take n, [], s.drop n)
  | .more m :: rs, n, s =>
      if n = 0 then some ([], .more m :: rs, s)
      else if s.isEmpty then none
      else
        let got := min (m + 1) (min n s.length)
        (readFull rs (n - got) (s.drop got)).map fun r => (s.take got ++ r.1, r.2)
  | .eintr :: rs, n, s => if n = 0 then some ([], .eintr :: rs, s) else readFull rs n s

/-- One turn of the loop of `ntc_controller_run`, up to the frame: its type, id
    and payload.  `none` while the loop waits, or when it is left for a bad
    header or a payload too long. -/
def readMsg (rs : List ReadResult) (s : Bytes) :
    Option ((Nat × Nat × Bytes) × List ReadResult × Bytes) := do
  let (hdr, rs, s) ← readFull rs ntcWireHeaderLen s
  let h ← ntcWireParseHeader hdr
  if ntcCtlMaxPayload < h.length then none
  else
    let (payload, rs, s) ← readFull rs h.length s
    return ((h.type, h.requestId, payload), rs, s)

/-- The frames the loop has read once the bytes `s` have arrived.  Every frame
    takes at least its header, so the number of bytes is fuel enough. -/
def readMsgs : Nat → List ReadResult → Bytes → List (Nat × Nat × Bytes)
  | 0, _, _ => []
  | fuel + 1, rs, s =>
      match readMsg rs s with
      | none => []
      | some (m, rs, s) => m :: readMsgs fuel rs s

/-- The frames read of the bytes that have arrived, with the `read` results
    `rs`. -/
def msgsRead (rs : List ReadResult) (s : Bytes) : List (Nat × Nat × Bytes) :=
  readMsgs s.length rs s

/-- However its reads are cut, `read_full` takes the next `n` bytes. -/
theorem readFull_eq :
    ∀ (rs : List ReadResult) (n : Nat) (s : Bytes),
      if s.length < n then readFull rs n s = none
      else ∃ rs', readFull rs n s = some (s.take n, rs', s.drop n) := by
  intro rs
  induction rs with
  | nil =>
      intro n s
      rw [readFull]
      split
      · rfl
      · exact ⟨[], rfl⟩
  | cons r rs ih =>
      intro n s
      by_cases hn : n = 0
      · subst hn
        rw [if_neg (Nat.not_lt_zero _)]
        exact ⟨r :: rs, by cases r <;> rfl⟩
      cases r with
      | eintr =>
          rw [readFull, if_neg hn]
          exact ih n s
      | more m =>
          rw [readFull, if_neg hn]
          by_cases hnil : s = []
          · rw [if_pos (by rw [hnil]; exact Nat.pos_of_ne_zero hn), hnil]
            rfl
          have hpos : 0 < s.length := List.length_pos_iff.mpr hnil
          have hempty : ¬ s.isEmpty = true := by simpa using hnil
          have hstep := ih (n - min (m + 1) (min n s.length))
            (s.drop (min (m + 1) (min n s.length)))
          have hgot : min (m + 1) (min n s.length) ≤ n := by omega
          have hgot' : min (m + 1) (min n s.length) ≤ s.length := by omega
          rw [if_neg hempty]
          dsimp only
          generalize min (m + 1) (min n s.length) = got at hstep hgot hgot' ⊢
          rw [List.length_drop] at hstep
          by_cases hshort : s.length < n
          · rw [if_pos (by omega)] at hstep
            rw [if_pos hshort, hstep]
            rfl
          · rw [if_neg (by omega)] at hstep
            obtain ⟨rs', hrs⟩ := hstep
            rw [if_neg hshort, hrs]
            refine ⟨rs', ?_⟩
            have htake : s.take got ++ (s.drop got).take (n - got) = s.take n := by
              rw [← List.take_add, Nat.add_sub_cancel' hgot]
            rw [Option.map_some, htake, List.drop_drop, Nat.add_sub_cancel' hgot]

theorem readFull_none (rs : List ReadResult) {n : Nat} {s : Bytes} (h : s.length < n) :
    readFull rs n s = none := by
  have heq := readFull_eq rs n s
  rwa [if_pos h] at heq

theorem readFull_append (rs : List ReadResult) (a s : Bytes) :
    ∃ rs', readFull rs a.length (a ++ s) = some (a, rs', s) := by
  have heq := readFull_eq rs a.length (a ++ s)
  rw [if_neg (by simp), List.take_left, List.drop_left] at heq
  exact heq

/-- What the controller makes of a message. -/
def WireMsg.triple (m : WireMsg) : Nat × Nat × Bytes := (m.type, m.requestId, m.payload)

/-- A message that fits the payload buffer is read whole. -/
theorem readMsg_bytes {m : WireMsg} (hm : m.payload.length ≤ ntcCtlMaxPayload)
    (rs : List ReadResult) (s : Bytes) :
    ∃ rs', readMsg rs (m.bytes ++ s) = some (m.triple, rs', s) := by
  obtain ⟨rs₁, h₁⟩ := readFull_append rs
    (ntcWireWriteHeader m.type m.requestId m.payload.length) (m.payload ++ s)
  obtain ⟨rs₂, h₂⟩ := readFull_append rs₁ m.payload s
  refine ⟨rs₂, ?_⟩
  rw [length_ntcWireWriteHeader] at h₁
  rw [WireMsg.bytes, List.append_assoc, readMsg, h₁]
  simp only [Option.bind_eq_bind, Option.bind_some, ntcWireParseHeader_header, WireMsg.hdr]
  rw [if_neg (not_lt.mpr hm), h₂]
  rfl

/-- A message too long for the payload buffer ends the loop. -/
theorem readMsg_tooBig {m : WireMsg} (hm : ntcCtlMaxPayload < m.payload.length)
    (rs : List ReadResult) (s : Bytes) : readMsg rs (m.bytes ++ s) = none := by
  obtain ⟨rs₁, h₁⟩ := readFull_append rs
    (ntcWireWriteHeader m.type m.requestId m.payload.length) (m.payload ++ s)
  rw [length_ntcWireWriteHeader] at h₁
  rw [WireMsg.bytes, List.append_assoc, readMsg, h₁]
  simp only [Option.bind_eq_bind, Option.bind_some, ntcWireParseHeader_header, WireMsg.hdr]
  exact if_pos hm

/-- The loop reads whole messages until there is none it can read. -/
theorem readMsgs_stops {rest : Bytes} (hstop : ∀ rs, readMsg rs rest = none) :
    ∀ (ms : List WireMsg), (∀ m ∈ ms, m.payload.length ≤ ntcCtlMaxPayload) →
      ∀ (fuel : Nat) (rs : List ReadResult), (ms.flatMap WireMsg.bytes ++ rest).length ≤ fuel →
        readMsgs fuel rs (ms.flatMap WireMsg.bytes ++ rest) = ms.map WireMsg.triple := by
  intro ms
  induction ms with
  | nil =>
      intro _ fuel rs _
      cases fuel with
      | zero => rfl
      | succ fuel =>
          rw [List.flatMap_nil, List.nil_append, readMsgs, hstop]
          rfl
  | cons m ms ih =>
      intro hms fuel rs hfuel
      rw [List.flatMap_cons, List.append_assoc] at hfuel ⊢
      rw [List.length_append, m.length_bytes, ntcWireHeaderLen] at hfuel
      obtain ⟨fuel, rfl⟩ := Nat.exists_eq_succ_of_ne_zero (show fuel ≠ 0 by omega)
      obtain ⟨rs', hread⟩ := readMsg_bytes (hms m List.mem_cons_self) rs
        (ms.flatMap WireMsg.bytes ++ rest)
      rw [readMsgs, hread]
      dsimp only
      rw [ih (fun x hx => hms x (List.mem_cons_of_mem m hx)) fuel rs' (by omega), List.map_cons]

theorem readMsg_nil (rs : List ReadResult) : readMsg rs [] = none := by
  rw [readMsg, readFull_none rs (by decide)]
  rfl

/-- Of whole messages, the loop reads those before the first that is too
    long. -/
theorem msgsRead_frames (ms : List WireMsg) (rs : List ReadResult) :
    msgsRead rs (ms.flatMap WireMsg.bytes) =
      (ms.takeWhile fun m => m.payload.length ≤ ntcCtlMaxPayload).map WireMsg.triple := by
  have hsplit : ms.flatMap WireMsg.bytes =
      (ms.takeWhile fun m => m.payload.length ≤ ntcCtlMaxPayload).flatMap WireMsg.bytes ++
        (ms.dropWhile fun m => m.payload.length ≤ ntcCtlMaxPayload).flatMap WireMsg.bytes := by
    rw [← List.flatMap_append, List.takeWhile_append_dropWhile]
  rw [msgsRead, hsplit]
  refine readMsgs_stops (fun rs => ?_) _ (fun m hm => ?_) _ rs le_rfl
  · cases hdrop : ms.dropWhile fun m => m.payload.length ≤ ntcCtlMaxPayload with
    | nil => exact readMsg_nil rs
    | cons m more =>
        have hne := List.head_dropWhile_not
          (fun m : WireMsg => decide (m.payload.length ≤ ntcCtlMaxPayload))
          (by rw [hdrop]; exact List.cons_ne_nil m more)
        simp only [hdrop, List.head_cons, decide_eq_false_iff_not, not_le] at hne
        rw [List.flatMap_cons]
        exact readMsg_tooBig hne rs _
  · have hfits := List.mem_takeWhile_imp hm
    exact of_decide_eq_true hfits

-- ============================================================================
-- Streaming
-- ============================================================================

/-- `NTC_STREAM_FLAG_SSE` and `NTC_STREAM_FLAG_CHUNKED`. -/
inductive NtcStreamFlag where
  | sse
  | chunked
deriving DecidableEq, Repr

def NtcStreamFlag.code : NtcStreamFlag → Nat
  | .sse => 1
  | .chunked => 2

/-- An `int` status as `w_u16` writes it. -/
def wireStatus (status : Int) : Nat := (status % 2 ^ 16).toNat

/-- `ntc_wire_encode_response_begin` with room for `cap` bytes. -/
def ntcWireEncodeResponseBegin (status : Int) (flags : Nat) (ctype : Bytes) (cap : Nat) :
    Option Bytes := do
  let ct ← wSlice16 ctype
  let out := putU16 (wireStatus status) ++ [UInt8.ofNat flags] ++ ct
  if cap < out.length then none else some out

/-- `struct ntc_stream`; `out` is what was written to the socket. -/
structure NtcStream where
  rid : Nat
  begun : Bool := false
  ended : Bool := false
  out : Bytes := []

/-- `send_frame`. -/
def sendFrame (st : NtcStream) (type : NtcMsgType) (payload : Bytes) : NtcStream :=
  { st with
    out := st.out ++ (ntcWireWriteHeader type.code st.rid payload.length ++ payload) }

/-- `stream_begin`; `none` is the result -1. -/
def streamBegin (st : NtcStream) (status : Int) (flag : NtcStreamFlag) (ctype : Bytes) :
    Option NtcStream :=
  if st.begun || st.ended then none
  else
    (ntcWireEncodeResponseBegin status flag.code ctype 1024).map fun buf =>
      sendFrame { st with begun := true } .responseBegin buf

/-- The longest string `ntc_stream_write` takes. -/
def ntcStreamWriteMax : Nat := 0xFFFFFFFF - 4

/-- `ntc_stream_write`; `none` is the result -1. -/
def ntcStreamWrite (st : NtcStream) (data : Bytes) : Option NtcStream :=
  if !st.begun || st.ended then none
  else if data.length = 0 then some st
  else if ntcStreamWriteMax < data.length then none
  else
    let hdr := ntcWireWriteHeader NtcMsgType.responseChunk.code st.rid (data.length + 4)
      ++ putU32 data.length
    some { st with out := st.out ++ hdr ++ data }

/-- `ntc_stream_end`. -/
def ntcStreamEnd (st : NtcStream) : NtcStream :=
  if st.ended then st else sendFrame { st with ended := true } .responseEnd []

/-- A handler that begins a stream, writes the strings `ws` and ends it: what
    it writes to the socket.  A write that is refused is passed over. -/
def streamHandler (rid : Nat) (status : Int) (flag : NtcStreamFlag) (ctype : Bytes)
    (ws : List Bytes) : Option Bytes :=
  (streamBegin { rid := rid } status flag ctype).map fun st =>
    (ntcStreamEnd (ws.foldl (fun st w => (ntcStreamWrite st w).getD st) st)).out

/-! ### As frames -/

/-- The frame of `stream_begin`. -/
def beginMsg (rid : Nat) (hid : rid < 2 ^ 32) (payload : Bytes) (hlen : payload.length ≤ 1024) :
    WireMsg :=
  ⟨NtcMsgType.responseBegin.code, rid, payload, NtcMsgType.code_lt _, hid,
    hlen.trans_lt (by decide)⟩

theorem length_chunk_lt {data : Bytes} (h : data ≠ [] ∧ data.length ≤ ntcStreamWriteMax) :
    (slice32Bytes data).length < 2 ^ 32 := by
  have hmax : ntcStreamWriteMax = 4294967291 := rfl
  rw [slice32Bytes, List.length_append, length_putU32]
  omega

/-- The frame of `ntc_stream_write`; `none` when it writes nothing. -/
def chunkMsg? (rid : Nat) (hid : rid < 2 ^ 32) (data : Bytes) : Option WireMsg :=
  if h : data ≠ [] ∧ data.length ≤ ntcStreamWriteMax then
    some ⟨NtcMsgType.responseChunk.code, rid, slice32Bytes data, NtcMsgType.code_lt _, hid,
      length_chunk_lt h⟩
  else none

/-- The frame of `ntc_stream_end`. -/
def endMsg (rid : Nat) (hid : rid < 2 ^ 32) : WireMsg :=
  ⟨NtcMsgType.responseEnd.code, rid, [], NtcMsgType.code_lt _, hid, zero_lt_word⟩

/-- The frames of a handler that begins a stream, writes `ws` and ends it. -/
def streamMsgs (rid : Nat) (hid : rid < 2 ^ 32) (payload : Bytes) (hlen : payload.length ≤ 1024)
    (ws : List Bytes) : List WireMsg :=
  beginMsg rid hid payload hlen :: (ws.filterMap (chunkMsg? rid hid) ++ [endMsg rid hid])

/-- The strings that `ntc_stream_write` sends. -/
def written (ws : List Bytes) : List Bytes :=
  ws.filter fun w => w ≠ [] ∧ w.length ≤ ntcStreamWriteMax

/-- Strings that are empty add nothing to the body. -/
theorem flatten_written :
    ∀ ws : List Bytes, (written ws).flatten =
      (ws.filter fun w => w.length ≤ ntcStreamWriteMax).flatten := by
  intro ws
  induction ws with
  | nil => rfl
  | cons w ws ih =>
      rw [written] at ih ⊢
      by_cases hnil : w = []
      · subst hnil
        rw [List.filter_cons_of_neg (by simp), List.filter_cons_of_pos (by simp), ih]
        rfl
      · by_cases hmax : w.length ≤ ntcStreamWriteMax
        · rw [List.filter_cons_of_pos (by simp [hnil, hmax]),
            List.filter_cons_of_pos (by simp [hmax]), List.flatten_cons, List.flatten_cons, ih]
        · rw [List.filter_cons_of_neg (by simp [hmax]), List.filter_cons_of_neg (by simp [hmax]), ih]

theorem ntcWireEncodeResponseBegin_some {status : Int} {flags cap : Nat} {ctype payload : Bytes}
    (h : ntcWireEncodeResponseBegin status flags ctype cap = some payload) :
    payload.length ≤ cap ∧ ctype.length < 2 ^ 16 ∧
      payload = putU16 (wireStatus status) ++ [UInt8.ofNat flags] ++ slice16Bytes ctype := by
  rw [ntcWireEncodeResponseBegin, wSlice16_eq] at h
  by_cases hct : ctype.length < 2 ^ 16
  · rw [if_pos hct] at h
    simp only [Option.bind_eq_bind, Option.bind_some] at h
    split_ifs at h with hcap
    cases h
    exact ⟨not_lt.mp hcap, hct, rfl⟩
  · rw [if_neg hct] at h
    cases h

theorem wireStatus_lt (status : Int) : wireStatus status < 2 ^ 16 := by
  rw [wireStatus]
  omega

/-- The begin payload is read back. -/
theorem ntcWireDecodeResponseBegin_encode {status : Int} {flag : NtcStreamFlag} {cap : Nat}
    {ctype payload : Bytes}
    (h : ntcWireEncodeResponseBegin status flag.code ctype cap = some payload) :
    ntcWireDecodeResponseBegin payload = some (wireStatus status, flag.code, ctype) := by
  obtain ⟨-, hct, rfl⟩ := ntcWireEncodeResponseBegin_some h
  have hstatus := u16Codec.dec_enc (wireStatus status)
    ([UInt8.ofNat flag.code] ++ slice16Bytes ctype) (wireStatus_lt status)
  have hflag : rU8 ([UInt8.ofNat flag.code] ++ slice16Bytes ctype) =
      some (flag.code, slice16Bytes ctype) := by
    cases flag <;> rfl
  have hctype := slice16Codec.dec_enc ctype [] hct
  rw [List.append_nil] at hctype
  rw [ntcWireDecodeResponseBegin, List.append_assoc, hstatus]
  simp only [Option.bind_eq_bind, Option.bind_some]
  rw [hflag]
  simp only [Option.bind_some]
  rw [hctype]
  rfl

/-- A chunk payload is read back. -/
theorem ntcWireDecodeChunk_slice32 {data : Bytes} (h : data.length < 2 ^ 32) :
    ntcWireDecodeChunk (slice32Bytes data) = some data := by
  have hdata := slice32Codec.dec_enc data [] h
  rw [List.append_nil] at hdata
  rw [ntcWireDecodeChunk, hdata]
  rfl

/-- A write to a stream that has begun adds its frame, if it has one. -/
theorem ntcStreamWrite_out {st : NtcStream} (hid : st.rid < 2 ^ 32) (hbegun : st.begun = true)
    (hended : st.ended = false) (w : Bytes) :
    (ntcStreamWrite st w).getD st =
      { st with out := st.out ++ (chunkMsg? st.rid hid w).toList.flatMap WireMsg.bytes } := by
  rw [ntcStreamWrite, if_neg (by simp [hbegun, hended]), chunkMsg?]
  by_cases hnil : w = []
  · rw [if_pos (by rw [hnil]; rfl), dif_neg (fun h => h.1 hnil)]
    simp
  rw [if_neg (fun h => hnil (List.length_eq_zero_iff.mp h))]
  by_cases hmax : ntcStreamWriteMax < w.length
  · rw [if_pos hmax, dif_neg (fun h => not_lt.mpr h.2 hmax)]
    simp
  · rw [if_neg hmax, dif_pos ⟨hnil, not_lt.mp hmax⟩]
    have hlen : (putU32 w.length).length + w.length = w.length + 4 := by
      rw [length_putU32, Nat.add_comm]
    simp [WireMsg.bytes, hlen, slice32Bytes]

theorem ntcStreamWrites_out :
    ∀ (ws : List Bytes) (st : NtcStream) (hid : st.rid < 2 ^ 32), st.begun = true →
      st.ended = false → ws.foldl (fun st w => (ntcStreamWrite st w).getD st) st =
        { st with out := st.out ++ (ws.filterMap (chunkMsg? st.rid hid)).flatMap WireMsg.bytes } := by
  intro ws
  induction ws with
  | nil =>
      intro st _ _ _
      simp
  | cons w ws ih =>
      intro st hid hbegun hended
      have hmsgs : (w :: ws).filterMap (chunkMsg? st.rid hid) =
          (chunkMsg? st.rid hid w).toList ++ ws.filterMap (chunkMsg? st.rid hid) := by
        rw [List.filterMap_cons]
        cases chunkMsg? st.rid hid w <;> rfl
      have hrest := ih { st with
        out := st.out ++ (chunkMsg? st.rid hid w).toList.flatMap WireMsg.bytes } hid hbegun hended
      rw [List.foldl_cons, ntcStreamWrite_out hid hbegun hended, hrest, hmsgs,
        List.flatMap_append, List.append_assoc]

/-- What a streaming handler writes is a sequence of frames. -/
theorem streamHandler_out {rid : Nat} (hid : rid < 2 ^ 32) {status : Int} {flag : NtcStreamFlag}
    {ctype out : Bytes} {ws : List Bytes} (h : streamHandler rid status flag ctype ws = some out) :
    ∃ payload, ∃ hlen : payload.length ≤ 1024,
      ntcWireDecodeResponseBegin payload = some (wireStatus status, flag.code, ctype) ∧
        out = (streamMsgs rid hid payload hlen ws).flatMap WireMsg.bytes := by
  rw [streamHandler, streamBegin, if_neg (by simp)] at h
  cases hbegin : ntcWireEncodeResponseBegin status flag.code ctype 1024 with
  | none =>
      rw [hbegin] at h
      cases h
  | some payload =>
      rw [hbegin, Option.map_some, Option.map_some] at h
      refine ⟨payload, (ntcWireEncodeResponseBegin_some hbegin).1,
        ntcWireDecodeResponseBegin_encode hbegin, ?_⟩
      rw [ntcStreamWrites_out ws _ (by exact hid) rfl rfl, ntcStreamEnd,
        if_neg (by simp [sendFrame])] at h
      cases h
      simp [sendFrame, streamMsgs, beginMsg, endMsg, WireMsg.bytes]

end Naitron
