/-
  Naitron.WireRequest

  The request payload of `src/common/wire.c`, written and read with the
  source's cursors: `ntc_wire_encode_request` and `ntc_wire_decode_request`.

  `Naitron.Wire` has the same encoder without a cursor, which is what the
  gateway's model uses; the two are proved equal.  The decoder is related to a
  reader that stops at the first error, and that one to the payload's bytes
  field by field.
-/

import Naitron.WireBuf

namespace Naitron

open Lib

/-! ## Numbers and slices -/

theorem u16Codec : PrefixCodec putU16 rU16 (· < 2 ^ 16) :=
  PrefixCodec.fixedWidth 2 (fun v _ => length_putU16 v)
    (fun v hv => by rw [getBe_putU16, Nat.mod_eq_of_lt hv])
    (fun s hs => ⟨getBe_lt hs, putU16_getBe hs⟩)

theorem u32Codec : PrefixCodec putU32 rU32 (· < 2 ^ 32) :=
  PrefixCodec.fixedWidth 4 (fun v _ => length_putU32 v)
    (fun v hv => by rw [getBe_putU32, Nat.mod_eq_of_lt hv])
    (fun s hs => ⟨getBe_lt hs, putU32_getBe hs⟩)

/-- A slice behind its 16-bit length. -/
def slice16Bytes (s : Bytes) : Bytes := putU16 s.length ++ s

/-- A slice behind its 32-bit length. -/
def slice32Bytes (s : Bytes) : Bytes := putU32 s.length ++ s

theorem slice16Codec : PrefixCodec slice16Bytes rSlice16 fun s => s.length < 2 ^ 16 :=
  u16Codec.lengthPrefixed

theorem slice32Codec : PrefixCodec slice32Bytes rSlice32 fun s => s.length < 2 ^ 32 :=
  u32Codec.lengthPrefixed

theorem wSlice16_eq (s : Bytes) :
    wSlice16 s = if s.length < 2 ^ 16 then some (slice16Bytes s) else none := by
  rw [wSlice16, slice16Bytes]
  by_cases h : s.length < 2 ^ 16
  · rw [if_neg (by omega), if_pos h]
  · rw [if_pos (by omega), if_neg h]

-- ============================================================================
-- Request payload
-- ============================================================================

/-- `ntc_wire_encode_request` on its cursor; `none` is the result -1. -/
def WBuf.encodeRequest (req : NtcRequest) (cap : Nat) : Option Bytes :=
  let w := WBuf.start cap
  let w := w.slice16 req.method
  let w := w.slice16 req.path
  let w := w.slice16 req.query
  let nh := if ntcMaxHeaders < req.headers.length then ntcMaxHeaders else req.headers.length
  let w := w.u16 nh
  let w := w.pairs (req.headers.take nh)
  let np := if ntcMaxParams < req.params.length then ntcMaxParams else req.params.length
  let w := w.u16 np
  let w := w.pairs (req.params.take np)
  let w := w.slice16 req.authSub
  let w := w.slice16 req.authScope
  let w := w.u32 req.body.length
  let w := w.put req.body
  w.finish

/-- A header or parameter whose name and value are ranges of the input. -/
structure SpanHeader where
  name : Span
  value : Span
deriving DecidableEq, Repr

/-- `ntc_request` as the decoder fills it in. -/
structure SpanRequest where
  method : Span
  target : Span
  path : Span
  query : Span
  minorVersion : Nat
  headers : List SpanHeader
  params : List SpanHeader
  authSub : Span
  authScope : Span
  hasContentLength : Bool
  contentLength : Nat
  body : Span
deriving DecidableEq, Repr

/-- `len` of a slice. -/
def Span.length : Span → Nat
  | .null => 0
  | .range _ len => len

/-- The body of the loop that reads headers or parameters. -/
def RBuf.header : CursorM SpanHeader := do
  let name ← RBuf.slice16
  let value ← RBuf.slice16
  return ⟨name, value⟩

/-- The loop that reads headers or parameters. -/
def RBuf.pairs : Nat → CursorM (List SpanHeader)
  | 0 => pure []
  | n + 1 => do
      let h ← RBuf.header
      let hs ← RBuf.pairs n
      return h :: hs

/-- A count, refused over `limit`, and the loop it bounds. -/
def RBuf.counted (limit : Nat) : CursorM (List SpanHeader) := do
  let n ← RBuf.u16
  if limit < n then failure else RBuf.pairs n

/-- `ntc_wire_decode_request` on its cursor. -/
def RBuf.request : CursorM SpanRequest := do
  let method ← RBuf.slice16
  let path ← RBuf.slice16
  let query ← RBuf.slice16
  let headers ← RBuf.counted ntcMaxHeaders
  let params ← RBuf.counted ntcMaxParams
  let authSub ← RBuf.slice16
  let authScope ← RBuf.slice16
  let body ← RBuf.slice32
  return {
    method := method
    target := path
    path := path
    query := query
    minorVersion := 1
    headers := headers
    params := params
    authSub := authSub
    authScope := authScope
    hasContentLength := decide (0 < body.length)
    contentLength := body.length
    body := body }

/-- `ntc_wire_decode_request`: the request and the number of bytes it took. -/
def RBuf.decodeRequest (buf : Bytes) : Option (SpanRequest × Nat) := RBuf.decode RBuf.request buf

/-- The bytes of a header whose slices are in `p`. -/
def SpanHeader.bytes (p : Bytes) (h : SpanHeader) : NtcHeader := ⟨h.name.bytes p, h.value.bytes p⟩

/-- The request a controller reads through the slices. -/
def SpanRequest.bytes (p : Bytes) (r : SpanRequest) : NtcRequest :=
  { method := r.method.bytes p
    target := r.target.bytes p
    path := r.path.bytes p
    query := r.query.bytes p
    minorVersion := r.minorVersion
    headers := r.headers.map (SpanHeader.bytes p)
    params := r.params.map (SpanHeader.bytes p)
    authSub := r.authSub.bytes p
    authScope := r.authScope.bytes p
    hasContentLength := r.hasContentLength
    contentLength := r.contentLength
    body := r.body.bytes p }

/-- Every slice of a decoded request. -/
def SpanRequest.spans (r : SpanRequest) : List Span :=
  [r.method, r.target, r.path, r.query, r.authSub, r.authScope, r.body]
    ++ (r.headers ++ r.params).flatMap fun h => [h.name, h.value]

/-! ### Without a cursor -/

/-- A header: its name, then its value. -/
def headerBytes (h : NtcHeader) : Bytes := slice16Bytes h.name ++ slice16Bytes h.value

/-- A list of headers behind their number. -/
def headersBytes (hs : List NtcHeader) : Bytes := putU16 hs.length ++ hs.flatMap headerBytes

/-- The payload of a request. -/
def requestBytes (req : NtcRequest) : Bytes :=
  slice16Bytes req.method ++ slice16Bytes req.path ++ slice16Bytes req.query
    ++ headersBytes req.headers ++ headersBytes req.params
    ++ slice16Bytes req.authSub ++ slice16Bytes req.authScope ++ slice32Bytes req.body

/-- The header fits its two length prefixes. -/
def NtcHeader.FitsWire (h : NtcHeader) : Prop := h.name.length < 2 ^ 16 ∧ h.value.length < 2 ^ 16

/-- The request fits the payload's counts and length prefixes. -/
structure NtcRequest.FitsWire (req : NtcRequest) : Prop where
  method : req.method.length < 2 ^ 16
  path : req.path.length < 2 ^ 16
  query : req.query.length < 2 ^ 16
  headers : req.headers.length ≤ ntcMaxHeaders ∧ ∀ h ∈ req.headers, h.FitsWire
  params : req.params.length ≤ ntcMaxParams ∧ ∀ h ∈ req.params, h.FitsWire
  authSub : req.authSub.length < 2 ^ 16
  authScope : req.authScope.length < 2 ^ 16
  body : req.body.length < 2 ^ 32

/-- What is left of a request behind the wire: the target is the path, the
    version 1.1, and the length the body's. -/
def NtcRequest.overWire (req : NtcRequest) : NtcRequest :=
  { req with
    target := req.path
    minorVersion := 1
    hasContentLength := decide (0 < req.body.length)
    contentLength := req.body.length }

def readHeader : ReadM NtcHeader := do
  let name ← rSlice16
  let value ← rSlice16
  return ⟨name, value⟩

/-- A count, refused over `limit`, and that many headers. -/
def readHeaders (limit : Nat) : ReadM (List NtcHeader) := readCounted limit rU16 readHeader

/-- `ntc_wire_decode_request`, stopping at the first error. -/
def readRequest : ReadM NtcRequest := do
  let method ← rSlice16
  let path ← rSlice16
  let query ← rSlice16
  let headers ← readHeaders ntcMaxHeaders
  let params ← readHeaders ntcMaxParams
  let authSub ← rSlice16
  let authScope ← rSlice16
  let body ← rSlice32
  return {
    method := method
    target := path
    path := path
    query := query
    minorVersion := 1
    headers := headers
    params := params
    authSub := authSub
    authScope := authScope
    hasContentLength := decide (0 < body.length)
    contentLength := body.length
    body := body }

theorem headerCodec : PrefixCodec headerBytes readHeader NtcHeader.FitsWire where
  dec_enc := by
    rintro ⟨name, value⟩ rest ⟨hname, hvalue⟩
    rw [headerBytes, List.append_assoc, readHeader, slice16Codec.dec_bind hname,
      slice16Codec.dec_bind hvalue]
    rfl
  enc_dec := by
    intro s rest h hd
    obtain ⟨name, s', okn, hs, hd⟩ := slice16Codec.bind_eq_some hd
    obtain ⟨value, s'', okv, hs', hd⟩ := slice16Codec.bind_eq_some hd
    cases hd
    refine ⟨⟨okn, okv⟩, ?_⟩
    rw [hs, hs', headerBytes, List.append_assoc]

theorem headersCodec {limit : Nat} (hlimit : limit < 2 ^ 16) :
    PrefixCodec headersBytes (readHeaders limit)
      (fun hs => hs.length ≤ limit ∧ ∀ h ∈ hs, h.FitsWire) :=
  PrefixCodec.counted limit u16Codec headerCodec fun _ hn => lt_of_le_of_lt hn hlimit

theorem ntcMaxHeaders_lt : ntcMaxHeaders < 2 ^ 16 := by decide

theorem ntcMaxParams_lt : ntcMaxParams < 2 ^ 16 := by decide

/-- A payload reads back as the request it was written from. -/
theorem readRequest_requestBytes {req : NtcRequest} (h : req.FitsWire) (rest : Bytes) :
    readRequest (requestBytes req ++ rest) = some (req.overWire, rest) := by
  simp only [requestBytes, List.append_assoc]
  rw [readRequest, slice16Codec.dec_bind h.method, slice16Codec.dec_bind h.path,
    slice16Codec.dec_bind h.query, (headersCodec ntcMaxHeaders_lt).dec_bind h.headers,
    (headersCodec ntcMaxParams_lt).dec_bind h.params, slice16Codec.dec_bind h.authSub,
    slice16Codec.dec_bind h.authScope, slice32Codec.dec_bind h.body]
  rfl

/-- A string the reader accepts starts with the payload of what it read. -/
theorem readRequest_eq_some {s rest : Bytes} {req : NtcRequest}
    (hd : readRequest s = some (req, rest)) :
    req.FitsWire ∧ req.overWire = req ∧ s = requestBytes req ++ rest := by
  obtain ⟨method, s₁, okMethod, e₁, hd⟩ := slice16Codec.bind_eq_some hd
  obtain ⟨path, s₂, okPath, e₂, hd⟩ := slice16Codec.bind_eq_some hd
  obtain ⟨query, s₃, okQuery, e₃, hd⟩ := slice16Codec.bind_eq_some hd
  obtain ⟨headers, s₄, okHeaders, e₄, hd⟩ := (headersCodec ntcMaxHeaders_lt).bind_eq_some hd
  obtain ⟨params, s₅, okParams, e₅, hd⟩ := (headersCodec ntcMaxParams_lt).bind_eq_some hd
  obtain ⟨authSub, s₆, okSub, e₆, hd⟩ := slice16Codec.bind_eq_some hd
  obtain ⟨authScope, s₇, okScope, e₇, hd⟩ := slice16Codec.bind_eq_some hd
  obtain ⟨body, s₈, okBody, e₈, hd⟩ := slice32Codec.bind_eq_some hd
  cases hd
  refine ⟨⟨okMethod, okPath, okQuery, okHeaders, okParams, okSub, okScope, okBody⟩, rfl, ?_⟩
  rw [e₁, e₂, e₃, e₄, e₅, e₆, e₇, e₈]
  simp only [requestBytes, List.append_assoc]

/-! ### The cursors compute it -/

theorem Writes.finish {f : WBuf → WBuf} {enc : Option Bytes} (h : Writes f enc) (cap : Nat) :
    (f (WBuf.start cap)).finish =
      enc.bind fun s => if cap < s.length then none else some s := by
  rw [(h (WBuf.start cap)).2]
  rfl

/-- The count the encoder writes is the length of the list it writes. -/
theorem count_eq_length_take (limit : Nat) (hs : List NtcHeader) :
    (if limit < hs.length then limit else hs.length) = (hs.take limit).length := by
  rw [List.length_take]
  split_ifs <;> omega

theorem take_length_take (limit : Nat) (hs : List NtcHeader) :
    hs.take (hs.take limit).length = hs.take limit := by
  rw [List.length_take, ← List.take_take, List.take_of_length_le le_rfl]

/-- The bounded writer produces the payload, or fails where it does not fit. -/
theorem encodeRequest_eq (req : NtcRequest) (cap : Nat) :
    WBuf.encodeRequest req cap = ntcWireEncodeRequest req cap := by
  have hwrite := (Writes.slice16 req.method).seq <| (Writes.slice16 req.path).seq <|
    (Writes.slice16 req.query).seq <|
    (Writes.put (putU16 (req.headers.take ntcMaxHeaders).length)).seq <|
    (Writes.pairs (req.headers.take ntcMaxHeaders)).seq <|
    (Writes.put (putU16 (req.params.take ntcMaxParams).length)).seq <|
    (Writes.pairs (req.params.take ntcMaxParams)).seq <| (Writes.slice16 req.authSub).seq <|
    (Writes.slice16 req.authScope).seq <| (Writes.put (putU32 req.body.length)).seq
    (Writes.put req.body)
  have hfin := hwrite.finish cap
  simp only [WBuf.encodeRequest, count_eq_length_take, take_length_take]
  refine hfin.trans ?_
  rw [ntcWireEncodeRequest]
  dsimp only
  rcases wSlice16 req.method with _ | method
  · rfl
  rcases wSlice16 req.path with _ | path
  · rfl
  rcases wSlice16 req.query with _ | query
  · rfl
  rcases wPairs (req.headers.take ntcMaxHeaders) with _ | headers
  · rfl
  rcases wPairs (req.params.take ntcMaxParams) with _ | params
  · rfl
  rcases wSlice16 req.authSub with _ | sub
  · rfl
  rcases wSlice16 req.authScope with _ | scope
  · rfl
  simp only [Option.bind_eq_bind, Option.bind_some, pure, List.append_assoc]

/-- Of a request that fits, the payload is refused only for want of room. -/
theorem ntcWireEncodeRequest_eq {req : NtcRequest} (h : req.FitsWire) (cap : Nat) :
    ntcWireEncodeRequest req cap =
      if cap < (requestBytes req).length then none else some (requestBytes req) := by
  have hpairs : ∀ hs : List NtcHeader, (∀ h ∈ hs, h.FitsWire) →
      wPairs hs = some (hs.flatMap headerBytes) := by
    intro hs
    induction hs with
    | nil =>
        intro _
        rfl
    | cons x hs ih =>
        intro hfit
        obtain ⟨hname, hvalue⟩ := hfit x List.mem_cons_self
        rw [wPairs, wSlice16_eq, if_pos hname, wSlice16_eq, if_pos hvalue,
          ih fun y hy => hfit y (List.mem_cons_of_mem x hy)]
        rfl
  rw [ntcWireEncodeRequest, List.take_of_length_le h.headers.1, List.take_of_length_le h.params.1]
  simp only [hpairs _ h.headers.2, hpairs _ h.params.2, wSlice16_eq, h.method, h.path, h.query,
    h.authSub, h.authScope, if_true, Option.bind_eq_bind, Option.bind_some, requestBytes,
    headersBytes, slice32Bytes,
    List.append_assoc]

theorem wSlice16_some {s b : Bytes} (h : wSlice16 s = some b) :
    s.length < 2 ^ 16 ∧ b = slice16Bytes s := by
  rw [wSlice16_eq] at h
  split at h
  · rename_i hfit
    exact ⟨hfit, (Option.some.inj h).symm⟩
  · cases h

theorem wPairs_some : ∀ {hs : List NtcHeader} {b : Bytes}, wPairs hs = some b →
    (∀ h ∈ hs, h.FitsWire) ∧ b = hs.flatMap headerBytes
  | [], b, h => ⟨by simp, (Option.some.inj h).symm⟩
  | x :: hs, b, h => by
      obtain ⟨n, hn, h⟩ := Option.bind_eq_some_iff.mp h
      obtain ⟨v, hv, h⟩ := Option.bind_eq_some_iff.mp h
      obtain ⟨r, hr, h⟩ := Option.bind_eq_some_iff.mp h
      obtain ⟨hname, rfl⟩ := wSlice16_some hn
      obtain ⟨hvalue, rfl⟩ := wSlice16_some hv
      obtain ⟨hfit, rfl⟩ := wPairs_some hr
      refine ⟨?_, (Option.some.inj h).symm⟩
      rintro y (_ | ⟨_, hy⟩)
      · exact ⟨hname, hvalue⟩
      · exact hfit y hy

/-- The request with the headers and parameters there is room for. -/
def NtcRequest.capped (req : NtcRequest) : NtcRequest :=
  { req with headers := req.headers.take ntcMaxHeaders, params := req.params.take ntcMaxParams }

/-- A payload that was produced is that of a request that fits. -/
theorem ntcWireEncodeRequest_some {req : NtcRequest} {cap : Nat} {enc : Bytes}
    (hcap : cap < 2 ^ 32) (h : ntcWireEncodeRequest req cap = some enc) :
    req.capped.FitsWire ∧ enc = requestBytes req.capped := by
  obtain ⟨m, hm, h⟩ := Option.bind_eq_some_iff.mp h
  obtain ⟨pa, hpa, h⟩ := Option.bind_eq_some_iff.mp h
  obtain ⟨q, hq, h⟩ := Option.bind_eq_some_iff.mp h
  obtain ⟨hs, hhs, h⟩ := Option.bind_eq_some_iff.mp h
  obtain ⟨ps, hps, h⟩ := Option.bind_eq_some_iff.mp h
  obtain ⟨sub, hsub, h⟩ := Option.bind_eq_some_iff.mp h
  obtain ⟨scope, hscope, h⟩ := Option.bind_eq_some_iff.mp h
  obtain ⟨hmethod, rfl⟩ := wSlice16_some hm
  obtain ⟨hpath, rfl⟩ := wSlice16_some hpa
  obtain ⟨hquery, rfl⟩ := wSlice16_some hq
  obtain ⟨hheaders, rfl⟩ := wPairs_some hhs
  obtain ⟨hparams, rfl⟩ := wPairs_some hps
  obtain ⟨hauthSub, rfl⟩ := wSlice16_some hsub
  obtain ⟨hauthScope, rfl⟩ := wSlice16_some hscope
  dsimp only at h
  split at h
  · cases h
  · rename_i hroom
    obtain rfl := Option.some.inj h
    have hbody : req.body.length < 2 ^ 32 := by
      rw [List.length_append] at hroom
      omega
    refine ⟨⟨hmethod, hpath, hquery, ⟨List.length_take_le _ _, hheaders⟩,
      ⟨List.length_take_le _ _, hparams⟩, hauthSub, hauthScope, hbody⟩, ?_⟩
    simp only [requestBytes, headersBytes, slice32Bytes, NtcRequest.capped, List.append_assoc]

/-- The slices of a header are in `p`. -/
def SpanHeader.Inside (p : Bytes) (h : SpanHeader) : Prop := h.name.Inside p ∧ h.value.Inside p

theorem Follows.header {p : Bytes} :
    Follows p RBuf.header readHeader (SpanHeader.bytes p) (SpanHeader.Inside p) := by
  refine Follows.slice16.bind fun name => ?_
  refine Follows.slice16.bind fun value => ?_
  exact Follows.pure rfl fun hvalue hname => ⟨hname, hvalue⟩

theorem Follows.pairs {p : Bytes} :
    ∀ n, Follows p (RBuf.pairs n) (Lib.readList readHeader n) (List.map (SpanHeader.bytes p))
      fun hs => ∀ h ∈ hs, h.Inside p := by
  intro n
  induction n with
  | zero => exact Follows.pure rfl (by intro h hh; cases hh)
  | succ n ih =>
      refine Follows.header.bind fun h => ?_
      refine ih.bind fun hs => ?_
      refine Follows.pure rfl fun hhs hh x hx => ?_
      rcases List.mem_cons.mp hx with rfl | hx
      · exact hh
      · exact hhs x hx

theorem Follows.counted {p : Bytes} (limit : Nat) :
    Follows p (RBuf.counted limit) (readHeaders limit) (List.map (SpanHeader.bytes p))
      fun hs => ∀ h ∈ hs, h.Inside p := by
  refine Follows.u16.bind fun n => ?_
  by_cases hlt : limit < n
  · intro r hp
    simp only [id, if_pos hlt]
    cases r.rest <;> rfl
  · simp only [id, if_neg hlt]
    exact (Follows.pairs n).imp fun _ h _ => h

/-- What the decoder fills in besides the slices, and where those are. -/
structure SpanRequest.Good (p : Bytes) (r : SpanRequest) : Prop where
  inside : ∀ sp ∈ r.spans, sp.Inside p
  contentLength : r.contentLength = r.body.length
  hasContentLength : r.hasContentLength = decide (0 < r.body.length)

/-- The bytes of the slices, with the length taken from the body's. -/
def SpanRequest.read (p : Bytes) (r : SpanRequest) : NtcRequest :=
  { r.bytes p with
    hasContentLength := decide (0 < (r.body.bytes p).length)
    contentLength := (r.body.bytes p).length }

theorem Span.length_bytes {p : Bytes} {sp : Span} (h : sp.Inside p) :
    (sp.bytes p).length = sp.length := by
  cases sp with
  | null => rfl
  | range off len =>
      have hin : off + len ≤ p.length := h
      rw [Span.bytes, Span.length, List.length_take, List.length_drop]
      omega

theorem SpanRequest.read_eq_bytes {p : Bytes} {r : SpanRequest} (h : r.Good p) :
    r.read p = r.bytes p := by
  have hbody := Span.length_bytes (h.inside r.body (by simp [SpanRequest.spans]))
  rw [SpanRequest.read, hbody, ← h.hasContentLength, ← h.contentLength]
  rfl

theorem Follows.request {p : Bytes} :
    Follows p RBuf.request readRequest (SpanRequest.read p) (SpanRequest.Good p) := by
  refine Follows.slice16.bind fun method => ?_
  refine Follows.slice16.bind fun path => ?_
  refine Follows.slice16.bind fun query => ?_
  refine (Follows.counted ntcMaxHeaders).bind fun headers => ?_
  refine (Follows.counted ntcMaxParams).bind fun params => ?_
  refine Follows.slice16.bind fun authSub => ?_
  refine Follows.slice16.bind fun authScope => ?_
  refine Follows.slice32.bind fun body => ?_
  refine Follows.pure rfl fun hbody hscope hsub hparams hheaders hquery hpath hmethod => ?_
  refine ⟨?_, rfl, rfl⟩
  intro sp hsp
  simp only [SpanRequest.spans, List.mem_append, List.mem_cons, List.not_mem_nil, or_false,
    List.mem_flatMap] at hsp
  rcases hsp with (rfl | rfl | rfl | rfl | rfl | rfl | rfl) | ⟨h, hh, rfl | rfl⟩
  · exact hmethod
  · exact hpath
  · exact hpath
  · exact hquery
  · exact hsub
  · exact hscope
  · exact hbody
  · rcases hh with hh | hh
    · exact (hheaders h hh).1
    · exact (hparams h hh).1
  · rcases hh with hh | hh
    · exact (hheaders h hh).2
    · exact (hparams h hh).2

/-- The decoder accepts what the reader accepts, and its slices hold the bytes
    of the request read. -/
theorem decodeRequest_eq_some {buf : Bytes} {r : SpanRequest} {n : Nat}
    (h : RBuf.decodeRequest buf = some (r, n)) :
    readRequest buf = some (r.bytes buf, buf.drop n) ∧ (∀ sp ∈ r.spans, sp.Inside buf) ∧
      n ≤ buf.length := by
  have hdec := (Follows.request (p := buf)).decode
  obtain ⟨hgood, hn⟩ := Follows.request.decode_good h
  rw [RBuf.decodeRequest] at h
  rw [h, Option.map_some, SpanRequest.read_eq_bytes hgood] at hdec
  exact ⟨hdec.symm, hgood.inside, hn⟩

theorem decodeRequest_of_read {buf rest : Bytes} {req : NtcRequest}
    (h : readRequest buf = some (req, rest)) :
    ∃ r n, RBuf.decodeRequest buf = some (r, n) ∧ r.bytes buf = req ∧ buf.drop n = rest ∧
      n ≤ buf.length := by
  have hdec := (Follows.request (p := buf)).decode
  rw [h, Option.map_eq_some_iff] at hdec
  obtain ⟨⟨r, n⟩, hr, -⟩ := hdec
  obtain ⟨hread, -, hn⟩ := decodeRequest_eq_some hr
  rw [h] at hread
  cases hread
  exact ⟨r, n, hr, rfl, rfl, hn⟩

/-- A payload that was produced reads back as the request it was made of. -/
theorem decodeRequest_of_encode {req : NtcRequest} {cap : Nat} {enc : Bytes} (hcap : cap < 2 ^ 32)
    (h : ntcWireEncodeRequest req cap = some enc) :
    ∃ r n, RBuf.decodeRequest enc = some (r, n) ∧ r.bytes enc = req.capped.overWire := by
  obtain ⟨hfit, rfl⟩ := ntcWireEncodeRequest_some hcap h
  have hread := readRequest_requestBytes hfit []
  rw [List.append_nil] at hread
  obtain ⟨r, n, hdec, hr, -, -⟩ := decodeRequest_of_read hread
  exact ⟨r, n, hdec, hr⟩

/-! ### The payload is a bijection on its image -/

/-- Two length prefixes and what they announce. -/
def headerSize (h : NtcHeader) : Nat := (2 + h.name.length) + (2 + h.value.length)

/-- The size of a request's payload. -/
def requestSize (req : NtcRequest) : Nat :=
  (2 + req.method.length) + (2 + req.path.length) + (2 + req.query.length)
    + (2 + (req.headers.map headerSize).sum) + (2 + (req.params.map headerSize).sum)
    + (2 + req.authSub.length) + (2 + req.authScope.length) + (4 + req.body.length)

theorem length_headersBytes (hs : List NtcHeader) :
    (headersBytes hs).length = 2 + (hs.map headerSize).sum := by
  have hsum : (hs.flatMap headerBytes).length = (hs.map headerSize).sum := by
    rw [List.length_flatMap]
    congr 1
    refine List.map_congr_left fun h _ => ?_
    simp only [headerBytes, slice16Bytes, headerSize, List.length_append, length_putU16]
  rw [headersBytes, List.length_append, length_putU16, hsum]

theorem length_requestBytes (req : NtcRequest) : (requestBytes req).length = requestSize req := by
  simp only [requestBytes, requestSize, List.length_append, length_headersBytes, slice16Bytes,
    slice32Bytes, length_putU16, length_putU32]

/-- Encoding a request that fits its counts and prefixes fails only for want of
    room and is undone by the decoder; whatever the decoder accepts is, as far
    as it read, the encoding of the result, and every slice of the result lies
    in the input. -/
theorem encodeRequest_decodeRequest {req : NtcRequest} (hfit : req.FitsWire) (cap : Nat)
    (buf : Bytes) :
    (WBuf.encodeRequest req cap = none ↔ cap < requestSize req) ∧
    (requestSize req ≤ cap →
      ∃ out r, WBuf.encodeRequest req cap = some out ∧ out.length = requestSize req ∧
        RBuf.decodeRequest out = some (r, out.length) ∧ r.bytes out = req.overWire) ∧
    ∀ r n, RBuf.decodeRequest buf = some (r, n) →
      n ≤ buf.length ∧ (∀ room, n ≤ room →
        WBuf.encodeRequest (r.bytes buf) room = some (buf.take n)) ∧
      ∀ sp ∈ r.spans, sp.Inside buf := by
  have henc : ∀ {q : NtcRequest}, q.FitsWire → ∀ room, WBuf.encodeRequest q room =
      if room < requestSize q then none else some (requestBytes q) := by
    intro q hq room
    rw [encodeRequest_eq, ntcWireEncodeRequest_eq hq, length_requestBytes]
  refine ⟨?_, ?_, ?_⟩
  · rw [henc hfit]
    split_ifs with hcap
    · exact iff_of_true rfl hcap
    · exact iff_of_false (by simp) hcap
  · intro hroom
    have hread := readRequest_requestBytes hfit []
    rw [List.append_nil] at hread
    obtain ⟨r, n, hdec, hr, hdrop, hn⟩ := decodeRequest_of_read hread
    have hlen : n = (requestBytes req).length :=
      le_antisymm hn (List.drop_eq_nil_iff.mp hdrop)
    refine ⟨requestBytes req, r, ?_, length_requestBytes req, ?_, hr⟩
    · rw [henc hfit, if_neg (Nat.not_lt.mpr hroom)]
    · rw [hdec, hlen]
  · intro r n hdec
    obtain ⟨hread, hin, hn⟩ := decodeRequest_eq_some hdec
    obtain ⟨hfit', -, hbuf⟩ := readRequest_eq_some hread
    -- the bytes before offset `n` are the encoding, because those after it are the rest
    have htake : requestBytes (r.bytes buf) = buf.take n := by
      have := (List.take_append_drop n buf).trans hbuf
      exact (List.append_cancel_right this).symm
    refine ⟨hn, ?_, hin⟩
    intro room hroom
    rw [henc hfit', htake, ← length_requestBytes, htake, List.length_take, if_neg (by omega)]

/-- `GET /a` with one header and one parameter, in 64 bytes. -/
theorem encodeRequest_decodeRequest_get :
    let req : NtcRequest :=
      { method := [71, 69, 84], path := [47, 97], headers := [⟨[72], [104]⟩],
        params := [⟨[105], [55]⟩], body := [123, 125] }
    req.FitsWire ∧ ∃ out r, WBuf.encodeRequest req 64 = some out ∧
      RBuf.decodeRequest out = some (r, out.length) ∧ r.bytes out = req.overWire := by
  intro req
  have hfit : req.FitsWire :=
    ⟨by decide, by decide, by decide, ⟨by decide, by simp [req, NtcHeader.FitsWire]⟩,
      ⟨by decide, by simp [req, NtcHeader.FitsWire]⟩, by decide, by decide, by decide⟩
  obtain ⟨-, hround, -⟩ := encodeRequest_decodeRequest hfit 64 []
  obtain ⟨out, r, henc, -, hdec, hr⟩ := hround (by decide)
  exact ⟨hfit, out, r, henc, hdec, hr⟩

end Naitron
