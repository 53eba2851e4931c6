/-
  Naitron.WireResponse

  The two generations of the response payload of `src/common/wire.c`:
  `ntc_wire_encode_response` / `ntc_wire_decode_response`, and the `_ex` pair
  with a header blob behind the body.  Whether there is a blob shows only in
  the bytes that are left after the body.
-/

import Naitron.WireRequest

namespace Naitron

open Lib

/-! ### On the cursors -/

/-- The fields both encoders write. -/
def WBuf.response (status : Nat) (ctype body : Bytes) (w : WBuf) : WBuf :=
  let w := w.u16 status
  let w := w.slice16 ctype
  let w := w.u32 body.length
  w.put body

/-- `ntc_wire_encode_response` on its cursor. -/
def WBuf.encodeResponse (status : Nat) (ctype body : Bytes) (cap : Nat) : Option Bytes :=
  ((WBuf.start cap).response status ctype body).finish

/-- `ntc_wire_encode_response_ex` on its cursor: the same, and a header blob. -/
def WBuf.encodeResponseEx (status : Nat) (ctype body headers : Bytes) (cap : Nat) :
    Option Bytes :=
  (((WBuf.start cap).response status ctype body).slice16 headers).finish

/-- What the response decoders fill in. -/
structure SpanResponse where
  status : Nat
  ctype : Span
  body : Span
  headers : Span
deriving DecidableEq, Repr

def SpanResponse.bytes (p : Bytes) (r : SpanResponse) : WireResponse :=
  ⟨r.status, r.ctype.bytes p, r.body.bytes p, r.headers.bytes p⟩

/-- `if (r.off < r.len) *headers = r_slice16(&r); else` the empty slice. -/
def RBuf.trailer : CursorM Span := fun r =>
  if r.off < r.p.length then RBuf.slice16 r else some (.null, r)

/-- `ntc_wire_decode_response`; it has no headers to fill in. -/
def RBuf.response : CursorM SpanResponse := do
  let status ← RBuf.u16
  let ctype ← RBuf.slice16
  let body ← RBuf.slice32
  return ⟨status, ctype, body, .null⟩

/-- `ntc_wire_decode_response_ex`. -/
def RBuf.responseEx : CursorM SpanResponse := do
  let status ← RBuf.u16
  let ctype ← RBuf.slice16
  let body ← RBuf.slice32
  let headers ← RBuf.trailer
  return ⟨status, ctype, body, headers⟩

def RBuf.decodeResponse (buf : Bytes) : Option WireResponse :=
  (RBuf.decode RBuf.response buf).map fun x => x.1.bytes buf

def RBuf.decodeResponseEx (buf : Bytes) : Option WireResponse :=
  (RBuf.decode RBuf.responseEx buf).map fun x => x.1.bytes buf

/-! ### Without a cursor -/

/-- The payload of a response. -/
def responseBytes (status : Nat) (ctype body : Bytes) : Bytes :=
  putU16 status ++ slice16Bytes ctype ++ slice32Bytes body

def readResponse : ReadM WireResponse := do
  let status ← rU16
  let ctype ← rSlice16
  let body ← rSlice32
  return ⟨status, ctype, body, []⟩

/-- The optional blob at the end of a payload. -/
def readTrailer : ReadM Bytes := fun s => if s.isEmpty then some ([], s) else rSlice16 s

def readResponseEx : ReadM WireResponse := do
  let status ← rU16
  let ctype ← rSlice16
  let body ← rSlice32
  let headers ← readTrailer
  return ⟨status, ctype, body, headers⟩

/-- The response fits its length prefixes. -/
structure ResponseFits (status : Nat) (ctype body : Bytes) : Prop where
  status : status < 2 ^ 16
  ctype : ctype.length < 2 ^ 16
  body : body.length < 2 ^ 32

theorem Writes.response (status : Nat) (ctype body : Bytes) :
    Writes (WBuf.response status ctype body)
      (if ctype.length < 2 ^ 16 then some (responseBytes status ctype body) else none) := by
  have hseq := (((Writes.put (putU16 status)).seq (Writes.slice16 ctype)).seq
    (Writes.put (putU32 body.length))).seq (Writes.put body)
  rw [wSlice16_eq] at hseq
  split
  · next h =>
      rw [if_pos h] at hseq
      simp only [Option.bind_eq_bind, Option.bind_some, pure, List.append_assoc] at hseq
      simp only [responseBytes, slice32Bytes, List.append_assoc]
      exact hseq
  · next h =>
      rw [if_neg h] at hseq
      exact hseq

theorem Follows.trailer {p : Bytes} :
    Follows p RBuf.trailer readTrailer (Span.bytes p) fun _ => True := by
  intro r hp
  have hslice := (Follows.slice16.imp fun _ _ => trivial) r hp
  by_cases hmore : r.off < r.p.length
  · have hrest : r.rest.bind readTrailer = r.rest.bind rSlice16 := by
      cases herr : r.err <;> simp [RBuf.rest, herr, readTrailer, hmore]
    rw [RBuf.trailer, if_pos hmore, hrest]
    exact hslice
  · have hrest : r.rest.bind readTrailer = r.rest.map fun s => ([], s) := by
      cases herr : r.err <;> simp [RBuf.rest, herr, readTrailer, Nat.not_lt.mp hmore]
    rw [RBuf.trailer, if_neg hmore, hrest]
    exact ⟨hp, fun _ => trivial, rfl⟩

theorem Follows.response {p : Bytes} :
    Follows p RBuf.response readResponse (SpanResponse.bytes p) fun _ => True := by
  refine Follows.u16.bind fun status => ?_
  refine Follows.slice16.bind fun ctype => ?_
  refine Follows.slice32.bind fun body => ?_
  exact Follows.pure rfl fun _ _ _ => trivial

theorem Follows.responseEx {p : Bytes} :
    Follows p RBuf.responseEx readResponseEx (SpanResponse.bytes p) fun _ => True := by
  refine Follows.u16.bind fun status => ?_
  refine Follows.slice16.bind fun ctype => ?_
  refine Follows.slice32.bind fun body => ?_
  refine Follows.trailer.bind fun headers => ?_
  exact Follows.pure rfl fun _ _ _ _ => trivial

theorem Follows.decode_map {α β : Type} {m : CursorM α} {d : ReadM β} {v : α → β}
    {Good : α → Prop} {buf : Bytes} (h : Follows buf m d v Good) :
    (RBuf.decode m buf).map (fun x => v x.1) = (d buf).map (·.1) := by
  rw [← h.decode, Option.map_map]
  rfl

/-- The cursor decoder is the one the gateway's model uses. -/
theorem decodeResponseEx_eq (buf : Bytes) :
    RBuf.decodeResponseEx buf = ntcWireDecodeResponseEx buf := by
  rw [RBuf.decodeResponseEx, Follows.responseEx.decode_map]
  show ((rU16 buf).bind _).map _ = (rU16 buf).bind _
  rcases rU16 buf with _ | ⟨status, s⟩
  · rfl
  show ((rSlice16 s).bind _).map _ = (rSlice16 s).bind _
  rcases rSlice16 s with _ | ⟨ctype, s⟩
  · rfl
  show ((rSlice32 s).bind _).map _ = (rSlice32 s).bind _
  rcases rSlice32 s with _ | ⟨body, s⟩
  · rfl
  show ((readTrailer s).bind _).map _ = _
  rw [readTrailer]
  cases s with
  | nil => rfl
  | cons x s =>
      show ((rSlice16 (x :: s)).bind _).map _ = (rSlice16 (x :: s)).bind _
      rcases rSlice16 (x :: s) with _ | ⟨headers, s⟩
      · rfl
      · rfl

theorem readResponse_responseBytes {status : Nat} {ctype body : Bytes}
    (h : ResponseFits status ctype body) (rest : Bytes) :
    readResponse (responseBytes status ctype body ++ rest) =
      some (⟨status, ctype, body, []⟩, rest) := by
  simp only [responseBytes, List.append_assoc]
  rw [readResponse, u16Codec.dec_bind h.status, slice16Codec.dec_bind h.ctype,
    slice32Codec.dec_bind h.body]
  rfl

theorem readResponseEx_responseBytes {status : Nat} {ctype body : Bytes}
    (h : ResponseFits status ctype body) (rest : Bytes) :
    readResponseEx (responseBytes status ctype body ++ rest) =
      (readTrailer rest).map fun x => (⟨status, ctype, body, x.1⟩, x.2) := by
  simp only [responseBytes, List.append_assoc]
  rw [readResponseEx, u16Codec.dec_bind h.status, slice16Codec.dec_bind h.ctype,
    slice32Codec.dec_bind h.body]
  show (readTrailer rest).bind _ = _
  cases readTrailer rest <;> rfl

theorem readResponseEx_eq_some {buf rest : Bytes} {r : WireResponse}
    (hd : readResponseEx buf = some (r, rest)) :
    ResponseFits r.status r.ctype r.body ∧
      ∃ t, buf = responseBytes r.status r.ctype r.body ++ t ∧
        readTrailer t = some (r.headers, rest) := by
  obtain ⟨status, s₁, okStatus, e₁, hd⟩ := u16Codec.bind_eq_some hd
  obtain ⟨ctype, s₂, okCtype, e₂, hd⟩ := slice16Codec.bind_eq_some hd
  obtain ⟨body, s₃, okBody, e₃, hd⟩ := slice32Codec.bind_eq_some hd
  obtain ⟨⟨headers, s₄⟩, htrailer, hd⟩ := Option.bind_eq_some_iff.mp hd
  cases hd
  refine ⟨⟨okStatus, okCtype, okBody⟩, s₃, ?_, htrailer⟩
  rw [e₁, e₂, e₃]
  simp only [responseBytes, List.append_assoc]

/-- A blob, or nothing at all. -/
theorem readTrailer_isSome_iff (t : Bytes) :
    (readTrailer t).isSome ↔
      t = [] ∨ ∃ headers rest, headers.length < 2 ^ 16 ∧ t = slice16Bytes headers ++ rest := by
  rw [readTrailer]
  cases t with
  | nil => simp
  | cons x t =>
      simp only [List.isEmpty_cons, Bool.false_eq_true, if_false, reduceCtorEq, false_or,
        Option.isSome_iff_exists, Prod.exists]
      constructor
      · rintro ⟨headers, rest, h⟩
        exact ⟨headers, rest, slice16Codec.enc_dec h⟩
      · rintro ⟨headers, rest, hlen, h⟩
        exact ⟨headers, rest, by rw [h, slice16Codec.dec_enc _ _ hlen]⟩

/-- A blob that has begun and is not complete is refused. -/
theorem readTrailer_take {headers : Bytes} (hlen : headers.length < 2 ^ 16) {n : Nat} (hpos : 0 < n)
    (hn : n < (slice16Bytes headers).length) : readTrailer ((slice16Bytes headers).take n) = none := by
  cases hres : readTrailer ((slice16Bytes headers).take n) with
  | none => rfl
  | some x =>
      have hsome := (readTrailer_isSome_iff _).mp (Option.isSome_of_eq_some hres)
      rcases hsome with hnil | ⟨headers', rest, hlen', heq⟩
      · have := congrArg List.length hnil
        rw [List.length_take, List.length_nil] at this
        omega
      · -- the whole blob starts with the same prefix, so both announce one length
        have hwhole : slice16Bytes headers =
            slice16Bytes headers' ++ (rest ++ (slice16Bytes headers).drop n) := by
          rw [← List.append_assoc, ← heq, List.take_append_drop]
        have hread := slice16Codec.dec_enc headers [] hlen
        rw [List.append_nil, hwhole, slice16Codec.dec_enc _ _ hlen'] at hread
        have hsame : headers' = headers := by simpa using congrArg (·.map Prod.fst) hread
        have := congrArg List.length heq
        rw [hsame, List.length_append, List.length_take] at this
        omega

theorem length_responseBytes (status : Nat) (ctype body : Bytes) :
    (responseBytes status ctype body).length = 2 + (2 + ctype.length) + (4 + body.length) := by
  simp only [responseBytes, slice16Bytes, slice32Bytes, List.length_append, length_putU16,
    length_putU32]

theorem encodeResponse_eq {status : Nat} {ctype body : Bytes} (h : ctype.length < 2 ^ 16)
    (cap : Nat) :
    WBuf.encodeResponse status ctype body cap =
      if cap < (responseBytes status ctype body).length then none
      else some (responseBytes status ctype body) := by
  have hfin := (Writes.response status ctype body).finish cap
  rwa [if_pos h] at hfin

theorem encodeResponseEx_eq {status : Nat} {ctype body headers : Bytes}
    (h : ctype.length < 2 ^ 16) (hheaders : headers.length < 2 ^ 16) {cap : Nat}
    (hcap : (responseBytes status ctype body ++ slice16Bytes headers).length ≤ cap) :
    WBuf.encodeResponseEx status ctype body headers cap =
      some (responseBytes status ctype body ++ slice16Bytes headers) := by
  have hfin := ((Writes.response status ctype body).seq (Writes.slice16 headers)).finish cap
  rw [if_pos h, wSlice16_eq, if_pos hheaders] at hfin
  simp only [Option.bind_eq_bind, Option.bind_some, pure, if_neg (Nat.not_lt.mpr hcap)] at hfin
  exact hfin

/-- A content type that does not fit its length is not encoded, with headers or
    without. -/
theorem encodeResponse_long {ctype : Bytes} (h : ¬ ctype.length < 2 ^ 16) (status : Nat)
    (body headers : Bytes) (cap : Nat) :
    WBuf.encodeResponse status ctype body cap = none ∧
      WBuf.encodeResponseEx status ctype body headers cap = none := by
  have hfin := (Writes.response status ctype body).finish cap
  have hfinEx := ((Writes.response status ctype body).seq (Writes.slice16 headers)).finish cap
  rw [if_neg h] at hfin hfinEx
  exact ⟨hfin, hfinEx⟩

/-- The new decoder on an old payload and what follows it. -/
theorem decodeResponseEx_append {status : Nat} {ctype body : Bytes}
    (h : ResponseFits status ctype body) (rest : Bytes) :
    RBuf.decodeResponseEx (responseBytes status ctype body ++ rest) =
      (readTrailer rest).map fun x => ⟨status, ctype, body, x.1⟩ := by
  rw [RBuf.decodeResponseEx, Follows.responseEx.decode_map, readResponseEx_responseBytes h,
    Option.map_map]
  rfl

/-- The old decoder on the same: it never looks past the body. -/
theorem decodeResponse_append {status : Nat} {ctype body : Bytes}
    (h : ResponseFits status ctype body) (rest : Bytes) :
    RBuf.decodeResponse (responseBytes status ctype body ++ rest) =
      some ⟨status, ctype, body, []⟩ := by
  rw [RBuf.decodeResponse, Follows.response.decode_map, readResponse_responseBytes h]
  rfl

/-- The new decoder accepts an old payload, alone or before a complete blob. -/
theorem decodeResponseEx_isSome_iff (buf : Bytes) :
    (RBuf.decodeResponseEx buf).isSome ↔
      ∃ status ctype body t, ResponseFits status ctype body ∧
        buf = responseBytes status ctype body ++ t ∧ (readTrailer t).isSome := by
  constructor
  · intro h
    rw [RBuf.decodeResponseEx, Follows.responseEx.decode_map, Option.isSome_map] at h
    obtain ⟨⟨r, rest⟩, hr⟩ := Option.isSome_iff_exists.mp h
    obtain ⟨hfit, t, hbuf, ht⟩ := readResponseEx_eq_some hr
    exact ⟨r.status, r.ctype, r.body, t, hfit, hbuf, Option.isSome_of_eq_some ht⟩
  · rintro ⟨status, ctype, body, t, hfit, rfl, ht⟩
    rwa [decodeResponseEx_append hfit, Option.isSome_map]

/-! ### The two generations interoperate -/

/-- Old and new encoders against old and new decoders: each pairing gives back
    what both sides know of.  The new decoder accepts an old payload, or one
    followed by a complete blob, and nothing else; so it refuses a payload that
    was cut inside its blob. -/
theorem response_versions_interoperate {status : Nat} {ctype body headers : Bytes}
    (hfit : ResponseFits status ctype body) (hheaders : headers.length < 2 ^ 16) {cap : Nat}
    (hcap : 2 + (2 + ctype.length) + (4 + body.length) + (2 + headers.length) ≤ cap)
    (buf : Bytes) :
    (∃ old new, WBuf.encodeResponse status ctype body cap = some old ∧
      WBuf.encodeResponseEx status ctype body headers cap = some new ∧
      RBuf.decodeResponse old = some ⟨status, ctype, body, []⟩ ∧
      RBuf.decodeResponseEx old = some ⟨status, ctype, body, []⟩ ∧
      RBuf.decodeResponse new = some ⟨status, ctype, body, []⟩ ∧
      RBuf.decodeResponseEx new = some ⟨status, ctype, body, headers⟩ ∧
      ∀ n, old.length < n → n < new.length → RBuf.decodeResponseEx (new.take n) = none) ∧
    ((RBuf.decodeResponseEx buf).isSome ↔
      ∃ status ctype body room old, ResponseFits status ctype body ∧
        WBuf.encodeResponse status ctype body room = some old ∧
        (buf = old ∨ ∃ headers rest, headers.length < 2 ^ 16 ∧
          buf = old ++ (putU16 headers.length ++ headers ++ rest))) := by
  have hold := length_responseBytes status ctype body
  have hblob : (slice16Bytes headers).length = 2 + headers.length := by
    rw [slice16Bytes, List.length_append, length_putU16]
  refine ⟨⟨responseBytes status ctype body,
    responseBytes status ctype body ++ slice16Bytes headers, ?_, ?_, ?_, ?_, ?_, ?_, ?_⟩, ?_⟩
  · rw [encodeResponse_eq hfit.ctype, if_neg (by omega)]
  · exact encodeResponseEx_eq hfit.ctype hheaders (by rw [List.length_append]; omega)
  · have h := decodeResponse_append hfit []
    rwa [List.append_nil] at h
  · have h := decodeResponseEx_append hfit []
    rwa [List.append_nil] at h
  · exact decodeResponse_append hfit (slice16Bytes headers)
  · have hblob : readTrailer (slice16Bytes headers) = some (headers, []) := by
      have hread := slice16Codec.dec_enc headers [] hheaders
      rw [List.append_nil] at hread
      rw [readTrailer, if_neg (by simp [slice16Bytes, putU16])]
      exact hread
    rw [decodeResponseEx_append hfit, hblob]
    rfl
  · intro n hlo hhi
    rw [List.length_append] at hhi
    rw [List.take_append, List.take_of_length_le (by omega), decodeResponseEx_append hfit,
      readTrailer_take hheaders (by omega) (by omega)]
    rfl
  · rw [decodeResponseEx_isSome_iff]
    constructor
    · rintro ⟨s, c, b, t, hfit', hbuf, ht⟩
      refine ⟨s, c, b, (responseBytes s c b).length, responseBytes s c b, hfit', ?_, ?_⟩
      · rw [encodeResponse_eq hfit'.ctype, if_neg (lt_irrefl _)]
      rcases (readTrailer_isSome_iff t).mp ht with rfl | ⟨h, rest, hh, rfl⟩
      · exact Or.inl (by rw [hbuf, List.append_nil])
      · exact Or.inr ⟨h, rest, hh, hbuf⟩
    · rintro ⟨s, c, b, room, old, hfit', henc, hbuf⟩
      rw [encodeResponse_eq hfit'.ctype] at henc
      split_ifs at henc
      cases henc
      rcases hbuf with rfl | ⟨h, rest, hh, rfl⟩
      · exact ⟨s, c, b, [], hfit', (List.append_nil _).symm, rfl⟩
      · exact ⟨s, c, b, _, hfit', rfl, (readTrailer_isSome_iff _).mpr (Or.inr ⟨h, rest, hh, rfl⟩)⟩

/-- A redirect with one header, in 64 bytes. -/
theorem response_versions_interoperate_redirect :
    ResponseFits 302 [116] [] ∧
      ∃ old new, WBuf.encodeResponse 302 [116] [] 64 = some old ∧
        WBuf.encodeResponseEx 302 [116] [] [88, 58, 49, 13, 10] 64 = some new ∧
        RBuf.decodeResponse new = some ⟨302, [116], [], []⟩ ∧
        RBuf.decodeResponseEx new = some ⟨302, [116], [], [88, 58, 49, 13, 10]⟩ := by
  have hfit : ResponseFits 302 [116] [] := ⟨by decide, by decide, by decide⟩
  obtain ⟨⟨old, new, hold, hnew, -, -, hdec, hdecEx, -⟩, -⟩ :=
    @response_versions_interoperate 302 [116] [] [88, 58, 49, 13, 10] hfit (by decide) 64
      (by decide) []
  exact ⟨hfit, old, new, hold, hnew, hdec, hdecEx⟩

end Naitron
