/-
  Naitron.Server.Forwarding

  What becomes of a request that is to be forwarded, and how large it gets.

  The encoded request has everything that was in the receive buffer, and in
  addition its captured parameters and the identity of the connection.  The
  buffer for it is 1024 bytes larger than the receive buffer.
-/

import Naitron.HttpGrammar
import Naitron.RouterSpec
import Naitron.WireRequest
import Naitron.Server.Slots

namespace Naitron

variable (E : Ext)

-- ============================================================================
-- Outcomes
-- ============================================================================

/-- What became of a request that was to be forwarded. -/
inductive ForwardOutcome where
  | refused (status : Nat) (body : Bytes)
  | queued (target : CtrlId) (id : Nat)
deriving DecidableEq, Repr

/-- The answer to a request that could not be encoded. -/
def encodeFailed : Bytes := lit "\x7b\"error\":\"encode failed\"\x7d"

/-- The common part of both: encode the request, take an id and queue the
    frame. -/
def queueRequest (g : Gateway) (k : ConnId) (target : CtrlId) (type : NtcMsgType)
    (req : NtcRequest) : ForwardOutcome × Gateway :=
  match ntcWireEncodeRequest req encodeCap with
  | none => (.refused 500 encodeFailed, g)
  | some enc =>
      match gwAllocId g k with
      | none => (.refused 503 (lit "\x7b\"error\":\"too many in-flight\"\x7d"), g)
      | some (id, g) =>
          match ctrlQueue E g target k type id enc with
          | (.neg, g) =>
              (.refused 503 (lit "\x7b\"error\":\"queue full\"\x7d"), gwFreeSlot g (idSlot id))
          | (.zero, g) => (.queued target id, g)

/-- `gw_forward` up to its answer. -/
def forwardOutcome (g : Gateway) (k : ConnId) (req : NtcRequest) (svc : Nat) :
    ForwardOutcome × Gateway :=
  match pickTarget g svc with
  | none => (.refused 503 (lit "\x7b\"error\":\"service unavailable\"\x7d"), g)
  | some (target, g) =>
      let (a, g) := g.ask E
      if !a.ok then (.refused 500 (lit "\x7b\"error\":\"oom\"\x7d"), g)
      else queueRequest E g k target .request req

/-- `gw_ws_upgrade` up to its answer. -/
def upgradeOutcome (g : Gateway) (k : ConnId) (c : Conn) (req : NtcRequest) (svc : Nat) :
    ForwardOutcome × Gateway :=
  if c.tls then (.refused 400 (lit "\x7b\"error\":\"wss not supported yet\"\x7d"), g)
  else
    match pickTarget g svc with
    | none => (.refused 503 (lit "\x7b\"error\":\"service unavailable\"\x7d"), g)
    | some (target, g) =>
        let key := ntcHttpHeader req (lit "sec-websocket-key")
        if key.isEmpty ∨ 64 < key.length then
          (.refused 400 (lit "\x7b\"error\":\"missing Sec-WebSocket-Key\"\x7d"), g)
        else
          let (a, g) := g.ask E
          if !a.ok then (.refused 500 (lit "\x7b\"error\":\"oom\"\x7d"), g)
          else queueRequest E g k target .wsOpen req

/-- The answer of both to a refused request, and what they do with one that
    is queued. -/
def answerOutcome (k : ConnId) (queued : CtrlId → Nat → Gateway → Rc × Gateway) :
    ForwardOutcome × Gateway → Rc × Gateway
  | (.refused status body, g) => respondAndFlush E g k status body
  | (.queued target id, g) => queued target id g

theorem gwForward_eq (g : Gateway) (k : ConnId) (req : NtcRequest) (svc : Nat) :
    gwForward E g k req svc = answerOutcome E k
      (fun target id g => (.zero, g.modConn k fun c =>
        { c with state := .csWait, reqId := id, inflight := true, waitCtrl := some target }))
      (forwardOutcome E g k req svc) := by
  rw [gwForward, forwardOutcome]
  cases pickTarget g svc with
  | none => rfl
  | some t =>
      obtain ⟨target, g⟩ := t
      dsimp only
      split
      · rfl
      · rw [queueRequest]
        cases ntcWireEncodeRequest req encodeCap with
        | none => rfl
        | some enc =>
            dsimp only
            cases gwAllocId (g.ask E).2 k with
            | none => rfl
            | some p =>
                obtain ⟨id, g⟩ := p
                dsimp only
                rcases ctrlQueue E g target k .request id enc with ⟨_ | _, g⟩ <;> rfl

theorem gwWsUpgrade_eq {g : Gateway} {k : ConnId} {c : Conn} (hc : g.conns k = some c)
    (req : NtcRequest) (svc : Nat) :
    gwWsUpgrade E g k req svc = answerOutcome E k
      (fun target id g => streamPush E ((g.modConn k fun c =>
        { c with
          reqId := id, inflight := true, waitCtrl := some target
          isWs := true, streaming := true, streamHeadSent := true
          state := .csWs, rbuf := [] }).noteReply k) k
        (upgradeHead (E.wsAcceptKey (ntcHttpHeader req (lit "sec-websocket-key")))))
      (upgradeOutcome E g k c req svc) := by
  rw [gwWsUpgrade, hc, upgradeOutcome]
  dsimp only
  split
  · rfl
  · cases pickTarget g svc with
    | none => rfl
    | some t =>
        obtain ⟨target, g⟩ := t
        dsimp only
        split
        · rfl
        · split
          · rfl
          · rw [queueRequest]
            cases ntcWireEncodeRequest req encodeCap with
            | none => rfl
            | some enc =>
                dsimp only
                cases gwAllocId (g.ask E).2 k with
                | none => rfl
                | some p =>
                    obtain ⟨id, g⟩ := p
                    dsimp only
                    rcases ctrlQueue E g target k .wsOpen id enc with ⟨_ | _, g⟩ <;> rfl

/-- The request is answered with 500 `encode failed`, forwarded or upgraded. -/
def AnsweredEncodeFailed (g : Gateway) (k : ConnId) (req : NtcRequest) (svc : Nat) : Prop :=
  (forwardOutcome E g k req svc).1 = .refused 500 encodeFailed ∨
    ∃ c, g.conns k = some c ∧ (upgradeOutcome E g k c req svc).1 = .refused 500 encodeFailed

variable {E}

theorem refused_ne {status : Nat} {body : Bytes} (h : body ≠ encodeFailed) :
    ForwardOutcome.refused status body ≠ .refused 500 encodeFailed := by
  intro heq
  exact h (ForwardOutcome.refused.inj heq).2

theorem queueRequest_encodes {req : NtcRequest}
    (h : (ntcWireEncodeRequest req encodeCap).isSome = true) (g : Gateway) (k : ConnId)
    (target : CtrlId) (type : NtcMsgType) :
    (queueRequest E g k target type req).1 ≠ .refused 500 encodeFailed := by
  obtain ⟨enc, henc⟩ := Option.isSome_iff_exists.mp h
  rw [queueRequest, henc]
  dsimp only
  cases gwAllocId g k with
  | none => exact refused_ne (by decide)
  | some p =>
      obtain ⟨id, g⟩ := p
      dsimp only
      rcases ctrlQueue E g target k type id enc with ⟨_ | _, g⟩
      · exact fun h => ForwardOutcome.noConfusion h
      · exact refused_ne (by decide)

/-- Only a request that cannot be encoded is answered so. -/
theorem not_answeredEncodeFailed {req : NtcRequest}
    (h : (ntcWireEncodeRequest req encodeCap).isSome = true) (g : Gateway) (k : ConnId)
    (svc : Nat) : ¬ AnsweredEncodeFailed E g k req svc := by
  rintro (hf | ⟨c, -, hu⟩)
  · rw [forwardOutcome] at hf
    cases hpick : pickTarget g svc with
    | none =>
        rw [hpick] at hf
        exact refused_ne (by decide) hf
    | some t =>
        rw [hpick] at hf
        dsimp only at hf
        split at hf
        · exact refused_ne (by decide) hf
        · exact queueRequest_encodes h _ _ _ _ hf
  · rw [upgradeOutcome] at hu
    split at hu
    · exact refused_ne (by decide) hu
    · cases hpick : pickTarget g svc with
      | none =>
          rw [hpick] at hu
          exact refused_ne (by decide) hu
      | some t =>
          rw [hpick] at hu
          dsimp only at hu
          split at hu
          · exact refused_ne (by decide) hu
          · split at hu
            · exact refused_ne (by decide) hu
            · exact queueRequest_encodes h _ _ _ _ hu

-- ============================================================================
-- The size of a head
-- ============================================================================

/-- The white space around a value, which the parser trims. -/
def HeaderLine.blanks (l : HeaderLine) : Nat := l.value.length - (ntcSliceTrim l.value).length

theorem length_ntcSliceTrim_le (s : Bytes) : (ntcSliceTrim s).length ≤ s.length := by
  rw [ntcSliceTrim, List.length_reverse]
  refine (List.dropWhile_sublist _).length_le.trans ?_
  rw [List.length_reverse]
  exact (List.dropWhile_sublist _).length_le

/-- A header takes one byte more on the wire than in the head, and its white
    space less. -/
theorem headerSize_header (l : HeaderLine) :
    headerSize l.header + l.blanks = l.bytes.length + 2 + 1 := by
  have hle := length_ntcSliceTrim_le l.value
  simp only [headerSize, HeaderLine.header, HeaderLine.blanks, HeaderLine.bytes,
    List.length_append, List.length_cons]
  omega

namespace HttpHead

/-- The white space around the values of the head. -/
def blanks (head : HttpHead) : Nat := (head.lines.map HeaderLine.blanks).sum

/-- The question mark behind the path, if there is one. -/
def queryMark (head : HttpHead) : Nat := if 63 ∈ head.target then 1 else 0

theorem length_unlines (ls : List Bytes) :
    (unlines ls).length = (ls.map fun l => l.length + 2).sum := by
  rw [unlines, List.length_flatMap]
  congr 1
  refine List.map_congr_left fun l _ => ?_
  rw [List.length_append]
  rfl

theorem headers_size (lines : List HeaderLine) :
    ((lines.map HeaderLine.header).map headerSize).sum + (lines.map HeaderLine.blanks).sum =
      (unlines (lines.map HeaderLine.bytes)).length + lines.length := by
  rw [length_unlines]
  induction lines with
  | nil => rfl
  | cons l lines ih =>
      have hl := headerSize_header l
      simp only [List.map_cons, List.sum_cons, List.length_cons] at ih ⊢
      omega

/-- The target is its path, the question mark and its query. -/
theorem target_size (head : HttpHead) (body : Bytes) :
    (head.request body).path.length + (head.request body).query.length + head.queryMark =
      head.target.length := by
  show (head.target.takeWhile (· ≠ 63)).length +
    ((head.target.dropWhile (· ≠ 63)).drop 1).length + head.queryMark = head.target.length
  have hsplit := congrArg List.length
    (List.takeWhile_append_dropWhile (p := fun c : UInt8 => decide (c ≠ 63)) (l := head.target))
  rw [List.length_append] at hsplit
  rw [queryMark, List.length_drop]
  by_cases hmark : 63 ∈ head.target
  · have hne : head.target.dropWhile (· ≠ 63) ≠ [] := by
      intro hnil
      have hall := List.dropWhile_eq_nil_iff.mp hnil 63 hmark
      exact absurd hall (by decide)
    have hpos := List.length_pos_iff.mpr hne
    rw [if_pos hmark]
    omega
  · have hnil : head.target.dropWhile (· ≠ 63) = [] := by
      rw [List.dropWhile_eq_nil_iff]
      intro c hc
      rw [decide_eq_true_eq]
      rintro rfl
      exact hmark hc
    rw [hnil, List.length_nil] at hsplit
    rw [hnil, if_neg hmark, List.length_nil]
    omega

/-- The size of a head. -/
theorem length_bytes_eq (head : HttpHead) :
    head.bytes.length = head.method.length + head.target.length + 14 +
      (unlines (head.lines.map HeaderLine.bytes)).length := by
  have hversion : head.version.bytes.length = 8 := by
    cases head.version <;> rfl
  rw [bytes, pieces, List.length_append, length_unlines, length_unlines, List.map_cons,
    List.sum_cons, requestLine]
  simp only [List.length_append, List.length_cons, List.length_nil, hversion]
  omega

end HttpHead

-- ============================================================================
-- The size of a forwarded request
-- ============================================================================

/-- The captured parameters, as they are forwarded, and the identity fit
    beside a request of `len` bytes. -/
structure RoomToForward (head : HttpHead) (len : Nat) (c : Conn) (params : List NtcHeader) :
    Prop where
  names : ∀ p ∈ params.take ntcMaxParams, p.name.length < 2 ^ 16
  room : ((params.take ntcMaxParams).map headerSize).sum + c.authSub.bytes.length
    + c.authScope.bytes.length + head.lines.length + 4 + len ≤
      encodeCap + head.blanks + head.queryMark

/-- What the encoding adds to the bytes of the request, and what it leaves
    out. -/
theorem requestSize_enrich (head : HttpHead) (body : Bytes) (c : Conn)
    (params : List NtcHeader) :
    requestSize (enrichRequest c (head.request body) params) + head.blanks + head.queryMark =
      (head.bytes ++ body).length + ((params.take ntcMaxParams).map headerSize).sum
        + c.authSub.bytes.length + c.authScope.bytes.length + head.lines.length + 4 := by
  have hheaders := HttpHead.headers_size head.lines
  have htarget := head.target_size body
  have hbytes := head.length_bytes_eq
  have hsize : requestSize (enrichRequest c (head.request body) params) =
      (2 + head.method.length) + (2 + (head.request body).path.length)
        + (2 + (head.request body).query.length)
        + (2 + ((head.lines.map HeaderLine.header).map headerSize).sum)
        + (2 + ((params.take ntcMaxParams).map headerSize).sum)
        + (2 + c.authSub.bytes.length) + (2 + c.authScope.bytes.length) + (4 + body.length) := rfl
  rw [hsize, HttpHead.blanks, List.length_append]
  omega

/-- What the parser accepts is a head and what follows it. -/
theorem ntcHttpParseRequest_head {buf : Bytes} {req : NtcRequest} {n : Nat}
    (h : ntcHttpParseRequest buf = .ok req n) :
    ∃ head : HttpHead, head.Valid ∧ buf = head.bytes ++ req.body ∧ req = head.request req.body := by
  obtain ⟨i, hfirst, head, hsplit, hvalid, -, rfl⟩ :=
    ((ntcHttpParseRequest_grammar buf).2 req n).mp h
  refine ⟨head, hvalid, ?_, rfl⟩
  obtain ⟨rest, hrest⟩ := hfirst.1
  have hbody : buf.drop (i + 4) = rest := by
    rw [← List.drop_drop, ← hrest, List.append_assoc]
    rfl
  show buf = head.bytes ++ buf.drop (i + 4)
  rw [hbody, head.bytes_append, ← hsplit.text, ← List.append_assoc crlf, hrest,
    List.take_append_drop]

theorem matchLoop_params {method : Bytes} {ps : List SegT} {rt : RouteT}
    {params : List NtcHeader} (routes : List RouteT) :
    ∀ mismatch, matchLoop method ps routes mismatch = .found rt params →
      params = captureParams rt.segs ps := by
  induction routes with
  | nil =>
      intro mismatch h
      rw [matchLoop] at h
      split at h <;> cases h
  | cons hd rest ih =>
      intro mismatch h
      rw [matchLoop] at h
      split at h
      · exact ih _ h
      · split at h
        · exact ih _ h
        · cases h
          rfl

theorem length_mkSeg_le (b : Bytes) : (mkSeg b).s.length ≤ b.length := by
  rcases mkSeg_s b with ⟨-, hb⟩ | hb
  · rw [hb]
  · have hlen := congrArg List.length hb
    rw [List.length_cons] at hlen
    omega

/-- A captured value is no longer than the path. -/
theorem captured_length_le {r : NtcRouter} {method path : Bytes} {rt : RouteT}
    {params : List NtcHeader} (h : ntcRouterMatch r method path = .found rt params) :
    ∀ p ∈ params, p.value.length ≤ path.length := by
  intro p hp
  rw [ntcRouterMatch, splitSegments_eq] at h
  split at h
  · cases h
  · rename_i ps hps
    have hsegs : ps = (pieces path).map mkSeg := by
      split at hps
      · exact (Option.some.inj hps).symm
      · cases hps
    rw [matchLoop_params r false h, captureParams, hsegs] at hp
    obtain ⟨⟨rs, seg⟩, hzip, hcap⟩ := List.mem_filterMap.mp (List.mem_of_mem_take hp)
    dsimp only at hcap
    obtain ⟨b, hb, rfl⟩ := List.mem_map.mp (List.of_mem_zip hzip).2
    have hvalue : p.value = (mkSeg b).s := by
      split at hcap
      · rw [← Option.some.inj hcap]
      · cases hcap
    obtain ⟨-, -, x, y, hpath, -⟩ := Lib.mem_parts_iff.mp hb
    rw [hvalue, hpath, List.length_append, List.length_append]
    have hle := length_mkSeg_le b
    omega

/-- A request from the receive buffer fits the counts and prefixes of the
    wire, if the names of its parameters do. -/
theorem enrich_fitsWire {head : HttpHead} (hvalid : head.Valid) {body : Bytes} {c : Conn}
    {params : List NtcHeader} (hlen : (head.bytes ++ body).length ≤ ntcConnRbuf)
    (hnames : ∀ p ∈ params.take ntcMaxParams, p.name.length < 2 ^ 16)
    (hvalues : ∀ p ∈ params, p.value.length ≤ (head.request body).path.length) :
    (enrichRequest c (head.request body) params).FitsWire := by
  have hsize := head.length_bytes_eq
  have htarget := head.target_size body
  have hbuf : ntcConnRbuf = 2 ^ 16 := rfl
  have hsub := c.authSub.fits
  have hscope := c.authScope.fits
  rw [List.length_append] at hlen
  constructor
  · show head.method.length < 2 ^ 16
    omega
  · show (head.request body).path.length < 2 ^ 16
    omega
  · show (head.request body).query.length < 2 ^ 16
    omega
  · refine ⟨?_, ?_⟩
    · show (head.lines.map HeaderLine.header).length ≤ ntcMaxHeaders
      rw [List.length_map]
      exact hvalid.count
    · intro d hd
      obtain ⟨l, hl, rfl⟩ := List.mem_map.mp hd
      have hle := length_ntcSliceTrim_le l.value
      have hline : l.bytes.length + 2 ≤ (unlines (head.lines.map HeaderLine.bytes)).length := by
        rw [HttpHead.length_unlines]
        exact List.single_le_sum (fun _ _ => Nat.zero_le _) _
          (List.mem_map.mpr ⟨l.bytes, List.mem_map_of_mem hl, rfl⟩)
      rw [HeaderLine.bytes, List.length_append, List.length_cons] at hline
      refine ⟨?_, ?_⟩
      · show l.name.length < 2 ^ 16
        omega
      · show (ntcSliceTrim l.value).length < 2 ^ 16
        omega
  · refine ⟨List.length_take_le _ _, ?_⟩
    intro p hp
    have hvalue := hvalues p (List.mem_of_mem_take hp)
    refine ⟨hnames p hp, ?_⟩
    omega
  · show c.authSub.bytes.length < 2 ^ 16
    omega
  · show c.authScope.bytes.length < 2 ^ 16
    omega
  · show body.length < 2 ^ 32
    omega

/-- An encoded request has parameter names of less than 64 KiB. -/
theorem names_of_encoded {req : NtcRequest} {c : Conn} {params : List NtcHeader}
    (h : (ntcWireEncodeRequest (enrichRequest c req params) encodeCap).isSome = true) :
    ∀ p ∈ params.take ntcMaxParams, p.name.length < 2 ^ 16 := by
  obtain ⟨enc, henc⟩ := Option.isSome_iff_exists.mp h
  obtain ⟨hfit, -⟩ := ntcWireEncodeRequest_some (by decide) henc
  intro p hp
  refine (hfit.params.2 p ?_).1
  show p ∈ (params.take ntcMaxParams).take ntcMaxParams
  rwa [List.take_take, Nat.min_self]

/-- A request from the receive buffer fits the buffer of the forwarded one,
    and is encoded and not answered with `encode failed`, if and only if there
    is room for what is added to it. -/
theorem forwarded_fits_iff {buf : Bytes} {req : NtcRequest} {n : Nat} {r : NtcRouter}
    {rt : RouteT} {params : List NtcHeader} (c : Conn) (hbuf : buf.length ≤ ntcConnRbuf)
    (hparse : ntcHttpParseRequest buf = .ok req n)
    (hroute : ntcRouterMatch r req.method req.path = .found rt params) :
    ∃ head : HttpHead, buf = head.bytes ++ req.body ∧ req = head.request req.body ∧
      (((requestBytes (enrichRequest c req params)).length ≤ encodeCap ∧
          (ntcWireEncodeRequest (enrichRequest c req params) encodeCap).isSome = true ∧
          ∀ (E : Ext) (g : Gateway) (k : ConnId) (svc : Nat),
            ¬ AnsweredEncodeFailed E g k (enrichRequest c req params) svc) ↔
        RoomToForward head buf.length c params) := by
  obtain ⟨head, hvalid, htext, hreq⟩ := ntcHttpParseRequest_head hparse
  refine ⟨head, htext, hreq, ?_⟩
  have hvalues := captured_length_le hroute
  have hsize := requestSize_enrich head req.body c params
  rw [← hreq, ← htext] at hsize
  rw [length_requestBytes]
  constructor
  · rintro ⟨hle, henc, -⟩
    refine ⟨names_of_encoded henc, ?_⟩
    omega
  · rintro ⟨hnames, hroom⟩
    have hle : requestSize (enrichRequest c req params) ≤ encodeCap := by omega
    have hfit : (enrichRequest c req params).FitsWire := by
      rw [hreq]
      refine enrich_fitsWire hvalid ?_ hnames ?_
      · rw [← htext]
        exact hbuf
      · rw [← hreq]
        exact hvalues
    have henc : (ntcWireEncodeRequest (enrichRequest c req params) encodeCap).isSome = true := by
      rw [ntcWireEncodeRequest_eq hfit, length_requestBytes, if_neg (Nat.not_lt.mpr hle)]
      rfl
    exact ⟨hle, henc, fun E g k svc => not_answeredEncodeFailed henc g k svc⟩

/-- `GET /users/7`. -/
def userRequest : NtcRequest :=
  { method := lit "GET", target := lit "/users/7", path := lit "/users/7", minorVersion := 1 }

/-- It is forwarded from a connection without identity. -/
theorem forwarded_fits_user :
    ∃ head : HttpHead, lit "GET /users/7 HTTP/1.1\r\n\r\n" = head.bytes ++ userRequest.body ∧
      RoomToForward head 25 {} [⟨lit "id", lit "7"⟩] := by
  obtain ⟨head, htext, -, hiff⟩ := forwarded_fits_iff {} (by decide)
    (show ntcHttpParseRequest (lit "GET /users/7 HTTP/1.1\r\n\r\n") = .ok userRequest 25 by
      decide +kernel)
    (show ntcRouterMatch [userRoute] userRequest.method userRequest.path =
      .found userRoute [⟨lit "id", lit "7"⟩] by decide +kernel)
  have henc : (ntcWireEncodeRequest (enrichRequest {} userRequest [⟨lit "id", lit "7"⟩])
      encodeCap).isSome = true := by
    decide +kernel
  exact ⟨head, htext, hiff.mp ⟨by decide +kernel, henc,
    fun _ g k svc => not_answeredEncodeFailed henc g k svc⟩⟩

-- ============================================================================
-- A long path segment
-- ============================================================================

/-- A segment of `n + 2` letters. -/
def longSegment (n : Nat) : Bytes := 97 :: 97 :: List.replicate n 97

/-- `GET /users/aaa..`. -/
def longHead (n : Nat) : HttpHead := ⟨lit "GET", lit "/users/" ++ longSegment n, .v11, []⟩

theorem mem_longSegment {n : Nat} {c : UInt8} (h : c ∈ longSegment n) : c = 97 := by
  rw [longSegment, List.mem_cons, List.mem_cons, List.mem_replicate] at h
  rcases h with h | h | ⟨-, h⟩ <;> exact h

theorem length_longSegment (n : Nat) : (longSegment n).length = n + 2 := by
  rw [longSegment, List.length_cons, List.length_cons, List.length_replicate]

theorem longHead_valid (n : Nat) : (longHead n).Valid := by
  refine ⟨show isToken (lit "GET") = true by decide,
    List.append_ne_nil_of_left_ne_nil (by decide) _, ?_, Nat.zero_le _,
    fun l hl => absurd hl List.not_mem_nil, fun d hd => absurd hd List.not_mem_nil,
    fun d hd => absurd hd List.not_mem_nil⟩
  intro hspace
  rcases List.mem_append.mp hspace with h | h
  · exact absurd h (by decide)
  · exact absurd (mem_longSegment h) (by decide)

theorem longHead_lines (n : Nat) : ∀ l ∈ (longHead n).pieces, NoCrlf l := by
  intro l hl
  obtain rfl : l = (longHead n).requestLine := List.mem_singleton.mp hl
  refine noCrlf_of_notMem ?_
  intro hcr
  have hmem : chCr ∈ lit "GET" ++ chSpace :: (lit "/users/" ++ longSegment n ++
      chSpace :: HttpVersion.v11.bytes) := hcr
  simp only [List.mem_append, List.mem_cons] at hmem
  rcases hmem with h | h | (h | h) | h | h
  · exact absurd h (by decide)
  · exact absurd h (by decide)
  · exact absurd h (by decide)
  · exact absurd (mem_longSegment h) (by decide)
  · exact absurd h (by decide)
  · exact absurd h (by decide)

/-- Its request. -/
theorem longHead_path (n : Nat) :
    ((longHead n).request []).path = lit "/users/" ++ longSegment n := by
  show List.takeWhile (· ≠ 63) (lit "/users/" ++ longSegment n) = _
  rw [List.takeWhile_eq_self_iff]
  intro c hc
  rw [decide_eq_true_eq]
  rintro rfl
  rcases List.mem_append.mp hc with h | h
  · exact absurd h (by decide)
  · exact absurd (mem_longSegment h) (by decide)

/-- The segment is captured. -/
theorem longHead_route (n : Nat) :
    ntcRouterMatch [userRoute] (lit "GET") (lit "/users/" ++ longSegment n) =
      .found userRoute [⟨lit "id", longSegment n⟩] := by
  have hslash : chSlash ∉ longSegment n := by
    intro h
    exact absurd (mem_longSegment h) (by decide)
  have hpieces : pieces (lit "/users/" ++ longSegment n) = [lit "users", longSegment n] := by
    have hsplit := Lib.parts_append_sep chSlash (lit "/users") (longSegment n)
    have hne : longSegment n ≠ [] := List.cons_ne_nil _ _
    rw [Lib.parts_of_notMem hslash, if_neg hne] at hsplit
    exact hsplit
  have hseg : mkSeg (longSegment n) = ⟨longSegment n, false⟩ := by
    rw [longSegment, mkSeg, if_neg (by decide)]
  have hfew : [lit "users", longSegment n].length ≤ ntcMaxSegments := by
    show 2 ≤ ntcMaxSegments
    decide
  rw [ntcRouterMatch, splitSegments_eq, hpieces, if_pos hfew, List.map_cons, List.map_cons, hseg]
  rfl

theorem longHead_length (n : Nat) : ((longHead n).bytes ++ []).length = n + 26 := by
  have htarget : (longHead n).target.length = n + 9 := by
    rw [longHead, List.length_append, length_longSegment]
    show 7 + (n + 2) = n + 9
    omega
  rw [List.append_nil, HttpHead.length_bytes_eq, htarget]
  show 3 + (n + 9) + 14 + 0 = n + 26
  omega

/-- The segment counts twice. -/
theorem longHead_size (n : Nat) : requestSize (enrichRequest {} ((longHead n).request [])
    [⟨lit "id", longSegment n⟩]) = 2 * n + 38 := by
  have hmark : (longHead n).queryMark = 0 := by
    rw [HttpHead.queryMark, if_neg]
    intro h
    rcases List.mem_append.mp h with h | h
    · exact absurd h (by decide)
    · exact absurd (mem_longSegment h) (by decide)
  have hsum := requestSize_enrich (longHead n) [] {} [⟨lit "id", longSegment n⟩]
  have hparam : ((([⟨lit "id", longSegment n⟩] : List NtcHeader).take ntcMaxParams).map
      headerSize).sum = (2 + 2) + (2 + (longSegment n).length) + 0 := rfl
  have hadded : requestSize (enrichRequest {} ((longHead n).request [])
      [⟨lit "id", longSegment n⟩]) + 0 + 0 =
        n + 26 + (2 + 2 + (2 + (n + 2)) + 0) + 0 + 0 + 0 + 4 := by
    rw [hmark, longHead_length, hparam, length_longSegment] at hsum
    exact hsum
  omega

theorem longHead_fitsWire {n : Nat} (h : n + 26 ≤ ntcConnRbuf) :
    (enrichRequest {} ((longHead n).request []) [⟨lit "id", longSegment n⟩]).FitsWire := by
  refine enrich_fitsWire (longHead_valid n) ?_ ?_ ?_
  · rw [longHead_length]
    exact h
  · intro p hp
    obtain rfl := List.mem_singleton.mp hp
    show (lit "id").length < 2 ^ 16
    decide
  · intro p hp
    obtain rfl := List.mem_singleton.mp hp
    rw [longHead_path, List.length_append]
    exact Nat.le_add_left _ _

/-- A client asks for a user whose identifier has 40000 letters: the forwarded
    request needs 80034 bytes, and the answer is `encode failed`. -/
theorem long_segment_encode_failed :
    ((longHead 39998).bytes ++ []).length ≤ ntcConnRbuf ∧
    ntcHttpParseRequest ((longHead 39998).bytes ++ []) =
      .ok ((longHead 39998).request []) (longHead 39998).bytes.length ∧
    ntcRouterMatch [userRoute] ((longHead 39998).request []).method
      ((longHead 39998).request []).path =
        .found userRoute [⟨lit "id", longSegment 39998⟩] ∧
    userRoute.handler = .forward 0 ∧
    (requestBytes (enrichRequest {} ((longHead 39998).request [])
      [⟨lit "id", longSegment 39998⟩])).length = 80034 ∧ encodeCap = 66560 ∧
    (forwardOutcome quietExt (helloConnected quietExt) 0 (enrichRequest {}
      ((longHead 39998).request []) [⟨lit "id", longSegment 39998⟩]) 0).1 =
        .refused 500 encodeFailed := by
  have hlen := longHead_length 39998
  have hsize := longHead_size 39998
  have hfit := longHead_fitsWire (n := 39998) (by decide)
  have hparse := (longHead_valid 39998).parse (longHead_lines 39998) []
  have hroute := longHead_route 39998
  rw [← longHead_path] at hroute
  have hpick : (pickTarget (helloConnected quietExt) 0).isSome = true := by decide +kernel
  generalize enrichRequest {} ((longHead 39998).request []) [⟨lit "id", longSegment 39998⟩] = fr
    at hsize hfit ⊢
  refine ⟨?_, hparse, hroute, rfl, ?_, rfl, ?_⟩
  · rw [hlen]
    decide
  · rw [length_requestBytes, hsize]
  · obtain ⟨⟨target, g⟩, hpick⟩ := Option.isSome_iff_exists.mp hpick
    have hok : ¬ (!(g.ask quietExt).1.ok) = true := by
      show ¬ (!quietAnswer.ok) = true
      decide
    rw [forwardOutcome, hpick]
    dsimp only
    rw [if_neg hok, queueRequest, ntcWireEncodeRequest_eq hfit, length_requestBytes, hsize,
      if_pos (by decide)]

end Naitron
