/-
  Naitron.Server.HttpsCall

  A whole call of the HTTPS client: `parse_https_url` and `https_do` of
  https_client.c.

  What the network, the memory and the TLS engine do is `HttpsNet`.  The
  request that is printed is then read by the parser of a gateway, and the
  answer that a gateway prints by `extract_body`.
-/

import Naitron.HttpsClient
import Naitron.Server.Reading

namespace Naitron

-- ============================================================================
-- The call
-- ============================================================================

/-- What `parse_https_url` fills in. -/
structure HttpsUrl where
  host : Bytes
  port : Bytes
  path : Bytes
deriving DecidableEq, Repr

/-- `parse_https_url`, with the sizes of its buffers. -/
def parseHttpsUrl (hcap pcap pathcap : Nat) (url : Bytes) : Option HttpsUrl :=
  if url.take 8 ≠ lit "https://" then none
  else
    let authority := (url.drop 8).takeWhile (· != chSlash)
    let slash := (url.drop 8).dropWhile (· != chSlash)
    let host := authority.takeWhile (· != chColon)
    if host = [] ∨ hcap ≤ host.length then none
    else
      let path := clip pathcap (if slash = [] then lit "/" else slash)
      match authority.dropWhile (· != chColon) with
      | [] => some ⟨host, clip pcap (lit "443"), path⟩
      | _ :: port =>
          if port = [] ∨ pcap ≤ port.length then none else some ⟨host, port, path⟩

/-- The content type, if it is given, and the body of a request that has one. -/
structure HttpsEntity where
  ctype : Option Bytes
  body : Bytes

/-- The content type that is sent. -/
def HttpsEntity.type (e : HttpsEntity) : Bytes :=
  e.ctype.getD (lit "application/x-www-form-urlencoded")

/-- The bytes behind the head. -/
def entityBody (e : Option HttpsEntity) : Bytes := e.elim [] HttpsEntity.body

/-- The head that `https_do` prints. -/
def httpsHead (method : Bytes) (u : HttpsUrl) (e : Option HttpsEntity) : Bytes :=
  method ++ chSpace :: u.path ++ lit " HTTP/1.1\r\nHost: " ++ u.host
    ++ lit "\r\nUser-Agent: naitron-c\r\nAccept: application/json\r\nConnection: close\r\n"
    ++ (e.elim [] fun e => lit "Content-Type: " ++ e.type ++ lit "\r\nContent-Length: "
      ++ decimal e.body.length ++ crlf)
    ++ crlf

/-- Size of the buffer of the head. -/
def httpsHeadCap : Nat := 1400

/-- Size of the buffer of the response. -/
def httpsRespCap : Nat := 256 * 1024

/-- The bytes of a request. -/
def httpsBytes (method : Bytes) (u : HttpsUrl) (e : Option HttpsEntity) : Bytes :=
  httpsHead method u e ++ entityBody e

/-- What `https_do` meets with: how many trust anchors there are, whether
    connecting, `calloc`, `br_ssl_client_reset`, sending the request and
    `malloc` work, what is read until the connection ends, and the last error of
    the engine then. -/
structure HttpsNet where
  anchors : Nat
  connects : Bytes → Bytes → Bool
  calloc : Bool
  resets : Bytes → Bool
  sends : Bytes → Bool
  malloc : Bool
  received : Bytes → Bytes
  lastError : Bytes → Int

/-- `https_do`, with an error buffer as long as it takes.  `beyond` is what is
    in memory behind the response. -/
def httpsDo (N : HttpsNet) (beyond : Bytes) (method : Bytes) (url : Option Bytes)
    (e : Option HttpsEntity) (cap : Nat) : Extracted :=
  if N.anchors = 0 then .failed (lit "no trust anchors (fail closed)")
  else
    match url with
    | none => .failed (lit "bad args")
    | some url =>
        if cap = 0 then .failed (lit "bad args")
        else
          match parseHttpsUrl 256 16 1024 url with
          | none => .failed (lit "bad https url")
          | some u =>
              if !N.connects u.host u.port then .failed (lit "connect failed")
              else if !N.calloc then .failed (lit "oom")
              else if !N.resets u.host then .failed (lit "tls reset failed")
              else if httpsHeadCap ≤ (httpsHead method u e).length then
                .failed (lit "tls handshake/write failed")
              else
                let sent := httpsBytes method u e
                if !N.sends sent then .failed (lit "tls handshake/write failed")
                else if !N.malloc then .failed (lit "oom")
                else
                  let resp := (N.received sent).take (httpsRespCap - 1)
                  if resp ≠ [] then extractBody beyond resp cap
                  else if N.lastError sent ≠ 0 then
                    .failed (lit "tls error " ++ signedDecimal (N.lastError sent))
                  else .failed (lit "empty response")

/-- Up to the response everything works. -/
structure HttpsNet.Works (N : HttpsNet) (u : HttpsUrl) (sent : Bytes) : Prop where
  anchors : N.anchors ≠ 0
  connects : N.connects u.host u.port = true
  calloc : N.calloc = true
  resets : N.resets u.host = true
  sends : N.sends sent = true
  malloc : N.malloc = true

variable {url method : Bytes} {u : HttpsUrl} {e : Option HttpsEntity}

/-- A call for which everything works up to the response. -/
theorem httpsDo_works {N : HttpsNet} (beyond : Bytes) {cap : Nat} (hcap : 0 < cap)
    (hu : parseHttpsUrl 256 16 1024 url = some u)
    (hfits : (httpsHead method u e).length < httpsHeadCap)
    (hworks : N.Works u (httpsBytes method u e)) :
    httpsDo N beyond method (some url) e cap =
      if (N.received (httpsBytes method u e)).take (httpsRespCap - 1) ≠ [] then
        extractBody beyond ((N.received (httpsBytes method u e)).take (httpsRespCap - 1)) cap
      else if N.lastError (httpsBytes method u e) ≠ 0 then
        .failed (lit "tls error " ++ signedDecimal (N.lastError (httpsBytes method u e)))
      else .failed (lit "empty response") := by
  rw [httpsDo, if_neg hworks.anchors]
  dsimp only
  rw [if_neg (by omega), hu]
  dsimp only
  rw [hworks.connects, hworks.calloc, hworks.resets, hworks.sends, hworks.malloc, Bool.not_true,
    if_neg Bool.false_ne_true, if_neg Bool.false_ne_true, if_neg Bool.false_ne_true,
    if_neg (not_le.mpr hfits), if_neg Bool.false_ne_true, if_neg Bool.false_ne_true]

-- ============================================================================
-- The URL
-- ============================================================================

/-- What is in the parts of a URL that is accepted. -/
theorem parseHttpsUrl_some {hcap pcap pathcap : Nat} (hpath : 2 ≤ pathcap)
    (h : parseHttpsUrl hcap pcap pathcap url = some u) :
    u.host ≠ [] ∧ (∀ c ∈ u.host, c ∈ url) ∧ u.path ≠ [] ∧
      ∀ c ∈ u.path, c = chSlash ∨ c ∈ url := by
  have hsub : ∀ {c : UInt8}, c ∈ url.drop 8 → c ∈ url := List.mem_of_mem_drop
  have hhost : ∀ c ∈ ((url.drop 8).takeWhile (· != chSlash)).takeWhile (· != chColon), c ∈ url :=
    fun c hc => hsub ((List.takeWhile_prefix _).subset ((List.takeWhile_prefix _).subset hc))
  have hslash : ∀ t : Bytes, clip pathcap (chSlash :: t) ≠ [] := by
    intro t hnil
    rw [clip, cstr, List.takeWhile_cons_of_pos (by decide), List.take_eq_nil_iff] at hnil
    obtain hcap | hnil := hnil
    · omega
    · cases hnil
  have hpathne : clip pathcap (if (url.drop 8).dropWhile (· != chSlash) = [] then lit "/"
      else (url.drop 8).dropWhile (· != chSlash)) ≠ [] := by
    have hhead := List.head?_dropWhile_not (· != chSlash) (url.drop 8)
    split
    · exact hslash []
    · next hne =>
      obtain ⟨c, t, hct⟩ := List.exists_cons_of_ne_nil hne
      rw [hct] at hhead ⊢
      rw [show c = chSlash from of_not_not fun hc => absurd hhead (by
        rw [List.head?_cons]; simpa using hc)]
      exact hslash t
  have hpathmem : ∀ c ∈ clip pathcap (if (url.drop 8).dropWhile (· != chSlash) = [] then lit "/"
      else (url.drop 8).dropWhile (· != chSlash)), c = chSlash ∨ c ∈ url := by
    intro c hc
    have hc := (List.takeWhile_prefix _).subset (List.mem_of_mem_take hc)
    split at hc
    · exact .inl (List.mem_singleton.mp hc)
    · exact .inr (hsub ((List.dropWhile_suffix _).subset hc))
  rw [parseHttpsUrl] at h
  by_cases hscheme : url.take 8 ≠ lit "https://"
  · rw [if_pos hscheme] at h
    cases h
  rw [if_neg hscheme] at h
  dsimp only at h
  by_cases hbounds : ((url.drop 8).takeWhile (· != chSlash)).takeWhile (· != chColon) = [] ∨
      hcap ≤ (((url.drop 8).takeWhile (· != chSlash)).takeWhile (· != chColon)).length
  · rw [if_pos hbounds] at h
    cases h
  rw [if_neg hbounds] at h
  rw [not_or] at hbounds
  split at h
  · obtain rfl := Option.some.inj h
    exact ⟨hbounds.1, hhost, hpathne, hpathmem⟩
  · next port _ =>
    by_cases hport : port = [] ∨ pcap ≤ port.length
    · rw [if_pos hport] at h
      cases h
    · rw [if_neg hport] at h
      obtain rfl := Option.some.inj h
      exact ⟨hbounds.1, hhost, hpathne, hpathmem⟩

-- ============================================================================
-- The request as it is read
-- ============================================================================

/-- The header lines of a request. -/
def httpsLines (host : Bytes) (e : Option HttpsEntity) : List HeaderLine :=
  [⟨lit "Host", chSpace :: host⟩, ⟨lit "User-Agent", lit " naitron-c"⟩,
      ⟨lit "Accept", lit " application/json"⟩, ⟨lit "Connection", lit " close"⟩]
    ++ (e.elim [] fun e => [⟨lit "Content-Type", chSpace :: e.type⟩,
      ⟨lit "Content-Length", chSpace :: decimal e.body.length⟩])

/-- The request as the peer's parser should see it. -/
def httpsRequest (method : Bytes) (u : HttpsUrl) (e : Option HttpsEntity) : NtcRequest where
  method := method
  target := u.path
  path := u.path.takeWhile (· ≠ 63)
  query := (u.path.dropWhile (· ≠ 63)).drop 1
  minorVersion := 1
  headers :=
    [⟨lit "Host", u.host⟩, ⟨lit "User-Agent", lit "naitron-c"⟩,
        ⟨lit "Accept", lit "application/json"⟩, ⟨lit "Connection", lit "close"⟩]
      ++ (e.elim [] fun e => [⟨lit "Content-Type", ntcSliceTrim e.type⟩,
        ⟨lit "Content-Length", decimal e.body.length⟩])
  hasContentLength := e.isSome
  contentLength := (entityBody e).length
  body := entityBody e

/-- The head taken apart. -/
def httpsTop (method : Bytes) (u : HttpsUrl) (e : Option HttpsEntity) : HttpHead :=
  ⟨method, u.path, .v11, httpsLines u.host e⟩

theorem httpsHead_eq : httpsHead method u e = (httpsTop method u e).bytes := by
  have hversion : lit " HTTP/1.1\r\nHost: " =
      chSpace :: (lit "HTTP/1.1" ++ (crlf ++ (lit "Host" ++ [chColon, chSpace]))) := by decide
  have hfixed :
      lit "\r\nUser-Agent: naitron-c\r\nAccept: application/json\r\nConnection: close\r\n" =
        crlf ++ (lit "User-Agent" ++ chColon :: lit " naitron-c" ++ crlf ++
          (lit "Accept" ++ chColon :: lit " application/json" ++ crlf ++
            (lit "Connection" ++ chColon :: lit " close" ++ crlf))) := by decide
  have htype : lit "Content-Type: " = lit "Content-Type" ++ [chColon, chSpace] := by decide
  have hlength : lit "\r\nContent-Length: " =
      crlf ++ (lit "Content-Length" ++ [chColon, chSpace]) := by decide
  rw [httpsHead, httpsTop, HttpHead.bytes, HttpHead.pieces, HttpHead.requestLine, httpsLines,
    hversion, hfixed, htype, hlength]
  cases e with
  | none =>
      simp only [Option.elim_none, unlines, List.map_cons, List.map_nil, List.flatMap_cons,
        List.flatMap_nil, HeaderLine.bytes, HttpVersion.bytes, List.append_assoc,
        List.cons_append, List.nil_append, List.append_nil]
  | some e =>
      simp only [Option.elim_some, unlines, List.map_cons, List.map_nil, List.flatMap_cons,
        List.flatMap_nil, HeaderLine.bytes, HttpVersion.bytes, List.append_assoc,
        List.cons_append, List.nil_append, List.append_nil]

/-- No white space at the ends. -/
theorem ntcSliceTrim_eq_self {s : Bytes} (h : ∀ c ∈ s, isSpace c = false) : ntcSliceTrim s = s := by
  have hdrop : ∀ s : Bytes, (∀ c ∈ s, isSpace c = false) → s.dropWhile isSpace = s := by
    intro s hs
    cases s with
    | nil => rfl
    | cons c s => exact List.dropWhile_cons_of_neg (by rw [hs c List.mem_cons_self]; decide)
  rw [ntcSliceTrim, hdrop s h, hdrop _ fun c hc => h c (List.mem_reverse.mp hc),
    List.reverse_reverse]

theorem ntcSliceTrim_space (s : Bytes) : ntcSliceTrim (chSpace :: s) = ntcSliceTrim s := by
  rw [ntcSliceTrim, List.dropWhile_cons_of_pos (by decide), ntcSliceTrim]

theorem isSpace_decimal (n : Nat) : ∀ c ∈ decimal n, isSpace c = false := by
  have hall : ∀ c : UInt8, isSpace c = true → isDigit c = false := by
    intro c hc
    simp only [isSpace, Bool.or_eq_true, beq_iff_eq] at hc
    obtain ((((rfl | rfl) | rfl) | rfl) | rfl) | rfl := hc <;> rfl
  intro c hc
  rw [Bool.eq_false_iff]
  intro hspace
  have hdigit := (decimal_spec n).2.1 c hc
  rw [hall c hspace] at hdigit
  cases hdigit

theorem isDigits_decimal (n : Nat) :
    decimal n ≠ [] ∧ isDigits (decimal n) = true ∧ decimalValue (decimal n) = n := by
  obtain ⟨hne, hdigits, hval⟩ := decimal_spec n
  refine ⟨hne, List.all_eq_true.mpr hdigits, Eq.trans ?_ hval⟩
  rw [decimalValue, digitsVal]
  simp only [Nat.mul_comm]

/-- Their headers, trimmed. -/
theorem httpsTop_headers (hhost : ∀ c ∈ u.host, isSpace c = false) :
    (httpsTop method u e).headers = (httpsRequest method u e).headers := by
  have hagent : ntcSliceTrim (lit " naitron-c") = lit "naitron-c" := by decide
  have haccept : ntcSliceTrim (lit " application/json") = lit "application/json" := by decide
  have hclose : ntcSliceTrim (lit " close") = lit "close" := by decide
  have htrim := ntcSliceTrim_eq_self hhost
  cases e with
  | none =>
      simp only [httpsTop, HttpHead.headers, httpsLines, httpsRequest, Option.elim_none,
        List.append_nil, List.map_cons, List.map_nil, HeaderLine.header, ntcSliceTrim_space,
        hagent, haccept, hclose, htrim]
  | some e =>
      simp only [httpsTop, HttpHead.headers, httpsLines, httpsRequest, Option.elim_some,
        List.cons_append, List.nil_append, List.map_cons, List.map_nil, HeaderLine.header,
        ntcSliceTrim_space, hagent, haccept, hclose, htrim,
        ntcSliceTrim_eq_self (isSpace_decimal e.body.length)]

/-- Only the last header tells the length of a body. -/
theorem httpsRequest_lengths {d : NtcHeader} (hd : d ∈ (httpsRequest method u e).headers)
    (hlength : isContentLength d = true) : d.value = decimal (entityBody e).length := by
  have hother : ∀ {name value : Bytes}, islabelEq name (lit "content-length") = false →
      d = ⟨name, value⟩ → d.value = decimal (entityBody e).length := by
    rintro name value hname rfl
    rw [show isContentLength ⟨name, value⟩ = islabelEq name (lit "content-length") from rfl,
      hname] at hlength
    cases hlength
  rw [httpsRequest] at hd
  rcases List.mem_append.mp hd with hd | hd
  · simp only [List.mem_cons, List.not_mem_nil, or_false] at hd
    obtain hd | hd | hd | hd := hd
    · exact hother (by decide) hd
    · exact hother (by decide) hd
    · exact hother (by decide) hd
    · exact hother (by decide) hd
  · cases e with
    | none => cases hd
    | some e =>
        simp only [Option.elim_some, List.mem_cons, List.not_mem_nil, or_false] at hd
        obtain hd | rfl := hd
        · exact hother (by decide) hd
        · rfl

theorem httpsRequest_contentLength :
    ((httpsRequest method u e).headers.find? isContentLength).map
      (fun d => decimalValue d.value) = e.map fun e => e.body.length := by
  have hno : ∀ {name : Bytes} (value : Bytes), islabelEq name (lit "content-length") = false →
      ¬ isContentLength ⟨name, value⟩ = true := by
    intro name value hname
    rw [show isContentLength ⟨name, value⟩ = islabelEq name (lit "content-length") from rfl, hname]
    exact Bool.false_ne_true
  have hyes : ∀ {value : Bytes}, isContentLength ⟨lit "Content-Length", value⟩ = true :=
    fun {_} => (by decide : islabelEq (lit "Content-Length") (lit "content-length") = true)
  rw [httpsRequest, List.find?_append]
  rw [List.find?_cons_of_neg (hno _ (by decide)), List.find?_cons_of_neg (hno _ (by decide)),
    List.find?_cons_of_neg (hno _ (by decide)), List.find?_cons_of_neg (hno _ (by decide)),
    List.find?_nil, Option.none_or]
  cases e with
  | none => rfl
  | some e =>
      rw [Option.elim_some, List.find?_cons_of_neg (hno _ (by decide)),
        List.find?_cons_of_pos hyes, Option.map_some, Option.map_some]
      exact congrArg some (isDigits_decimal e.body.length).2.2

/-- A call that a gateway can take: its parts are clean, the head fits the
    buffer of the client, and the request that of the gateway. -/
structure HttpsCallOk (method url : Bytes) (u : HttpsUrl) (e : Option HttpsEntity) : Prop where
  token : isToken method = true
  clean : ∀ c ∈ url, isSpace c = false ∧ c ≠ 0
  ctype : ∀ d ∈ e, chCr ∉ d.type ∧ 0 ∉ d.type
  parsed : parseHttpsUrl 256 16 1024 url = some u
  fits : (httpsHead method u e).length < httpsHeadCap
  room : (httpsHead method u e).length + (entityBody e).length ≤ ntcConnRbuf

/-- The head is well formed. -/
theorem httpsTop_valid {url : Bytes} (h : HttpsCallOk method url u e) :
    (httpsTop method u e).Valid ∧
      (httpsTop method u e).headers = (httpsRequest method u e).headers ∧
      ∀ l ∈ (httpsTop method u e).pieces, NoCrlf l := by
  obtain ⟨-, hhost, hpath, hpathmem⟩ := parseHttpsUrl_some (by decide) h.parsed
  have hhost' : ∀ c ∈ u.host, isSpace c = false := fun c hc => (h.clean c (hhost c hc)).1
  have hpath' : ∀ c ∈ u.path, isSpace c = false := by
    intro c hc
    obtain rfl | hc := hpathmem c hc
    · rfl
    · exact (h.clean c hc).1
  have hheaders := @httpsTop_headers method u e hhost'
  have hnot : ∀ {s : Bytes} {c : UInt8}, isSpace c = true → (∀ c ∈ s, isSpace c = false) →
      c ∉ s := by
    intro s c hc hs hmem
    rw [hs c hmem] at hc
    cases hc
  have hmethod : chCr ∉ method := isToken_notMem h.token (by decide)
  refine ⟨⟨h.token, hpath, hnot rfl hpath', ?_, ?_, ?_, ?_⟩, hheaders, ?_⟩
  · cases e with
    | none => exact (by decide : 4 ≤ ntcMaxHeaders)
    | some e => exact (by decide : 6 ≤ ntcMaxHeaders)
  · intro l hl
    rcases List.mem_append.mp hl with hl | hl
    · simp only [List.mem_cons, List.not_mem_nil, or_false] at hl
      obtain rfl | rfl | rfl | rfl := hl
      · exact (by decide : isToken (lit "Host") = true)
      · exact (by decide : isToken (lit "User-Agent") = true)
      · exact (by decide : isToken (lit "Accept") = true)
      · exact (by decide : isToken (lit "Connection") = true)
    · cases e with
      | none => cases hl
      | some e =>
          simp only [Option.elim_some, List.mem_cons, List.not_mem_nil, or_false] at hl
          obtain rfl | rfl := hl
          · exact (by decide : isToken (lit "Content-Type") = true)
          · exact (by decide : isToken (lit "Content-Length") = true)
  · rw [hheaders]
    intro d hd hlength
    obtain ⟨hne, hdigits, hval⟩ := isDigits_decimal (entityBody e).length
    rw [httpsRequest_lengths hd hlength, hval]
    exact ⟨hne, hdigits, (Nat.le_add_left _ _).trans_lt (h.room.trans_lt (by decide))⟩
  · rw [hheaders]
    intro d hd d' hd' hlength hlength'
    rw [httpsRequest_lengths hd hlength, httpsRequest_lengths hd' hlength']
  · intro l hl
    refine noCrlf_of_notMem ?_
    obtain rfl | hl := List.mem_cons.mp hl
    · rw [HttpHead.requestLine]
      simp only [List.mem_append, List.mem_cons, not_or]
      exact ⟨hmethod, by decide, hnot rfl hpath', by decide,
        (by decide : chCr ∉ HttpVersion.bytes .v11)⟩
    · obtain ⟨m, hm, rfl⟩ := List.mem_map.mp hl
      rw [HeaderLine.bytes]
      rcases List.mem_append.mp hm with hl | hl
      · simp only [List.mem_cons, List.not_mem_nil, or_false] at hl
        obtain rfl | rfl | rfl | rfl := hl
        · simp only [List.mem_append, List.mem_cons, not_or]
          exact ⟨by decide, by decide, by decide, hnot rfl hhost'⟩
        · decide
        · decide
        · decide
      · cases e with
        | none => cases hl
        | some e =>
            simp only [Option.elim_some, List.mem_cons, List.not_mem_nil, or_false] at hl
            obtain rfl | rfl := hl
            · simp only [List.mem_append, List.mem_cons, not_or]
              exact ⟨by decide, by decide, by decide, (h.ctype e rfl).1⟩
            · simp only [List.mem_append, List.mem_cons, not_or]
              exact ⟨by decide, by decide, by decide, hnot rfl (isSpace_decimal _)⟩

/-- The gateway's parser waits for the body, and then sees the request that was
    meant. -/
theorem frameRequest_httpsHead {url : Bytes} (h : HttpsCallOk method url u e) {maxBody : Nat}
    (hmax : maxBody = 0 ∨ (entityBody e).length ≤ maxBody) {b : Bytes}
    (hb : b.length ≤ (entityBody e).length) :
    frameRequest maxBody (httpsHead method u e ++ b) false =
      if b.length < (entityBody e).length then .wait
      else .ready { httpsRequest method u e with body := b } := by
  obtain ⟨hvalid, hheaders, hlines⟩ := httpsTop_valid h
  have hroom := h.room
  have hrequest : (httpsTop method u e).request b = { httpsRequest method u e with body := b } := by
    rw [HttpHead.request, HttpHead.contentLength?, hheaders, httpsRequest_contentLength,
      httpsRequest]
    cases e with
    | none => rfl
    | some e => rfl
  have hparse := hvalid.parse hlines b
  rw [hrequest, ← httpsHead_eq] at hparse
  have hsize : ntcConnRbuf < sizeMax := by decide
  rw [frameRequest, hparse]
  dsimp only
  rw [show (httpsRequest method u e).contentLength = (entityBody e).length from rfl,
    List.length_append, if_neg, if_neg]
  · by_cases hshort : b.length < (entityBody e).length
    · have hhas : (httpsRequest method u e).hasContentLength = true := by
        cases e with
        | none => exact absurd hshort (Nat.not_lt_zero _)
        | some e => rfl
      rw [if_pos hshort, if_pos ⟨hhas, by omega⟩, if_neg Bool.false_ne_true, if_pos (by omega)]
    · rw [if_neg hshort, if_neg]
      rintro ⟨-, hmore⟩
      omega
  · rintro ⟨-, hbig⟩
    omega
  · rintro ⟨-, hne, hbig⟩
    omega

/-- It waits as long as a part of the request is missing. -/
theorem frameRequest_part {url : Bytes} (h : HttpsCallOk method url u e) {maxBody : Nat}
    (hmax : maxBody = 0 ∨ (entityBody e).length ≤ maxBody) {s : Bytes}
    (hs : s <+: httpsBytes method u e) (hne : s ≠ httpsBytes method u e) :
    frameRequest maxBody s false = .wait := by
  rw [httpsBytes] at hs hne
  obtain ⟨more, hall⟩ := hs
  by_cases hlong : (httpsHead method u e).length ≤ s.length
  · -- the head is there
    obtain ⟨b, rfl⟩ : httpsHead method u e <+: s :=
      List.prefix_of_prefix_length_le (List.prefix_append _ _) ⟨more, hall⟩ hlong
    rw [List.append_assoc] at hall
    have hbody := List.append_cancel_left hall
    have hlen := congrArg List.length hbody
    rw [List.length_append] at hlen
    have hmore : more ≠ [] := by
      rintro rfl
      rw [List.append_nil] at hbody
      exact hne (by rw [hbody])
    have hpos := List.length_pos_of_ne_nil hmore
    rw [frameRequest_httpsHead h hmax (by omega), if_pos (by omega)]
  · -- the blank line is not there yet
    obtain ⟨-, -, hlines⟩ := httpsTop_valid h
    have hnone : findEoh s = none := by
      cases hfind : findEoh s with
      | none => rfl
      | some i =>
          have hle := findEoh_le hfind
          have hfirst := findEoh_iff.mpr (HttpHead.firstAt hlines (entityBody e))
          rw [← httpsHead_eq, ← hall] at hfirst
          have heq := Option.some.inj ((findEoh_append hfind more).symm.trans hfirst)
          have hlen := (httpsTop method u e).length_bytes
          rw [← httpsHead_eq] at hlen
          omega
    have hshort : ¬ ntcMaxHeaderBytes < s.length := by
      have hfits := h.fits
      have hcap : httpsHeadCap ≤ ntcMaxHeaderBytes := by decide
      omega
    have hverdict := @verdict_noHead maxBody s hnone
    rw [if_neg hshort, verdict] at hverdict
    exact Framing.decision_pending.mp hverdict

-- ============================================================================
-- The response as it is read
-- ============================================================================

/-- The head of an answer with status 200, its lines in order. -/
def answerTop (ctype : Bytes) (hs : List Bytes) (bodyLen : Nat) : OkHead where
  minor := 49
  reason := lit " OK"
  fields :=
    [lit "Server: naitron-c/0.0.1", lit "Content-Type: " ++ ctype,
      lit "Content-Length: " ++ decimal bodyLen, lit "Connection: close"] ++ hs

theorem gatewayHead_eq {ctype : Bytes} (hctype : 0 ∉ ctype) (hs : List Bytes) (bodyLen : Nat) :
    responseHead 200 ctype (unlines hs) bodyLen = (answerTop ctype hs bodyLen).bytes := by
  have hstatus : statusLines 200 =
      lit "HTTP/1." ++ (49 :: lit " 200") ++ lit " OK" ++ crlf ++
        (lit "Server: naitron-c/0.0.1" ++ crlf) := by decide
  have hclose : lit "Connection: close\r\n" = lit "Connection: close" ++ crlf := by decide
  rw [responseHead, hstatus, hclose, cstr_of_noNul hctype, OkHead.bytes, OkHead.lines,
    OkHead.statusLine, answerTop]
  simp only [unlines, List.flatMap_cons, List.cons_append, List.nil_append, List.append_assoc]

theorem answerTop_ok {ctype : Bytes} (hctype : chCr ∉ ctype) {hs : List Bytes}
    (hhs : ∀ l ∈ hs, NoCrlf l ∧ l ≠ []) (bodyLen : Nat) : (answerTop ctype hs bodyLen).Ok := by
  have hdecimal : chCr ∉ decimal bodyLen := by
    intro hmem
    have hspace := isSpace_decimal bodyLen chCr hmem
    revert hspace
    decide
  refine ⟨fun l hl => ?_, fun l hl => ?_, fun c hc => (Option.some.inj hc).symm⟩
  · obtain rfl | hl := List.mem_cons.mp hl
    · exact noCrlf_of_notMem (by decide : chCr ∉ lit "HTTP/1." ++ 49 :: lit " 200" ++ lit " OK")
    rcases List.mem_append.mp hl with hl | hl
    · simp only [List.mem_cons, List.not_mem_nil, or_false] at hl
      obtain rfl | rfl | rfl | rfl := hl
      · exact noCrlf_of_notMem (by decide)
      · exact noCrlf_of_notMem fun hmem =>
          (List.mem_append.mp hmem).elim (by decide) hctype
      · exact noCrlf_of_notMem fun hmem =>
          (List.mem_append.mp hmem).elim (by decide) hdecimal
      · exact noCrlf_of_notMem (by decide)
    · exact (hhs l hl).1
  · rcases List.mem_append.mp hl with hl | hl
    · simp only [List.mem_cons, List.not_mem_nil, or_false] at hl
      obtain rfl | rfl | rfl | rfl := hl
      · decide
      · exact List.append_ne_nil_of_left_ne_nil (by decide) _
      · exact List.append_ne_nil_of_left_ne_nil (by decide) _
      · decide
    · exact (hhs l hl).2

end Naitron
