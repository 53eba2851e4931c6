/-
  Naitron.HttpRequest

  The HTTP/1.1 request parser of `src/common/http_request.c`.

  The parser works on one buffer with pointers into it.  Here a pointer range
  is the list of bytes it spans: `findEoh buf` is the offset of the first
  CRLFCRLF, the request line is cut from the bytes before the first CRLF of
  the header block, and the header loop runs over the bytes between the
  request line and the blank line.  `parseHeaders` follows the `while (cur <
  eoh)` loop; every iteration consumes at least the two bytes of a CRLF, so a
  fuel of the region's length is never exhausted.
-/

import Naitron.Bytes

namespace Naitron

/-- `NTC_MAX_HEADER_BYTES`. -/
def ntcMaxHeaderBytes : Nat := 32 * 1024

/-- `NTC_MAX_HEADERS`. -/
def ntcMaxHeaders : Nat := 64

/-- `NTC_MAX_PARAMS`. -/
def ntcMaxParams : Nat := 8

/-- Largest `size_t` plus one. -/
def sizeMax : Nat := 2 ^ 64

/-- `a - b` of two `size_t`. -/
def sizeSub (a b : Nat) : Nat := (a + sizeMax - b) % sizeMax

theorem sizeSub_of_le {a b : Nat} (h : b ≤ a) (ha : a < sizeMax) : sizeSub a b = a - b := by
  rw [sizeSub, show a + sizeMax - b = (a - b) + sizeMax by omega, Nat.add_mod_right,
    Nat.mod_eq_of_lt (by omega)]

/-- `ntc_header`. -/
structure NtcHeader where
  name : Bytes
  value : Bytes
deriving DecidableEq, Repr

/-- `ntc_request`.  `nheaders` and `nparams` are the lengths of the lists. -/
structure NtcRequest where
  method : Bytes := []
  target : Bytes := []
  path : Bytes := []
  query : Bytes := []
  minorVersion : Nat := 0
  headers : List NtcHeader := []
  params : List NtcHeader := []
  authSub : Bytes := []
  authScope : Bytes := []
  hasContentLength : Bool := false
  contentLength : Nat := 0
  body : Bytes := []
deriving DecidableEq, Repr

/-- `ntc_parse_result`, with what `OK` fills in. -/
inductive NtcParseResult where
  | ok (req : NtcRequest) (consumed : Nat)
  | incomplete
  | error
deriving DecidableEq, Repr

-- ============================================================================
-- Scanning
-- ============================================================================

/-- `find_crlf`: offset of the first CRLF inside the range. -/
def findCrlf : Bytes → Option Nat
  | a :: b :: rest =>
      if a = chCr ∧ b = chLf then some 0 else (findCrlf (b :: rest)).map (· + 1)
  | _ => none

/-- `find_eoh`: offset of the first CRLFCRLF. -/
def findEoh : Bytes → Option Nat
  | [] => none
  | a :: rest =>
      if (crlf ++ crlf).isPrefixOf (a :: rest) then some 0
      else (findEoh rest).map (· + 1)

/-- `is_tchar`. -/
def isTchar (c : UInt8) : Bool :=
  (97 ≤ c && c ≤ 122) || (65 ≤ c && c ≤ 90) || (48 ≤ c && c ≤ 57)
    || (lit "!#$%&'*+-.^_`|~").contains c

/-- `is_token`. -/
def isToken (s : Bytes) : Bool := !s.isEmpty && s.all isTchar

-- ============================================================================
-- Content-Length
-- ============================================================================

/-- The digit loop of the Content-Length branch: `ntc_size_mul` and
    `ntc_size_add` reject a value that does not fit a `size_t`. -/
def parseDigits : Nat → Bytes → Option Nat
  | cl, [] => some cl
  | cl, ch :: rest =>
      if ch < 48 ∨ 57 < ch then none
      else if sizeMax ≤ cl * 10 then none
      else if sizeMax ≤ cl * 10 + (ch.toNat - 48) then none
      else parseDigits (cl * 10 + (ch.toNat - 48)) rest

/-- What one header line does to the content length of the request. -/
def noteContentLength (name value : Bytes) (req : NtcRequest) : Option NtcRequest :=
  if islabelEq name (lit "content-length") then
    if value.isEmpty then none
    else
      match parseDigits 0 value with
      | none => none
      | some cl =>
          if req.hasContentLength ∧ req.contentLength ≠ cl then none
          else some { req with hasContentLength := true, contentLength := cl }
  else some req

-- ============================================================================
-- Headers
-- ============================================================================

/-- One header line `name:value` (the line without its CRLF). -/
def parseHeaderLine (line : Bytes) (req : NtcRequest) : Option NtcRequest :=
  match memchr line chColon with
  | none => none
  | some i =>
      let name := line.take i
      let value := ntcSliceTrim (line.drop (i + 1))
      if !isToken name then none
      else if ntcMaxHeaders ≤ req.headers.length then none
      else
        noteContentLength name value
          { req with headers := req.headers ++ [⟨name, value⟩] }

/-- The `while (cur < eoh)` loop.  `rest` is the range from `cur` to
    `eoh + 2`, so `cur < eoh` says that more than one CRLF is left. -/
def parseHeaders : Nat → Bytes → NtcRequest → Option NtcRequest
  | 0, _, req => some req
  | fuel + 1, rest, req =>
      if rest.length ≤ 2 then some req
      else
        match findCrlf rest with
        | none => none
        | some le =>
            match parseHeaderLine (rest.take le) req with
            | none => none
            | some req' => parseHeaders fuel (rest.drop (le + 2)) req'

-- ============================================================================
-- The request line
-- ============================================================================

/-- `version` must be `HTTP/1.0` or `HTTP/1.1`; the result is the minor
    version. -/
def parseVersion (version : Bytes) : Option Nat :=
  if version = lit "HTTP/1.0" then some 0
  else if version = lit "HTTP/1.1" then some 1
  else none

/-- Split the target at its first question mark into path and query. -/
def splitTarget (target : Bytes) : Bytes × Bytes :=
  match memchr target 63 with
  | some q => (target.take q, target.drop (q + 1))
  | none => (target, [])

/-- `METHOD SP target SP HTTP/1.x`. -/
def parseRequestLine (line : Bytes) : Option NtcRequest :=
  match memchr line chSpace with
  | none => none
  | some sp1 =>
      let method := line.take sp1
      let tail := line.drop (sp1 + 1)
      match memchr tail chSpace with
      | none => none
      | some sp2 =>
          let target := tail.take sp2
          let version := tail.drop (sp2 + 1)
          if !isToken method then none
          else if target.isEmpty then none
          else
            match parseVersion version with
            | none => none
            | some minor =>
                some
                  { method := method, target := target
                    path := (splitTarget target).1
                    query := (splitTarget target).2
                    minorVersion := minor }

/-- `ntc_http_parse_request`. -/
def ntcHttpParseRequest (buf : Bytes) : NtcParseResult :=
  match findEoh buf with
  | none => if ntcMaxHeaderBytes < buf.length then .error else .incomplete
  | some eoh =>
      let consumed := eoh + 4
      let block := buf.take (eoh + 2)
      match findCrlf block with
      | none => .error
      | some rl =>
          match parseRequestLine (block.take rl) with
          | none => .error
          | some req =>
              match parseHeaders block.length (block.drop (rl + 2)) req with
              | none => .error
              | some req' => .ok { req' with body := buf.drop consumed } consumed

/-- `ntc_http_header`: first header of that name, empty when absent. -/
def ntcHttpHeader (req : NtcRequest) (name : Bytes) : Bytes :=
  match req.headers.find? fun h => islabelEq h.name name with
  | some h => h.value
  | none => []

-- ============================================================================
-- What a parsed request holds
-- ============================================================================

/-- The header block ends inside the buffer. -/
theorem findEoh_le : ∀ {buf : Bytes} {eoh : Nat}, findEoh buf = some eoh → eoh + 4 ≤ buf.length
  | [], _, h => by simp [findEoh] at h
  | a :: rest, eoh, h => by
      rw [findEoh] at h
      split at h
      · rename_i hhere
        have hlen := (List.isPrefixOf_iff_prefix.mp hhere).length_le
        cases h
        simpa [crlf] using hlen
      · obtain ⟨e, he, rfl⟩ := Option.map_eq_some_iff.mp h
        have := findEoh_le he
        simp only [List.length_cons]
        omega

/-- A Content-Length header. -/
def isContentLength (h : NtcHeader) : Bool := islabelEq h.name (lit "content-length")

/-- The length the headers declare, zero without a Content-Length. -/
def declaredLength (req : NtcRequest) : Nat :=
  match req.headers.find? isContentLength with
  | none => 0
  | some h => (parseDigits 0 h.value).getD 0

/-- The flag says whether there is a Content-Length header, and every such
    header has the value noted. -/
structure LengthNoted (req : NtcRequest) : Prop where
  present : req.hasContentLength = req.headers.any isContentLength
  value : ∀ h ∈ req.headers, isContentLength h = true →
    parseDigits 0 h.value = some req.contentLength

theorem LengthNoted.declaredLength_eq {req : NtcRequest} (h : LengthNoted req) :
    declaredLength req = if req.hasContentLength then req.contentLength else 0 := by
  rw [declaredLength, h.present]
  cases hfind : req.headers.find? isContentLength with
  | none =>
      have hnone : req.headers.any isContentLength = false := by
        simpa [List.find?_eq_none] using hfind
      rw [hnone]
      rfl
  | some hdr =>
      have hmem := List.mem_of_find?_eq_some hfind
      have hname := List.find?_some hfind
      rw [if_pos (List.any_eq_true.mpr ⟨hdr, hmem, hname⟩)]
      simp only [h.value hdr hmem hname, Option.getD_some]

/-- One more header line keeps the note. -/
theorem noteContentLength_noted {name value : Bytes} {req req' : NtcRequest}
    (hreq : LengthNoted req)
    (h : noteContentLength name value { req with headers := req.headers ++ [⟨name, value⟩] } =
      some req') : LengthNoted req' := by
  unfold noteContentLength at h
  split at h
  · rename_i hname
    split at h
    · cases h
    · split at h
      · cases h
      · rename_i cl hcl
        split at h
        · cases h
        · rename_i hsame
          cases h
          constructor
          · simp [isContentLength, hname]
          · intro hdr hmem hcle
            rcases List.mem_append.mp hmem with hold | hnew
            · -- an earlier header: the values agree, or the line is refused
              have hhas : req.hasContentLength = true := by
                rw [hreq.present]
                exact List.any_eq_true.mpr ⟨hdr, hold, hcle⟩
              have heq : req.contentLength = cl := by
                by_contra hne
                exact hsame ⟨hhas, hne⟩
              rw [hreq.value hdr hold hcle, heq]
            · obtain rfl := List.mem_singleton.mp hnew
              exact hcl
  · rename_i hname
    cases h
    constructor
    · simp [isContentLength, hname, hreq.present]
    · intro hdr hmem hcle
      rcases List.mem_append.mp hmem with hold | hnew
      · exact hreq.value hdr hold hcle
      · obtain rfl := List.mem_singleton.mp hnew
        exact absurd hcle hname

theorem parseHeaderLine_noted {line : Bytes} {req req' : NtcRequest} (hreq : LengthNoted req)
    (h : parseHeaderLine line req = some req') : LengthNoted req' := by
  unfold parseHeaderLine at h
  split at h
  · cases h
  · dsimp only at h
    split at h
    · cases h
    · split at h
      · cases h
      · exact noteContentLength_noted hreq h

theorem parseHeaders_noted : ∀ {fuel : Nat} {rest : Bytes} {req req' : NtcRequest},
    LengthNoted req → parseHeaders fuel rest req = some req' → LengthNoted req'
  | 0, _, _, _, hreq, h => by
      cases h
      exact hreq
  | fuel + 1, rest, req, req', hreq, h => by
      rw [parseHeaders] at h
      split at h
      · cases h
        exact hreq
      · split at h
        · cases h
        · split at h
          · cases h
          · rename_i hline
            exact parseHeaders_noted (parseHeaderLine_noted hreq hline) h

/-- A request line notes no length. -/
theorem parseRequestLine_noted {line : Bytes} {req : NtcRequest}
    (h : parseRequestLine line = some req) : LengthNoted req := by
  unfold parseRequestLine at h
  split at h
  · cases h
  · dsimp only at h
    split at h
    · cases h
    · split at h
      · cases h
      · split at h
        · cases h
        · split at h
          · cases h
          · cases h
            exact ⟨rfl, fun _ hmem => absurd hmem List.not_mem_nil⟩

/-- A parsed request has consumed the header block, its body is all that
    follows, and its content length is what the headers declare. -/
theorem ntcHttpParseRequest_spec {buf : Bytes} {req : NtcRequest} {consumed : Nat}
    (h : ntcHttpParseRequest buf = .ok req consumed) :
    consumed ≤ buf.length ∧ (∃ eoh, findEoh buf = some eoh ∧ consumed = eoh + 4) ∧
      req.body = buf.drop consumed ∧
      declaredLength req = if req.hasContentLength then req.contentLength else 0 := by
  unfold ntcHttpParseRequest at h
  split at h
  · split at h <;> cases h
  · rename_i eoh heoh
    dsimp only at h
    split at h
    · cases h
    · split at h
      · cases h
      · rename_i line hline
        split at h
        · cases h
        · rename_i hhdrs
          cases h
          have hnoted := parseHeaders_noted (parseRequestLine_noted hline) hhdrs
          exact ⟨findEoh_le heoh, ⟨eoh, heoh, rfl⟩, rfl, hnoted.declaredLength_eq⟩

example :
    ntcHttpParseRequest (lit "POST /u?q=1 HTTP/1.1\r\nContent-Length: 5\r\n\r\nhello")
      = .ok
          { method := lit "POST", target := lit "/u?q=1", path := lit "/u"
            query := lit "q=1", minorVersion := 1
            headers := [⟨lit "Content-Length", lit "5"⟩]
            hasContentLength := true, contentLength := 5, body := lit "hello" } 43 := by
  decide

end Naitron
