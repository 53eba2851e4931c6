/-
  Naitron.Server.Compression

  When `conn_respond` sends a body compressed, and what the header block says
  of it.  The compressor is a parameter (`Ext.gzip`).
-/

import Naitron.Lib.Search
import Naitron.Server.Output
import Naitron.Server.Slots

namespace Naitron

variable (E : Ext)

-- ============================================================================
-- Lines of a header block
-- ============================================================================

/-- A byte in front of the first line. -/
def consHead (c : UInt8) : List Bytes → List Bytes
  | [] => [[c]]
  | l :: ls => (c :: l) :: ls

/-- The pieces between CRLFs. -/
def linesOf : Bytes → List Bytes
  | [] => [[]]
  | [c] => [[c]]
  | c :: d :: s =>
      if c = chCr ∧ d = chLf then [] :: linesOf s else consHead c (linesOf (d :: s))

theorem linesOf_ne_nil (s : Bytes) : linesOf s ≠ [] := by
  fun_cases linesOf s with
  | case1 => exact List.cons_ne_nil _ _
  | case2 => exact List.cons_ne_nil _ _
  | case3 => exact List.cons_ne_nil _ _
  | case4 c d s =>
      cases linesOf (d :: s) with
      | nil => exact List.cons_ne_nil _ _
      | cons l ls => exact List.cons_ne_nil _ _

theorem consHead_append {c : UInt8} {ls : List Bytes} (h : ls ≠ []) (ms : List Bytes) :
    consHead c (ls ++ ms) = consHead c ls ++ ms := by
  cases ls with
  | nil => exact absurd rfl h
  | cons l ls => rfl

theorem linesOf_cons_crlf (s : Bytes) : linesOf (chCr :: chLf :: s) = [] :: linesOf s := by
  rw [linesOf, if_pos ⟨rfl, rfl⟩]

/-- A CRLF ends a line. -/
theorem linesOf_append (b : Bytes) :
    ∀ a : Bytes, linesOf (a ++ (crlf ++ b)) = linesOf a ++ linesOf b
  | [] => linesOf_cons_crlf b
  | [c] => by
      have hno : ¬ (c = chCr ∧ chCr = chLf) := fun h => absurd h.2 (by decide)
      show linesOf (c :: chCr :: chLf :: b) = [[c]] ++ linesOf b
      rw [linesOf, if_neg hno, linesOf_cons_crlf]
      rfl
  | c :: d :: s => by
      show linesOf (c :: d :: (s ++ (crlf ++ b))) = _
      rw [linesOf, linesOf]
      by_cases hcrlf : c = chCr ∧ d = chLf
      · rw [if_pos hcrlf, if_pos hcrlf, linesOf_append b s]
        rfl
      · have ih := linesOf_append b (d :: s)
        rw [List.cons_append] at ih
        rw [if_neg hcrlf, if_neg hcrlf, ih, consHead_append (linesOf_ne_nil _)]

/-- Without a carriage return there is one line. -/
theorem linesOf_single : ∀ {s : Bytes}, chCr ∉ s → linesOf s = [s]
  | [], _ => rfl
  | [_], _ => rfl
  | c :: d :: s, h => by
      have hno : ¬ (c = chCr ∧ d = chLf) := fun hc => h (hc.1 ▸ List.mem_cons_self)
      rw [linesOf, if_neg hno, linesOf_single fun hd => h (List.mem_cons_of_mem c hd)]
      rfl

-- ============================================================================
-- Content-Encoding
-- ============================================================================

/-- A header line that names `Content-Encoding`, in any letter case. -/
def IsEncodingLine (line : Bytes) : Prop :=
  ∃ name value, line = name ++ chColon :: value ∧ chColon ∉ name ∧
    islabelEq name (lit "Content-Encoding") = true

theorem isEncodingLine_field {name value : Bytes} (h : chColon ∉ name) :
    IsEncodingLine (name ++ chColon :: value) ↔
      islabelEq name (lit "Content-Encoding") = true := by
  constructor
  · rintro ⟨name', value', heq, hname', heq'⟩
    have hsame : name = name' := Lib.eq_of_append_cons h hname' heq
    rw [hsame]
    exact heq'
  · exact fun heq => ⟨name, value, rfl, h, heq⟩

/-- A line that begins with another letter is no such line. -/
theorem not_isEncodingLine_of_head {c : UInt8} {s : Bytes} (h : lc c ≠ 99) :
    ¬ IsEncodingLine (c :: s) := by
  rintro ⟨name, value, heq, -, hname⟩
  cases name with
  | nil => exact absurd hname (by decide)
  | cons d name =>
      obtain ⟨rfl, -⟩ := List.cons.inj heq
      rw [islabelEq, beq_iff_eq] at hname
      exact h (List.cons.inj hname).1

theorem not_isEncodingLine_nil : ¬ IsEncodingLine [] := by
  rintro ⟨name, value, heq, -⟩
  cases name <;> cases heq

-- ============================================================================
-- The header block
-- ============================================================================

/-- A complete line of `extra_headers`. -/
def NtcHeader.line (f : NtcHeader) : Bytes := f.name ++ chColon :: f.value ++ crlf

/-- A name without colon, and no line end in the name or the value. -/
structure NtcHeader.IsLine (f : NtcHeader) : Prop where
  colon : chColon ∉ f.name
  name : chCr ∉ f.name
  value : chCr ∉ f.value

/-- The lines that the gateway prints before the extra headers. -/
def fixedLines (status : Nat) (ctype : Bytes) (bodyLen : Nat) : Bytes :=
  statusLines status ++ lit "Content-Type: " ++ cstr ctype ++ crlf
    ++ lit "Content-Length: " ++ decimal bodyLen ++ crlf ++ lit "Connection: close\r\n"

theorem responseHead_eq (status : Nat) (ctype extra : Bytes) (bodyLen : Nat) :
    responseHead status ctype extra bodyLen = fixedLines status ctype bodyLen ++ extra ++ crlf := by
  rw [responseHead, fixedLines]

theorem notMem_decimal {c : UInt8} (hc : c < 48) (n : Nat) : c ∉ decimal n := by
  intro hmem
  obtain ⟨d, hd, rfl⟩ := List.mem_map.mp hmem
  have hdigit := Nat.isDigit_of_mem_toDigits (by decide) (by decide) hd
  simp only [Char.isDigit, Bool.and_eq_true, decide_eq_true_eq] at hdigit
  have hlow : 48 ≤ d.toNat := hdigit.1
  have hhigh : d.toNat ≤ 57 := hdigit.2
  have hval : (UInt8.ofNat d.toNat).toNat = d.toNat := by
    rw [UInt8.toNat_ofNat']
    omega
  have hlt := UInt8.lt_iff_toNat_lt.mp hc
  rw [hval] at hlt
  have h48 : (48 : UInt8).toNat = 48 := rfl
  omega

theorem cr_notMem_statusText (status : Nat) : chCr ∉ ntcHttpStatusText status := by
  rw [ntcHttpStatusText.eq_def]
  split <;> decide

/-- The lines before the extra headers; only a line end in the content type
    makes an encoding line of them. -/
theorem fixedLines_encoding (status : Nat) (ctype : Bytes) (bodyLen : Nat) (rest : Bytes) :
    (∃ line ∈ linesOf (fixedLines status ctype bodyLen ++ rest), IsEncodingLine line) ↔
      (∃ line ∈ linesOf (lit "Content-Type: " ++ cstr ctype), IsEncodingLine line) ∨
        ∃ line ∈ linesOf rest, IsEncodingLine line := by
  have hsplit : fixedLines status ctype bodyLen ++ rest =
      (lit "HTTP/1.1 " ++ decimal status ++ [chSpace] ++ ntcHttpStatusText status) ++ (crlf ++
        (lit "Server: naitron-c/0.0.1" ++ (crlf ++
          ((lit "Content-Type: " ++ cstr ctype) ++ (crlf ++
            ((lit "Content-Length: " ++ decimal bodyLen) ++ (crlf ++
              (lit "Connection: close" ++ (crlf ++ rest))))))))) := by
    have hserver : lit "Server: naitron-c/0.0.1\r\n" = lit "Server: naitron-c/0.0.1" ++ crlf := by
      decide
    have hclose : lit "Connection: close\r\n" = lit "Connection: close" ++ crlf := by decide
    rw [fixedLines, statusLines, hserver, hclose]
    simp only [List.append_assoc]
  have hstatus : chCr ∉ lit "HTTP/1.1 " ++ decimal status ++ [chSpace] ++
      ntcHttpStatusText status := by
    simp only [List.mem_append, not_or]
    exact ⟨⟨⟨by decide, notMem_decimal (by decide) status⟩, by decide⟩, cr_notMem_statusText status⟩
  have hlength : chCr ∉ lit "Content-Length: " ++ decimal bodyLen := by
    simp only [List.mem_append, not_or]
    exact ⟨by decide, notMem_decimal (by decide) bodyLen⟩
  rw [hsplit, linesOf_append, linesOf_append, linesOf_append, linesOf_append, linesOf_append,
    linesOf_single hstatus, linesOf_single (s := lit "Server: naitron-c/0.0.1") (by decide),
    linesOf_single hlength, linesOf_single (s := lit "Connection: close") (by decide)]
  have hno : ∀ line, line = lit "HTTP/1.1 " ++ decimal status ++ [chSpace] ++
        ntcHttpStatusText status ∨ line = lit "Server: naitron-c/0.0.1" ∨
        line = lit "Content-Length: " ++ decimal bodyLen ∨ line = lit "Connection: close" →
      ¬ IsEncodingLine line := by
    rintro line (rfl | rfl | rfl | rfl)
    · exact not_isEncodingLine_of_head (c := 72) (by decide)
    · exact not_isEncodingLine_of_head (c := 83) (by decide)
    · have hfield : lit "Content-Length: " ++ decimal bodyLen =
          lit "Content-Length" ++ chColon :: (chSpace :: decimal bodyLen) := rfl
      rw [hfield, isEncodingLine_field (by decide)]
      decide
    · have hfield : lit "Connection: close" = lit "Connection" ++ chColon :: lit " close" := rfl
      rw [hfield, isEncodingLine_field (by decide)]
      decide
  simp only [List.mem_append, List.mem_singleton]
  constructor
  · rintro ⟨line, hline, henc⟩
    rcases hline with h | h | h | h | h | h
    · exact absurd henc (hno line (.inl h))
    · exact absurd henc (hno line (.inr (.inl h)))
    · exact .inl ⟨line, h, henc⟩
    · exact absurd henc (hno line (.inr (.inr (.inl h))))
    · exact absurd henc (hno line (.inr (.inr (.inr h))))
    · exact .inr ⟨line, h, henc⟩
  · rintro (⟨line, h, henc⟩ | ⟨line, h, henc⟩)
    · exact ⟨line, .inr (.inr (.inl h)), henc⟩
    · exact ⟨line, .inr (.inr (.inr (.inr (.inr h)))), henc⟩

/-- The encoding lines among complete extra headers are the fields of that
    name. -/
theorem extraLines_encoding {fields : List NtcHeader} (h : ∀ f ∈ fields, f.IsLine) :
    (∃ line ∈ linesOf (fields.flatMap NtcHeader.line), IsEncodingLine line) ↔
      ∃ f ∈ fields, islabelEq f.name (lit "Content-Encoding") = true := by
  induction fields with
  | nil =>
      refine iff_of_false ?_ fun hf => absurd hf.choose_spec.1 List.not_mem_nil
      rintro ⟨line, hline, henc⟩
      rw [List.mem_singleton.mp hline] at henc
      exact not_isEncodingLine_nil henc
  | cons f fields ih =>
      have hf := h f List.mem_cons_self
      have hcr : chCr ∉ f.name ++ chColon :: f.value := by
        simp only [List.mem_append, List.mem_cons, not_or]
        exact ⟨hf.name, by decide, hf.value⟩
      rw [List.flatMap_cons, NtcHeader.line, List.append_assoc, linesOf_append,
        linesOf_single hcr, List.singleton_append, List.exists_mem_cons_iff,
        isEncodingLine_field hf.colon, List.exists_mem_cons_iff,
        ih fun g hg => h g (List.mem_cons_of_mem f hg)]

-- ============================================================================
-- conn_respond
-- ============================================================================

/-- The compressed body that `conn_respond` puts in the place of the body. -/
def gzipSwap (c : Conn) (ok : Bool) (ctype body : Bytes) : Option Bytes :=
  if c.acceptGzip && ntcGzipMin ≤ body.length && ctypeCompressible ctype
      && !sliceHas c.extraHeaders.bytes (lit "Content-Encoding") then
    if ok then E.gzip body else none
  else none

/-- The line that announces it. -/
def gzipLine : Bytes := lit "Content-Encoding: gzip\r\n"

/-- The body of a response is exchanged for its compressed form. -/
structure GzipApplies (c : Conn) (ok : Bool) (ctype body : Bytes) : Prop where
  accepted : c.acceptGzip = true
  long : ntcGzipMin ≤ body.length
  compressible : ctypeCompressible ctype = true
  unnamed : sliceHas c.extraHeaders.bytes (lit "Content-Encoding") = false
  room : ok = true
  compressed : (E.gzip body).isSome = true

/-- What a response says of its body: `extra` are the extra headers before
    `conn_respond`, `after` those it sends, `swap` is the compressed body. -/
structure GzipAnnounced (status : Nat) (ctype extra after body sent : Bytes)
    (swap : Option Bytes) : Prop where
  line : swap.isSome = true ↔ after = extra ++ gzipLine
  only : swap.isSome = true →
    ∀ line ∈ linesOf (fixedLines status ctype sent.length ++ extra), ¬ IsEncodingLine line
  plain : swap = none → sent = body
  swapped : ∀ gz, swap = some gz → E.gzip body = some gz ∧ sent = gz

variable {E}

theorem gzipBody_eq (c : Conn) (ok : Bool) (ctype body : Bytes) :
    gzipBody E c ok ctype body =
      ((gzipSwap E c ok ctype body).getD body,
        if (gzipSwap E c ok ctype body).isSome = true then
          .set 512 (c.extraHeaders.bytes ++ gzipLine)
        else c.extraHeaders) := by
  rw [gzipBody, gzipSwap]
  split
  · cases ok with
    | true =>
        cases E.gzip body with
        | none => rfl
        | some gz => rfl
    | false =>
        cases E.gzip body with
        | none => rfl
        | some gz => rfl
  · rfl

/-- The line fits behind the extra headers. -/
theorem set_gzipLine_iff (extra : CStr 512) :
    (CStr.set 512 (extra.bytes ++ gzipLine)).bytes = extra.bytes ++ gzipLine ↔
      extra.bytes.length + 24 ≤ 511 := by
  have hnul : 0 ∉ extra.bytes ++ gzipLine := by
    rw [List.mem_append, not_or]
    exact ⟨extra.noNul, by decide⟩
  have hlen : (extra.bytes ++ gzipLine).length = extra.bytes.length + 24 := by
    rw [List.length_append]
    rfl
  constructor
  · intro h
    have hle := clip_length_le 512 (extra.bytes ++ gzipLine)
    rw [show clip 512 (extra.bytes ++ gzipLine) = extra.bytes ++ gzipLine from h, hlen] at hle
    exact hle
  · intro h
    exact clip_of_fits hnul (by omega)

/-- A response of `conn_respond`: the headers that went out are kept, and the
    write buffer is the head, the blank line and the body. -/
theorem connRespond_zero {g g' : Gateway} {k : ConnId} {c : Conn} {status : Nat}
    {ctype body : Bytes} (hc : g.conns k = some c)
    (h : connRespond E g k status ctype body = (.zero, g')) :
    ∃ c', g'.conns k = some c' ∧
      c'.extraHeaders = (gzipBody E c (g.ask E).1.ok ctype body).2 ∧
      c'.wbuf = fixedLines status ctype (gzipBody E c (g.ask E).1.ok ctype body).1.length ++
        c'.extraHeaders.bytes ++ crlf ++ (gzipBody E c (g.ask E).1.ok ctype body).1 := by
  have hasked : (((g.ask E).2.ask E).2).conns k = some c := hc
  rw [connRespond] at h
  dsimp only at h
  rw [hasked] at h
  dsimp only at h
  generalize gzipBody E c (g.ask E).1.ok ctype body = z at h ⊢
  obtain ⟨sent, after⟩ := z
  have hextra := modConn_conn hasked fun d => { d with extraHeaders := after }
  rw [ntcHttpFormatResponseEx] at h
  dsimp only at h hextra ⊢
  by_cases hcap : httpHeadCap ≤ (responseHead status ctype after.bytes sent.length).length
  · rw [if_pos hcap] at h
    cases h
  · rw [if_neg hcap] at h
    dsimp only at h
    split at h
    · cases h
      refine ⟨_, modConn_conn hextra _, rfl, ?_⟩
      show responseHead status ctype after.bytes sent.length ++ sent = _
      rw [responseHead_eq]
    · cases h

theorem gzipSwap_isSome_iff (c : Conn) (ok : Bool) (ctype body : Bytes) :
    (gzipSwap E c ok ctype body).isSome = true ↔ GzipApplies E c ok ctype body := by
  rw [gzipSwap]
  constructor
  · intro h
    split at h
    · rename_i hcond
      simp only [Bool.and_eq_true, decide_eq_true_eq, Bool.not_eq_true'] at hcond
      split at h
      · rename_i hok
        exact ⟨hcond.1.1.1, hcond.1.1.2, hcond.1.2, hcond.2, hok, h⟩
      · cases h
    · cases h
  · intro h
    rw [if_pos, if_pos h.room]
    · exact h.compressed
    · simp only [Bool.and_eq_true, decide_eq_true_eq, Bool.not_eq_true']
      exact ⟨⟨⟨h.accepted, h.long⟩, h.compressible⟩, h.unnamed⟩

theorem gzipSwap_eq {c : Conn} {ok : Bool} {ctype body gz : Bytes}
    (h : gzipSwap E c ok ctype body = some gz) : E.gzip body = some gz := by
  rw [gzipSwap] at h
  split at h
  · split at h
    · exact h
    · cases h
  · cases h

/-- When the announcement is right. -/
theorem gzipAnnounced_iff (c : Conn) (ok : Bool) (status : Nat) (ctype body : Bytes) :
    GzipAnnounced E status ctype c.extraHeaders.bytes (gzipBody E c ok ctype body).2.bytes body
        (gzipBody E c ok ctype body).1 (gzipSwap E c ok ctype body) ↔
      (GzipApplies E c ok ctype body → c.extraHeaders.bytes.length + 24 ≤ 511 ∧
        ¬ (∃ line ∈ linesOf (lit "Content-Type: " ++ cstr ctype), IsEncodingLine line) ∧
        ¬ ∃ line ∈ linesOf c.extraHeaders.bytes, IsEncodingLine line) := by
  have hlines : ∀ sent : Bytes,
      (∀ line ∈ linesOf (fixedLines status ctype sent.length ++ c.extraHeaders.bytes),
        ¬ IsEncodingLine line) ↔
        ¬ (∃ line ∈ linesOf (lit "Content-Type: " ++ cstr ctype), IsEncodingLine line) ∧
          ¬ ∃ line ∈ linesOf c.extraHeaders.bytes, IsEncodingLine line := by
    intro sent
    rw [← not_or, ← fixedLines_encoding status ctype sent.length]
    simp only [not_exists, not_and]
  have happlies := @gzipSwap_isSome_iff E c ok ctype body
  have hgzip : ∀ gz, gzipSwap E c ok ctype body = some gz → E.gzip body = some gz :=
    fun gz => gzipSwap_eq
  rw [gzipBody_eq]
  generalize gzipSwap E c ok ctype body = swap at happlies hgzip ⊢
  cases swap with
  | none =>
      have hno : ¬ GzipApplies E c ok ctype body := fun h => absurd (happlies.mpr h) (by decide)
      refine iff_of_true ⟨⟨fun h => absurd h (by decide), fun h => ?_⟩,
        fun h => absurd h (by decide), fun _ => rfl,
        fun gz h => absurd h.symm (Option.some_ne_none gz)⟩ fun h => absurd h hno
      have hlen := congrArg List.length
        (show c.extraHeaders.bytes = c.extraHeaders.bytes ++ gzipLine from h)
      rw [List.length_append, show gzipLine.length = 24 from rfl] at hlen
      omega
  | some gz =>
      have hyes := happlies.mp rfl
      constructor
      · intro h _
        exact ⟨(set_gzipLine_iff c.extraHeaders).mp (h.line.mp rfl), (hlines gz).mp (h.only rfl)⟩
      · intro h
        obtain ⟨hfit, hnone⟩ := h hyes
        refine ⟨iff_of_true rfl ((set_gzipLine_iff c.extraHeaders).mpr hfit),
          fun _ => (hlines gz).mpr hnone, fun h => absurd h (Option.some_ne_none gz), ?_⟩
        intro gz' hgz
        cases hgz
        exact ⟨hgzip gz rfl, rfl⟩

/-- A response announces its compression rightly if and only if, when the body
    is compressed, the extra headers leave 24 bytes of their 511 and neither
    they, in any letter case, nor lines inside the content type name an
    encoding. -/
theorem respond_announces_gzip_iff {g g' : Gateway} {k : ConnId} {c c' : Conn} {status : Nat}
    {ctype body : Bytes} {fields : List NtcHeader} (hc : g.conns k = some c)
    (hextra : c.extraHeaders.bytes = fields.flatMap NtcHeader.line)
    (hlines : ∀ f ∈ fields, f.IsLine)
    (h : connRespond E g k status ctype body = (.zero, g')) (hc' : g'.conns k = some c') :
    ∃ sent, c'.wbuf = fixedLines status ctype sent.length ++ c'.extraHeaders.bytes ++ crlf ++ sent ∧
      (GzipAnnounced E status ctype c.extraHeaders.bytes c'.extraHeaders.bytes body sent
          (gzipSwap E c (g.ask E).1.ok ctype body) ↔
        (GzipApplies E c (g.ask E).1.ok ctype body → c.extraHeaders.bytes.length + 24 ≤ 511 ∧
          ¬ (∃ line ∈ linesOf (lit "Content-Type: " ++ cstr ctype), IsEncodingLine line) ∧
          ¬ ∃ f ∈ fields, islabelEq f.name (lit "Content-Encoding") = true)) := by
  obtain ⟨d, hd, hafter, hwbuf⟩ := connRespond_zero hc h
  rw [hc'] at hd
  obtain rfl := Option.some.inj hd
  refine ⟨_, hwbuf, ?_⟩
  have hiff := @gzipAnnounced_iff E c (g.ask E).1.ok status ctype body
  rw [← hafter] at hiff
  rw [hiff, hextra, extraLines_encoding hlines]

-- ============================================================================
-- Two encodings
-- ============================================================================

/-- 256 letters. -/
def longText : Bytes := List.replicate 256 97

/-- Their gzip form. -/
def longTextGz : Bytes :=
  [31, 139, 8, 0, 0, 0, 0, 0, 0, 255, 75, 76, 28, 217, 0, 0, 89, 54, 125, 176, 0, 1, 0, 0]

/-- A compressor that knows this text only. -/
def longTextExt : Ext :=
  { quietExt with gzip := fun body => if body = longText then some longTextGz else none }

/-- A client that accepts gzip, with these extra headers. -/
def gzipClient (extra : Bytes) : Gateway :=
  (helloInFlight longTextExt).modConn 0 fun c =>
    { c with acceptGzip := true, extraHeaders := .set 512 extra }

def gzipReply (extra : Bytes) : Rc × Gateway :=
  connRespond longTextExt (gzipClient extra) 0 200 (lit "text/plain") longText

theorem gzipReply_announced :
    ∃ sent, ∃ c c', (gzipClient (lit "X-Cache: miss\r\n")).conns 0 = some c ∧
      (gzipReply (lit "X-Cache: miss\r\n")).2.conns 0 = some c' ∧
      c'.wbuf = fixedLines 200 (lit "text/plain") sent.length ++ c'.extraHeaders.bytes ++ crlf
        ++ sent ∧
      GzipAnnounced longTextExt 200 (lit "text/plain") c.extraHeaders.bytes c'.extraHeaders.bytes
        longText sent
        (gzipSwap longTextExt c ((gzipClient (lit "X-Cache: miss\r\n")).ask longTextExt).1.ok
          (lit "text/plain") longText) := by
  have hc : ((gzipClient (lit "X-Cache: miss\r\n")).conns 0).map (·.extraHeaders.bytes) =
      some (lit "X-Cache: miss\r\n") := by
    decide +kernel
  have hc' : ((gzipReply (lit "X-Cache: miss\r\n")).2.conns 0).isSome = true := by decide +kernel
  obtain ⟨c, hc, hextra⟩ := Option.map_eq_some_iff.mp hc
  obtain ⟨c', hc'⟩ := Option.isSome_iff_exists.mp hc'
  have hzero : (gzipReply (lit "X-Cache: miss\r\n")).1 = .zero := by decide +kernel
  rcases hresp : gzipReply (lit "X-Cache: miss\r\n") with ⟨rc, g'⟩
  rw [hresp] at hzero hc'
  obtain rfl : rc = .zero := hzero
  have hline : ∀ f ∈ [NtcHeader.mk (lit "X-Cache") (lit " miss")], f.IsLine := by
    intro f hf
    rw [List.mem_singleton.mp hf]
    exact ⟨by decide, by decide, by decide⟩
  have hfields : c.extraHeaders.bytes =
      [NtcHeader.mk (lit "X-Cache") (lit " miss")].flatMap NtcHeader.line :=
    hextra.trans (by decide)
  obtain ⟨sent, hsent, hiff⟩ :=
    respond_announces_gzip_iff hc hfields hline hresp hc'
  refine ⟨sent, c, c', hc, hc', hsent, hiff.mpr fun _ => ⟨?_, ?_, ?_⟩⟩
  · rw [hextra]
    decide
  · rintro ⟨line, hline, hnamed⟩
    rw [linesOf_single (by decide), List.mem_singleton] at hline
    rw [hline, show lit "Content-Type: " ++ cstr (lit "text/plain") =
      lit "Content-Type" ++ chColon :: lit " text/plain" by decide,
      isEncodingLine_field (by decide)] at hnamed
    exact absurd hnamed (by decide)
  · rintro ⟨f, hf, hnamed⟩
    rw [List.mem_singleton.mp hf] at hnamed
    exact absurd hnamed (by decide)

/-- A body that a controller announces as `content-encoding: br`, in lower
    case, is compressed again and announced twice. -/
theorem lower_case_encoding_announced_twice :
    (gzipReply (lit "content-encoding: br\r\n")).1 = .zero ∧
    ((gzipReply (lit "content-encoding: br\r\n")).2.conns 0).map (·.wbuf) =
      some (fixedLines 200 (lit "text/plain") 24 ++ lit "content-encoding: br\r\n"
        ++ gzipLine ++ crlf ++ longTextGz) ∧
    ∀ sent, ¬ GzipAnnounced longTextExt 200 (lit "text/plain") (lit "content-encoding: br\r\n")
      (lit "content-encoding: br\r\n" ++ gzipLine) longText sent (some longTextGz) := by
  refine ⟨by decide +kernel, by decide +kernel, ?_⟩
  intro sent h
  have hline : ∀ f ∈ [NtcHeader.mk (lit "content-encoding") (lit " br")], f.IsLine := by
    intro f hf
    rw [List.mem_singleton.mp hf]
    exact ⟨by decide, by decide, by decide⟩
  obtain ⟨line, hline, hnamed⟩ := (fixedLines_encoding 200 (lit "text/plain") sent.length
    (lit "content-encoding: br\r\n")).mpr
      (.inr ((extraLines_encoding hline).mpr ⟨_, List.mem_singleton_self _, by decide⟩))
  exact h.only rfl line hline hnamed

end Naitron
