/-
  Naitron.HttpsClient

  `extract_body` of `src/core/https_client.c`: the body of a raw response.

  Whether the body is chunked is decided by whether the word occurs in the
  head, and a chunked body that breaks off is taken as far as it goes.  The
  result is the body of every response whose head does not use the word for
  something else, and a response that was cut off behind its head is never
  reported.

  The response is followed in memory by bytes that do not belong to it, which
  `atoi` and `strtol` may run into.
-/

import Naitron.HttpGrammar
import Naitron.Registry
import Naitron.Chunked
import Naitron.Base64
import Naitron.JsonEmit

namespace Naitron

-- ============================================================================
-- The code
-- ============================================================================

/-- The value of hexadecimal digits. -/
def hexValue (s : Bytes) : Nat := s.foldl (fun n c => n * 16 + (hexVal c).getD 0) 0

/-- `0x`, where a digit follows it. -/
def hexPrefix (s : Bytes) : Bool :=
  s.head? == some 48 && ((s.drop 1).head? == some 120 || (s.drop 1).head? == some 88) &&
    ((s.drop 2).head?.bind hexVal).isSome

/-- The digits of `strtol`, behind the sign. -/
def strtolDigits (s : Bytes) : Nat :=
  hexValue (((if hexPrefix s then s.drop 2 else s)).takeWhile fun c => (hexVal c).isSome)

/-- `strtol(s, NULL, 16)`; a number that does not fit a `long` is the nearest
    that does. -/
def strtolHex (s : Bytes) : Int :=
  match s.dropWhile isSpace with
  | 45 :: rest => -(min (strtolDigits rest) (2 ^ 63) : Nat)
  | 43 :: rest => (min (strtolDigits rest) (2 ^ 63 - 1) : Nat)
  | rest => (min (strtolDigits rest) (2 ^ 63 - 1) : Nat)

/-- What `extract_body` comes to: an error text, or the bytes it has put into
    the buffer in front of the NUL. -/
inductive Extracted where
  | failed (err : Bytes)
  | returned (out : Bytes)
deriving DecidableEq, Repr

/-- The result of the function. -/
def Extracted.ret : Extracted → Int
  | .failed _ => -1
  | .returned out => toCInt out.length

/-- The search for the word: a place with something behind it. -/
def mentionsChunked (head : Bytes) : Bool :=
  (List.range head.length).any fun i =>
    i + 7 < head.length && islabelEq ((head.drop i).take 7) (lit "chunked")

/-- The loop over the chunks, from `s` to the end of the response; a turn takes
    a byte at least. -/
def unchunk (beyond : Bytes) (cap : Nat) : Nat → Bytes → Bytes → Extracted
  | 0, out, _ => .returned out
  | n + 1, out, s =>
      match memchr s chLf with
      | none => .returned out
      | some eol =>
          let sz := strtolHex (s ++ beyond)
          let p := s.drop (eol + 1)
          if sz ≤ 0 then .returned out
          else if (p.length : Int) < sz then .returned out
          else if cap ≤ out.length + sz.toNat then .failed (lit "body too large")
          else
            let rest := p.drop sz.toNat
            unchunk beyond cap n (out ++ p.take sz.toNat)
              (if rest.take 2 = crlf then rest.drop 2 else rest)

/-- `extract_body` of a response that `beyond` follows in memory, into a buffer
    of `cap` bytes. -/
def extractBody (beyond resp : Bytes) (cap : Nat) : Extracted :=
  if resp.length < 12 ∨ resp.take 7 ≠ lit "HTTP/1." then .failed (lit "bad response")
  else
    let status := atoi ((resp ++ beyond).drop 9)
    match findEoh resp with
    | none => .failed (lit "no header terminator")
    | some i =>
        if status ≠ 200 then .failed (lit "http status " ++ signedDecimal status)
        else
          let head := resp.take (i + 4)
          let body := resp.drop (i + 4)
          if !mentionsChunked head then
            if cap ≤ body.length then .failed (lit "body too large") else .returned body
          else unchunk beyond cap body.length [] body

-- ============================================================================
-- Responses
-- ============================================================================

/-- A status line with 200, and header lines. -/
structure OkHead where
  minor : UInt8
  reason : Bytes
  fields : List Bytes

namespace OkHead

def statusLine (h : OkHead) : Bytes := lit "HTTP/1." ++ h.minor :: lit " 200" ++ h.reason

def lines (h : OkHead) : List Bytes := h.statusLine :: h.fields

def bytes (h : OkHead) : Bytes := unlines h.lines ++ crlf

structure Ok (h : OkHead) : Prop where
  lines : ∀ l ∈ h.lines, NoCrlf l
  fields : ∀ l ∈ h.fields, l ≠ []
  reason : ∀ c ∈ h.reason.head?, c = chSpace

end OkHead

/-- A header field. -/
structure HttpField where
  name : Bytes
  value : Bytes
deriving DecidableEq, Repr

namespace HttpField

def line (f : HttpField) : Bytes := f.name ++ chColon :: f.value

/-- What stands behind the last comma of the value. -/
def lastCoding (f : HttpField) : Bytes :=
  ntcSliceTrim (f.value.reverse.takeWhile (· ≠ chComma)).reverse

/-- `Transfer-Encoding: chunked`, also with other codings in front. -/
def IsChunked (f : HttpField) : Prop :=
  islabelEq f.name (lit "Transfer-Encoding") = true ∧
    islabelEq f.lastCoding (lit "chunked") = true

instance (f : HttpField) : Decidable f.IsChunked := inferInstanceAs (Decidable (_ ∧ _))

end HttpField

/-- A chunk: its size line is digits and an extension. -/
structure Chunk where
  digits : Bytes
  ext : Bytes := []
  data : Bytes
deriving DecidableEq, Repr

/-- What may stand behind the digits of a size line. -/
def ChunkExt (ext : Bytes) : Prop :=
  chLf ∉ ext ∧ ∀ c ∈ ext.head?, c = 59 ∨ c = chSpace ∨ c = 9

theorem chunkExt_nil : ChunkExt [] := ⟨List.not_mem_nil, fun c hc => absurd hc (Option.not_mem_none c)⟩

namespace Chunk

def sizeLine (c : Chunk) : Bytes := c.digits ++ c.ext ++ crlf

def bytes (c : Chunk) : Bytes := c.sizeLine ++ c.data ++ crlf

structure Ok (c : Chunk) : Prop where
  digits : ∀ d ∈ c.digits, (hexVal d).isSome
  size : hexValue c.digits = c.data.length
  nonempty : c.data ≠ []
  ext : ChunkExt c.ext

end Chunk

/-- What follows the head of a response: the body as it is, or in chunks, with
    the digits of the last size line, its extension and the trailer. -/
inductive Payload where
  | plain (body : Bytes)
  | chunks (cs : List Chunk) (zeros ext trailer : Bytes)
deriving DecidableEq, Repr

namespace Payload

def body : Payload → Bytes
  | .plain body => body
  | .chunks cs _ _ _ => cs.flatMap Chunk.data

/-- The bytes up to where the last chunk has announced itself. -/
def announced : Payload → Bytes
  | .plain body => body
  | .chunks cs zeros ext _ => cs.flatMap Chunk.bytes ++ (zeros ++ ext ++ crlf)

def bytes : Payload → Bytes
  | .plain body => body
  | .chunks cs zeros ext trailer =>
      cs.flatMap Chunk.bytes ++ (zeros ++ ext ++ crlf) ++ trailer ++ crlf

def Ok : Payload → Prop
  | .plain _ => True
  | .chunks cs zeros ext _ =>
      (∀ c ∈ cs, c.Ok) ∧ zeros ≠ [] ∧ (∀ c ∈ zeros, c = 48) ∧ ChunkExt ext

/-- Is it in chunks? -/
def Chunked : Payload → Prop
  | .plain _ => False
  | .chunks .. => True

end Payload

/-- A response with status 200. -/
structure RawResponse where
  minor : UInt8
  reason : Bytes
  fields : List HttpField
  payload : Payload
deriving DecidableEq, Repr

namespace RawResponse

/-- The lines up to the blank line. -/
def top (r : RawResponse) : OkHead := ⟨r.minor, r.reason, r.fields.map HttpField.line⟩

/-- The bytes up to the blank line, and the blank line. -/
def head (r : RawResponse) : Bytes := r.top.bytes

def raw (r : RawResponse) : Bytes := r.head ++ r.payload.bytes

/-- The body that the response carries. -/
def body (r : RawResponse) : Bytes := r.payload.body

/-- A complete response: it is in chunks exactly if a header says so. -/
structure Ok (r : RawResponse) : Prop where
  lines : ∀ l ∈ r.top.lines, NoCrlf l
  reason : ∀ c ∈ r.reason.head?, c = chSpace
  payload : r.payload.Ok
  framing : r.payload.Chunked ↔ ∃ f ∈ r.fields, f.IsChunked

end RawResponse

-- ============================================================================
-- Size lines
-- ============================================================================

/-- Blanks, signs and the `x` of a prefix are no digits. -/
theorem hexVal_none {c : UInt8} (h : c ∈ ([32, 9, 13, 10, 12, 11, 45, 43, 59, 120, 88] : Bytes)) :
    hexVal c = none := by
  have hall : (([32, 9, 13, 10, 12, 11, 45, 43, 59, 120, 88] : Bytes).all
      fun c => hexVal c == none) = true := by decide
  exact beq_iff_eq.mp (List.all_eq_true.mp hall c h)

theorem ne_of_isSome {c x : UInt8} (h : (hexVal c).isSome)
    (hx : x ∈ ([32, 9, 13, 10, 12, 11, 45, 43, 59, 120, 88] : Bytes)) : c ≠ x := by
  rintro rfl
  rw [hexVal_none hx] at h
  exact absurd h (by decide)

theorem isSpace_of_hex {c : UInt8} (h : (hexVal c).isSome) : isSpace c = false := by
  simp [isSpace, ne_of_isSome h (x := 32) (by simp), ne_of_isSome h (x := 9) (by simp),
    ne_of_isSome h (x := 13) (by simp), ne_of_isSome h (x := 10) (by simp),
    ne_of_isSome h (x := 12) (by simp), ne_of_isSome h (x := 11) (by simp)]

/-- What stands behind the digits of a size line: no digit, and no `x`. -/
def AfterDigits (tail : Bytes) : Prop := ∀ c ∈ tail.head?, hexVal c = none ∧ c ≠ 120 ∧ c ≠ 88

theorem takeWhile_digits {digits tail : Bytes} (hdigits : ∀ d ∈ digits, (hexVal d).isSome)
    (htail : AfterDigits tail) :
    (digits ++ tail).takeWhile (fun c => (hexVal c).isSome) = digits := by
  rw [List.takeWhile_append_of_pos hdigits]
  cases tail with
  | nil => rw [List.takeWhile_nil, List.append_nil]
  | cons c tail =>
      rw [List.takeWhile_cons_of_neg, List.append_nil]
      rw [(htail c rfl).1]
      decide

/-- Digits are not a prefix. -/
theorem hexPrefix_digits {digits tail : Bytes} (hne : digits ≠ [])
    (hdigits : ∀ d ∈ digits, (hexVal d).isSome) (htail : AfterDigits tail) :
    hexPrefix (digits ++ tail) = false := by
  obtain ⟨d, digits, rfl⟩ := List.exists_cons_of_ne_nil hne
  have hsecond : ((d :: digits ++ tail).drop 1).head? ≠ some 120 ∧
      ((d :: digits ++ tail).drop 1).head? ≠ some 88 := by
    rw [List.cons_append, List.drop_one, List.tail_cons]
    cases digits with
    | nil =>
        rw [List.nil_append]
        exact ⟨fun h => (htail 120 h).2.1 rfl, fun h => (htail 88 h).2.2 rfl⟩
    | cons e digits =>
        have he := hdigits e (List.mem_cons_of_mem d List.mem_cons_self)
        rw [List.cons_append, List.head?_cons]
        exact ⟨fun h => ne_of_isSome he (x := 120) (by simp) (Option.some.inj h),
          fun h => ne_of_isSome he (x := 88) (by simp) (Option.some.inj h)⟩
  rw [hexPrefix, beq_eq_false_iff_ne.mpr hsecond.1, beq_eq_false_iff_ne.mpr hsecond.2,
    Bool.or_false, Bool.and_false, Bool.false_and]

/-- A size line is read as its number. -/
theorem strtolHex_digits {digits tail : Bytes} (hne : digits ≠ [])
    (hdigits : ∀ d ∈ digits, (hexVal d).isSome) (htail : AfterDigits tail) :
    strtolHex (digits ++ tail) = (min (hexValue digits) (2 ^ 63 - 1) : Nat) := by
  have hvalue : strtolDigits (digits ++ tail) = hexValue digits := by
    rw [strtolDigits, hexPrefix_digits hne hdigits htail, if_neg Bool.false_ne_true,
      takeWhile_digits hdigits htail]
  obtain ⟨d, digits, rfl⟩ := List.exists_cons_of_ne_nil hne
  have hd := hdigits d List.mem_cons_self
  have hspace : (d :: digits ++ tail).dropWhile isSpace = d :: digits ++ tail := by
    rw [List.cons_append, List.dropWhile_cons_of_neg]
    rw [isSpace_of_hex hd]
    exact Bool.false_ne_true
  rw [strtolHex, hspace]
  split
  · next h => exact absurd (List.cons.inj h).1 (ne_of_isSome hd (by simp))
  · next h => exact absurd (List.cons.inj h).1 (ne_of_isSome hd (by simp))
  · rw [hvalue]

theorem afterDigits_ext {ext rest : Bytes} (h : ChunkExt ext) : AfterDigits (ext ++ crlf ++ rest) := by
  intro c hc
  cases ext with
  | nil =>
      obtain rfl : chCr = c := Option.some.inj hc
      decide
  | cons e ext =>
      obtain rfl : e = c := Option.some.inj hc
      obtain rfl | rfl | rfl := h.2 e rfl
      · decide
      · decide
      · decide

-- ============================================================================
-- Chunks
-- ============================================================================

/-- A size line, and how it is read: the text in front of its line end, and the
    number. -/
theorem size_line {digits ext : Bytes} (hne : digits ≠ [])
    (hdigits : ∀ d ∈ digits, (hexVal d).isSome) (hext : ChunkExt ext) (rest beyond : Bytes) :
    memchr (digits ++ ext ++ crlf ++ rest) chLf = some (digits ++ ext ++ [chCr]).length ∧
      (digits ++ ext ++ crlf ++ rest).drop ((digits ++ ext ++ [chCr]).length + 1) = rest ∧
      strtolHex (digits ++ ext ++ crlf ++ rest ++ beyond) =
        (min (hexValue digits) (2 ^ 63 - 1) : Nat) := by
  have hline : digits ++ ext ++ crlf ++ rest = (digits ++ ext ++ [chCr]) ++ chLf :: rest := by
    simp only [List.append_assoc]
    rfl
  have hno : chLf ∉ digits ++ ext ++ [chCr] := by
    intro hmem
    obtain hmem | hmem := List.mem_append.mp hmem
    · obtain hmem | hmem := List.mem_append.mp hmem
      · exact ne_of_isSome (hdigits chLf hmem) (x := chLf) (by decide) rfl
      · exact hext.1 hmem
    · exact absurd (List.mem_singleton.mp hmem) (by decide)
  refine ⟨?_, ?_, ?_⟩
  · rw [hline]
    exact memchr_append hno rest
  · rw [hline, ← List.drop_drop, List.drop_left]
    rfl
  · have hsplit : digits ++ ext ++ crlf ++ rest ++ beyond =
        digits ++ (ext ++ crlf ++ (rest ++ beyond)) := by simp only [List.append_assoc]
    rw [hsplit]
    exact strtolHex_digits hne hdigits (afterDigits_ext hext)

namespace Chunk

variable {c : Chunk}

theorem Ok.digits_ne (h : c.Ok) : c.digits ≠ [] := by
  intro hnil
  have hsize := h.size
  rw [hnil] at hsize
  exact h.nonempty (List.length_eq_zero_iff.mp hsize.symm)

theorem Ok.length_pos (h : c.Ok) : 0 < c.data.length := List.length_pos_of_ne_nil h.nonempty

theorem length_bytes (c : Chunk) : c.bytes.length = c.sizeLine.length + c.data.length + 2 := by
  rw [bytes, List.length_append, List.length_append]
  rfl

end Chunk

variable {beyond : Bytes} {cap : Nat} {c : Chunk}

/-- The number of a chunk, as it is compared and added. -/
theorem chunk_size (hc : c.Ok) (hlong : c.data.length < 2 ^ 63) :
    ((min (hexValue c.digits) (2 ^ 63 - 1) : Nat) : Int) = c.data.length := by
  rw [hc.size, Nat.min_eq_left (by omega)]

/-- One turn of the loop, behind the size line of a chunk. -/
theorem unchunk_size (hc : c.Ok) (hlong : c.data.length < 2 ^ 63) (n : Nat) (out p : Bytes) :
    unchunk beyond cap (n + 1) out (c.sizeLine ++ p) =
      if p.length < c.data.length then .returned out
      else if cap ≤ out.length + c.data.length then .failed (lit "body too large")
      else
        unchunk beyond cap n (out ++ p.take c.data.length)
          (if (p.drop c.data.length).take 2 = crlf then (p.drop c.data.length).drop 2
            else p.drop c.data.length) := by
  obtain ⟨hfind, hdrop, hvalue⟩ := size_line hc.digits_ne hc.digits hc.ext p beyond
  have hpos := hc.length_pos
  rw [chunk_size hc hlong] at hvalue
  rw [unchunk, Chunk.sizeLine, hfind]
  dsimp only
  rw [hdrop, hvalue, if_neg (by omega), Int.toNat_natCast]
  simp only [Int.ofNat_lt]

/-- A whole chunk is copied, if there is room. -/
theorem unchunk_chunk (hc : c.Ok) (hlong : c.data.length < 2 ^ 63) (n : Nat) (out rest : Bytes) :
    unchunk beyond cap (n + 1) out (c.bytes ++ rest) =
      if cap ≤ out.length + c.data.length then .failed (lit "body too large")
      else unchunk beyond cap n (out ++ c.data) rest := by
  have hbytes : c.bytes ++ rest = c.sizeLine ++ (c.data ++ (crlf ++ rest)) := by
    rw [Chunk.bytes]
    simp only [List.append_assoc]
  have htake : (crlf ++ rest).take 2 = crlf := rfl
  have hdrop : (crlf ++ rest).drop 2 = rest := rfl
  rw [hbytes, unchunk_size hc hlong, if_neg (by rw [List.length_append]; omega), List.take_left,
    List.drop_left, htake, if_pos rfl, hdrop]

/-- The loop ends at the chunk of size zero. -/
theorem unchunk_last {zeros ext : Bytes} (hne : zeros ≠ []) (hzeros : ∀ c ∈ zeros, c = 48)
    (hext : ChunkExt ext) (n : Nat) (out rest : Bytes) :
    unchunk beyond cap n out (zeros ++ ext ++ crlf ++ rest) = .returned out := by
  cases n with
  | zero => rfl
  | succ n =>
      have hdigits : ∀ d ∈ zeros, (hexVal d).isSome := by
        intro d hd
        rw [hzeros d hd]
        decide
      have hzero : hexValue zeros = 0 := by
        rw [List.eq_replicate_of_mem hzeros, hexValue]
        induction zeros.length with
        | zero => rfl
        | succ k ih => rw [List.replicate_succ, List.foldl_cons]; exact ih
      obtain ⟨hfind, -, hvalue⟩ := size_line hne hdigits hext rest beyond
      rw [unchunk, hfind]
      dsimp only
      rw [hvalue, hzero, if_pos (by decide)]

/-- Without a line end the loop ends. -/
theorem unchunk_noLf {s : Bytes} (hs : chLf ∉ s) (n : Nat) (out : Bytes) :
    unchunk beyond cap n out s = .returned out := by
  cases n with
  | zero => rfl
  | succ n =>
      have hnone : memchr s chLf = none := by
        rw [memchr, List.findIdx?_eq_none_iff]
        exact fun x hx => beq_false_of_ne fun h => hs (h ▸ hx)
      rw [unchunk, hnone]

/-- The data of the chunks that are there as a whole when the response is cut
    off `m` bytes behind its head; the line end behind the data may be missing. -/
def deliveredChunks : List Chunk → Nat → Bytes
  | [], _ => []
  | c :: cs, m =>
      if c.sizeLine.length + c.data.length ≤ m then
        c.data ++ deliveredChunks cs (m - c.bytes.length)
      else []

/-- Room for the data of all chunks, and sizes that fit a `long`. -/
def ChunksFit (cap : Nat) (out : Bytes) (cs : List Chunk) : Prop :=
  out.length + (cs.flatMap Chunk.data).length < cap ∧ ∀ c ∈ cs, c.data.length < 2 ^ 63

theorem ChunksFit.tail {out : Bytes} {cs : List Chunk} (h : ChunksFit cap out (c :: cs)) :
    ChunksFit cap (out ++ c.data) cs := by
  obtain ⟨hroom, hlong⟩ := h
  rw [List.flatMap_cons, List.length_append] at hroom
  refine ⟨?_, fun d hd => hlong d (List.mem_cons_of_mem c hd)⟩
  rw [List.length_append]
  omega

theorem ChunksFit.room {out : Bytes} {cs : List Chunk} (h : ChunksFit cap out (c :: cs)) :
    ¬ cap ≤ out.length + c.data.length := by
  obtain ⟨hroom, -⟩ := h
  rw [List.flatMap_cons, List.length_append] at hroom
  omega

/-- All chunks, and what follows them. -/
theorem unchunk_chunks {cs : List Chunk} (hcs : ∀ c ∈ cs, c.Ok) :
    ∀ {n : Nat} {out : Bytes}, ChunksFit cap out cs → ∀ rest : Bytes,
      unchunk beyond cap (n + cs.length) out (cs.flatMap Chunk.bytes ++ rest) =
        unchunk beyond cap n (out ++ cs.flatMap Chunk.data) rest := by
  induction cs with
  | nil =>
      intro n out _ rest
      rw [List.flatMap_nil, List.flatMap_nil, List.append_nil]
      rfl
  | cons c cs ih =>
      intro n out hfit rest
      rw [List.length_cons, ← Nat.add_assoc, List.flatMap_cons, List.append_assoc,
        unchunk_chunk (hcs c List.mem_cons_self) (hfit.2 c List.mem_cons_self),
        if_neg hfit.room, ih (fun d hd => hcs d (List.mem_cons_of_mem c hd)) hfit.tail,
        List.flatMap_cons, List.append_assoc]

/-- A line that was cut off in front of its line end has none. -/
theorem noLf_take_line {front : Bytes} (hfront : chLf ∉ front) {m : Nat}
    (hm : m < (front ++ crlf).length) : chLf ∉ (front ++ crlf).take m := by
  intro hmem
  have hline : front ++ crlf = front ++ [chCr] ++ [chLf] := by rw [List.append_assoc]; rfl
  rw [hline, List.length_append, List.length_singleton] at hm
  rw [hline, List.take_append_of_le_length (by omega)] at hmem
  obtain hmem | hmem := List.mem_append.mp (List.mem_of_mem_take hmem)
  · exact hfront hmem
  · exact absurd (List.mem_singleton.mp hmem) (by decide)

theorem noLf_size {digits ext : Bytes} (hdigits : ∀ d ∈ digits, (hexVal d).isSome)
    (hext : ChunkExt ext) : chLf ∉ digits ++ ext := by
  intro hmem
  obtain hmem | hmem := List.mem_append.mp hmem
  · exact ne_of_isSome (hdigits chLf hmem) (x := chLf) (by decide) rfl
  · exact hext.1 hmem

/-- The end of a cut: a size line that has no line end yet, data that is not
    all there, or a chunk without the end of its last line. -/
theorem unchunk_cut_chunk (hc : c.Ok) (hlong : c.data.length < 2 ^ 63) {n m : Nat} {out : Bytes}
    (hroom : ¬ cap ≤ out.length + c.data.length) (hm : m < c.bytes.length) (hn : m ≤ n) :
    unchunk beyond cap n out (c.bytes.take m) =
      .returned (if c.sizeLine.length + c.data.length ≤ m then out ++ c.data else out) := by
  have hbytes : c.bytes = c.sizeLine ++ (c.data ++ crlf) := by rw [Chunk.bytes, List.append_assoc]
  have hpos := hc.length_pos
  by_cases hline : m < c.sizeLine.length
  · rw [if_neg (by omega), hbytes, List.take_append_of_le_length hline.le]
    exact unchunk_noLf (noLf_take_line (noLf_size hc.digits hc.ext) hline) n out
  obtain ⟨k, rfl⟩ := Nat.exists_eq_add_of_le (Nat.not_lt.mp hline)
  obtain ⟨n, rfl⟩ : ∃ n', n = n' + 1 := by
    have hsize := List.length_pos_of_ne_nil hc.digits_ne
    refine ⟨n - 1, ?_⟩
    rw [Chunk.sizeLine, List.length_append, List.length_append] at hn
    omega
  rw [Chunk.length_bytes] at hm
  have hlen : ((c.data ++ crlf).take k).length = k := by
    rw [List.length_take, List.length_append, show crlf.length = 2 from rfl]
    omega
  rw [hbytes, List.take_length_add_append, unchunk_size hc hlong, hlen]
  by_cases hdata : k < c.data.length
  · rw [if_pos hdata, if_neg (by omega)]
  obtain ⟨j, rfl⟩ := Nat.exists_eq_add_of_le (Nat.not_lt.mp hdata)
  have hj : j < ([] ++ crlf : Bytes).length := by
    show j < 2
    omega
  have hend : chLf ∉ crlf.take j := noLf_take_line List.not_mem_nil hj
  have hshort : (crlf.take j).take 2 ≠ crlf := by
    intro h
    have hmem : chLf ∈ (crlf.take j).take 2 := by
      rw [h]
      decide
    exact hend (List.mem_of_mem_take hmem)
  have htake : ((c.data ++ crlf).take (c.data.length + j)).take c.data.length = c.data := by
    rw [List.take_length_add_append, List.take_left]
  have hdrop : ((c.data ++ crlf).take (c.data.length + j)).drop c.data.length = crlf.take j := by
    rw [List.take_length_add_append, List.drop_left]
  rw [if_neg hdata, if_neg hroom, htake, hdrop, if_neg hshort, unchunk_noLf hend,
    if_pos (Nat.add_le_add_left (Nat.le_add_right _ j) _)]

theorem deliveredChunks_zero {cs : List Chunk} (hcs : ∀ c ∈ cs, c.Ok) : deliveredChunks cs 0 = [] := by
  cases cs with
  | nil => rfl
  | cons c cs =>
      have hpos := (hcs c List.mem_cons_self).length_pos
      rw [deliveredChunks, if_neg (by omega)]

/-- A chunked body that was cut off in front of the end of its last size line. -/
theorem unchunk_cut {cs : List Chunk} (hcs : ∀ c ∈ cs, c.Ok) {zeros ext : Bytes}
    (hzeros : ∀ c ∈ zeros, c = 48) (hext : ChunkExt ext) :
    ∀ {n m : Nat} {out : Bytes}, ChunksFit cap out cs → m ≤ n →
      m < (cs.flatMap Chunk.bytes ++ (zeros ++ ext ++ crlf)).length →
        unchunk beyond cap n out ((cs.flatMap Chunk.bytes ++ (zeros ++ ext ++ crlf)).take m) =
          .returned (out ++ deliveredChunks cs m) := by
  induction cs with
  | nil =>
      intro n m out _ _ hm
      rw [List.flatMap_nil, List.nil_append] at hm ⊢
      rw [deliveredChunks, List.append_nil]
      refine unchunk_noLf (noLf_take_line (noLf_size (fun d hd => ?_) hext) hm) n out
      rw [hzeros d hd]
      decide
  | cons c cs ih =>
      intro n m out hfit hn hm
      have hc := hcs c List.mem_cons_self
      have hlong := hfit.2 c List.mem_cons_self
      have hcs' : ∀ d ∈ cs, d.Ok := fun d hd => hcs d (List.mem_cons_of_mem c hd)
      have hlength := Chunk.length_bytes c
      rw [List.flatMap_cons, List.append_assoc] at hm ⊢
      rw [deliveredChunks]
      by_cases hcut : m < c.bytes.length
      · rw [List.take_append_of_le_length hcut.le, unchunk_cut_chunk hc hlong hfit.room hcut hn,
          Nat.sub_eq_zero_of_le hcut.le, deliveredChunks_zero hcs']
        split
        · rw [List.append_nil]
        · rw [List.append_nil]
      · obtain ⟨k, rfl⟩ := Nat.exists_eq_add_of_le (Nat.not_lt.mp hcut)
        obtain ⟨n, rfl⟩ : ∃ n', n = n' + 1 := ⟨n - 1, by omega⟩
        rw [List.length_append] at hm
        rw [List.take_length_add_append, unchunk_chunk hc hlong, if_neg hfit.room,
          ih hcs' hfit.tail (by omega) (by omega), if_pos (by omega), Nat.add_sub_cancel_left,
          List.append_assoc]

-- ============================================================================
-- The head
-- ============================================================================

/-- The word occurs, with something behind it. -/
theorem mentionsChunked_iff {head : Bytes} : mentionsChunked head = true ↔
    ∃ a t b, head = a ++ t ++ b ∧ t.length = 7 ∧ islabelEq t (lit "chunked") = true ∧ b ≠ [] := by
  rw [mentionsChunked, List.any_eq_true]
  constructor
  · rintro ⟨i, -, h⟩
    obtain ⟨hi, hword⟩ := Bool.and_eq_true_iff.mp h
    have hi := of_decide_eq_true hi
    refine ⟨head.take i, (head.drop i).take 7, (head.drop i).drop 7, ?_, ?_, hword, ?_⟩
    · rw [List.append_assoc, List.take_append_drop, List.take_append_drop]
    · rw [List.length_take, List.length_drop]
      omega
    · intro hnil
      have hlen := congrArg List.length hnil
      rw [List.length_drop, List.length_drop, List.length_nil] at hlen
      omega
  · rintro ⟨a, t, b, rfl, ht, hword, hb⟩
    have hpos := List.length_pos_of_ne_nil hb
    have hlen : (a ++ t ++ b).length = a.length + 7 + b.length := by
      rw [List.length_append, List.length_append, ht]
    refine ⟨a.length, List.mem_range.mpr (by omega), Bool.and_eq_true_iff.mpr
      ⟨decide_eq_true (by omega), ?_⟩⟩
    rw [List.append_assoc, List.drop_left, ← ht, List.take_left]
    exact hword

theorem length_of_islabelEq {a b : Bytes} (h : islabelEq a b = true) : a.length = b.length := by
  have hmap := congrArg List.length (beq_iff_eq.mp h)
  rwa [List.length_map, List.length_map] at hmap

theorem ntcSliceTrim_within (s : Bytes) : ntcSliceTrim s <:+: s := by
  rw [ntcSliceTrim]
  have hback : ((s.dropWhile isSpace).reverse.dropWhile isSpace).reverse <+: s.dropWhile isSpace := by
    rw [← List.reverse_suffix, List.reverse_reverse]
    exact List.dropWhile_suffix _
  exact hback.isInfix.trans (List.dropWhile_suffix _).isInfix

theorem HttpField.lastCoding_infix (f : HttpField) : f.lastCoding <:+: f.value := by
  have htail : (f.value.reverse.takeWhile (· ≠ chComma)).reverse <:+ f.value := by
    rw [← List.reverse_prefix, List.reverse_reverse]
    exact List.takeWhile_prefix _
  exact (ntcSliceTrim_within _).trans htail.isInfix

namespace OkHead

variable {h : OkHead}

theorem length_bytes : h.bytes.length = (crlf.intercalate h.lines).length + 4 := by
  rw [bytes, lines, ← intercalate_crlf, List.length_append, List.length_append]
  rfl

/-- The head ends where the code takes it to end. -/
theorem findEoh_bytes (hok : h.Ok) (rest : Bytes) :
    findEoh (h.bytes ++ rest) = some (h.bytes.length - 4) := by
  rw [length_bytes, bytes, List.append_assoc, lines,
    findEoh_unlines rest h.statusLine _ hok.lines hok.fields, Nat.add_sub_cancel]

/-- A head that was cut off has no end. -/
theorem findEoh_cut (hok : h.Ok) {n : Nat} (hn : n < h.bytes.length) :
    findEoh (h.bytes.take n) = none := by
  cases hfind : findEoh (h.bytes.take n) with
  | none => rfl
  | some j =>
      have hwhole := findEoh_bytes hok []
      rw [List.append_nil] at hwhole
      obtain ⟨-, hfirst⟩ := findEoh_iff.mp hwhole
      obtain ⟨hat, -⟩ := findEoh_iff.mp hfind
      have hlen := hat.length_le
      rw [List.length_drop, List.length_take, show (crlf ++ crlf).length = 4 from rfl] at hlen
      refine absurd (hat.trans ?_) (hfirst j (by omega))
      rw [List.drop_take]
      exact List.take_prefix _ _

theorem length_statusLine : 12 ≤ h.statusLine.length := by
  rw [statusLine, List.length_append]
  exact Nat.le_add_right 12 h.reason.length

theorem bytes_prefix : ∃ rest, h.bytes = h.statusLine ++ (crlf ++ rest) :=
  ⟨unlines h.fields ++ crlf, by
    rw [bytes, lines, unlines, List.flatMap_cons, ← unlines]
    simp only [List.append_assoc]⟩

/-- The status is read as 200. -/
theorem atoi_status (hreason : ∀ c ∈ h.reason.head?, c = chSpace) (rest : Bytes) :
    atoi ((h.statusLine ++ (crlf ++ rest)).drop 9) = 200 := by
  have hdrop : (h.statusLine ++ (crlf ++ rest)).drop 9 =
      lit "200" ++ (h.reason ++ (crlf ++ rest)) := by
    rw [statusLine]
    simp only [List.append_assoc, List.cons_append]
    rfl
  have hstop : ∀ c ∈ (h.reason ++ (crlf ++ rest)).head?,
      ((48 : UInt8) ≤ c && c ≤ 57) = false := by
    intro c hc
    cases hcases : h.reason with
    | nil =>
        rw [hcases] at hc
        obtain rfl : chCr = c := Option.some.inj hc
        decide
    | cons d reason =>
        rw [hcases] at hc
        obtain rfl : d = c := Option.some.inj hc
        rw [hreason d (by rw [hcases]; rfl)]
        decide
  rw [hdrop]
  generalize h.reason ++ (crlf ++ rest) = tail at hstop
  have hdigits : (lit "200" ++ tail).takeWhile (fun c => (48 : UInt8) ≤ c && c ≤ 57) = lit "200" := by
    rw [List.takeWhile_append_of_pos (List.all_eq_true.mp (by decide))]
    cases tail with
    | nil => rfl
    | cons c tail => rw [List.takeWhile_cons_of_neg (by rw [hstop c rfl]; decide), List.append_nil]
  show atoiDigits (lit "200" ++ tail) = 200
  rw [atoiDigits, hdigits]
  decide

/-- What begins with a status line, up to the end of a head and behind it. -/
theorem extractBody_status (hreason : ∀ c ∈ h.reason.head?, c = chSpace) {rest : Bytes} {i : Nat}
    (hend : findEoh (h.statusLine ++ (crlf ++ rest)) = some i) (beyond : Bytes) (cap : Nat) :
    extractBody beyond (h.statusLine ++ (crlf ++ rest)) cap =
      if !mentionsChunked ((h.statusLine ++ (crlf ++ rest)).take (i + 4)) then
        if cap ≤ ((h.statusLine ++ (crlf ++ rest)).drop (i + 4)).length then
          .failed (lit "body too large")
        else .returned ((h.statusLine ++ (crlf ++ rest)).drop (i + 4))
      else unchunk beyond cap ((h.statusLine ++ (crlf ++ rest)).drop (i + 4)).length []
        ((h.statusLine ++ (crlf ++ rest)).drop (i + 4)) := by
  have hseven : (h.statusLine ++ (crlf ++ rest)).take 7 = lit "HTTP/1." := by
    rw [statusLine]
    simp only [List.append_assoc, List.cons_append]
    exact List.take_left' rfl
  have hstart : ¬((h.statusLine ++ (crlf ++ rest)).length < 12 ∨
      (h.statusLine ++ (crlf ++ rest)).take 7 ≠ lit "HTTP/1.") := by
    rintro (hshort | hprefix)
    · have hlen := length_statusLine (h := h)
      rw [List.length_append] at hshort
      omega
    · exact hprefix hseven
  have hatoi : atoi ((h.statusLine ++ (crlf ++ rest) ++ beyond).drop 9) = 200 := by
    rw [List.append_assoc, List.append_assoc]
    exact atoi_status hreason _
  rw [extractBody, if_neg hstart, hend]
  dsimp only
  rw [hatoi, if_neg (fun hne => hne rfl)]

/-- A response that is there up to some place behind its head. -/
theorem Ok.extractBody_behind_head (hok : h.Ok) (beyond rest : Bytes) (cap : Nat) :
    extractBody beyond (h.bytes ++ rest) cap =
      if !mentionsChunked h.bytes then
        if cap ≤ rest.length then .failed (lit "body too large") else .returned rest
      else unchunk beyond cap rest.length [] rest := by
  obtain ⟨more, hmore⟩ := bytes_prefix (h := h)
  have hsplit : h.bytes ++ rest = h.statusLine ++ (crlf ++ (more ++ rest)) := by
    rw [hmore, List.append_assoc, List.append_assoc]
  have hfour : h.bytes.length - 4 + 4 = h.bytes.length := by
    have hlen := length_bytes (h := h)
    omega
  have hend := findEoh_bytes hok rest
  rw [hsplit] at hend
  rw [hsplit, extractBody_status hok.reason hend, ← hsplit, hfour, List.take_left, List.drop_left]

/-- A response that was cut off in its head is reported. -/
theorem Ok.extractBody_in_head (hok : h.Ok) (beyond : Bytes) (cap : Nat) {n : Nat}
    (hn : n < h.bytes.length) : ∃ err, extractBody beyond (h.bytes.take n) cap = .failed err := by
  rw [extractBody]
  split
  · exact ⟨_, rfl⟩
  · rw [findEoh_cut hok hn]
    exact ⟨_, rfl⟩

end OkHead

namespace RawResponse

variable {r : RawResponse}

/-- A header that says so mentions the word. -/
theorem mentions_of_chunked (h : ∃ f ∈ r.fields, f.IsChunked) : mentionsChunked r.head = true := by
  obtain ⟨f, hf, -, hcoding⟩ := h
  obtain ⟨x, y, hvalue⟩ := f.lastCoding_infix
  have hline : f.line ∈ r.top.lines := List.mem_cons_of_mem _ (List.mem_map_of_mem hf)
  obtain ⟨before, after, hlines⟩ := List.append_of_mem hline
  refine mentionsChunked_iff.mpr ⟨unlines before ++ f.name ++ chColon :: x, f.lastCoding,
    y ++ crlf ++ unlines after ++ crlf, ?_, length_of_islabelEq hcoding, hcoding, by simp [crlf]⟩
  rw [head, OkHead.bytes, hlines, unlines, List.flatMap_append, List.flatMap_cons, HttpField.line,
    ← hvalue]
  simp only [unlines, List.append_assoc, List.cons_append]

theorem Ok.top (h : r.Ok) : r.top.Ok := by
  refine ⟨h.lines, fun l hl => ?_, h.reason⟩
  obtain ⟨f, -, rfl⟩ := List.mem_map.mp hl
  simp [HttpField.line]

theorem extractBody_behind_head (h : r.Ok) (beyond rest : Bytes) (cap : Nat) :
    extractBody beyond (r.head ++ rest) cap =
      if !mentionsChunked r.head then
        if cap ≤ rest.length then .failed (lit "body too large") else .returned rest
      else unchunk beyond cap rest.length [] rest :=
  h.top.extractBody_behind_head beyond rest cap

theorem extractBody_in_head (h : r.Ok) (beyond : Bytes) (cap : Nat) {n : Nat}
    (hn : n < r.head.length) : ∃ err, extractBody beyond (r.head.take n) cap = .failed err :=
  h.top.extractBody_in_head beyond cap hn

end RawResponse

-- ============================================================================
-- What is returned
-- ============================================================================

/-- The loop returns less than it was given: a size line is not copied. -/
theorem unchunk_shorter : ∀ {n : Nat} {out s out' : Bytes},
    unchunk beyond cap n out s = .returned out' →
      out'.length ≤ out.length + s.length ∧ (s ≠ [] → out'.length < out.length + s.length) := by
  intro n
  induction n with
  | zero =>
      intro out s out' h
      obtain rfl := Extracted.returned.inj h
      exact ⟨Nat.le_add_right _ _, fun hs => Nat.lt_add_of_pos_right (List.length_pos_of_ne_nil hs)⟩
  | succ n ih =>
      intro out s out' h
      have hsame (hout : out = out') : out'.length ≤ out.length + s.length ∧
          (s ≠ [] → out'.length < out.length + s.length) := by
        subst hout
        exact ⟨Nat.le_add_right _ _,
          fun hs => Nat.lt_add_of_pos_right (List.length_pos_of_ne_nil hs)⟩
      rw [unchunk] at h
      split at h
      · exact hsame (Extracted.returned.inj h)
      next eol hfind =>
        obtain ⟨a, b, hs, -, hlen⟩ := memchr_split hfind
        have hdrop : s.drop (eol + 1) = b := by
          rw [hs, ← hlen, ← List.drop_drop, List.drop_left]
          rfl
        have hlength : s.length = eol + 1 + b.length := by
          rw [hs, List.length_append, List.length_cons, hlen]
          omega
        dsimp only at h
        rw [hdrop] at h
        split at h
        · exact hsame (Extracted.returned.inj h)
        split at h
        · exact hsame (Extracted.returned.inj h)
        split at h
        · exact Extracted.noConfusion h
        · obtain ⟨hle, -⟩ := ih h
          have hrest : (if (b.drop (strtolHex (s ++ beyond)).toNat).take 2 = crlf then
              (b.drop (strtolHex (s ++ beyond)).toNat).drop 2
              else b.drop (strtolHex (s ++ beyond)).toNat).length ≤
                b.length - (strtolHex (s ++ beyond)).toNat := by
            split
            · rw [List.length_drop, List.length_drop]
              exact Nat.sub_le _ 2
            · exact (List.length_drop ..).le
          rw [List.length_append, List.length_take] at hle
          have hlt : out'.length < out.length + s.length := by omega
          exact ⟨hlt.le, fun _ => hlt⟩

/-- The body is in the buffer, and its length is the result. -/
def Extracted.Returns (x : Extracted) (body : Bytes) : Prop :=
  x = .returned body ∧ x.ret = body.length

/-- The result is negative. -/
def Extracted.Fails (x : Extracted) : Prop := x.ret < 0

instance (x : Extracted) (body : Bytes) : Decidable (x.Returns body) :=
  inferInstanceAs (Decidable (_ ∧ _))

instance (x : Extracted) : Decidable x.Fails := inferInstanceAs (Decidable (_ < _))

/-- A length is its own `int` below 2^31 only. -/
theorem toCInt_eq_iff (n : Nat) : toCInt n = n ↔ n < 2 ^ 31 := by
  refine ⟨fun h => ?_, toCInt_of_lt⟩
  rw [toCInt] at h
  split at h
  · omega
  · omega

theorem returns_returned_iff {out body : Bytes} :
    (Extracted.returned out).Returns body ↔ out = body ∧ body.length < 2 ^ 31 := by
  constructor
  · rintro ⟨heq, hret⟩
    obtain rfl := Extracted.returned.inj heq
    exact ⟨rfl, (toCInt_eq_iff _).mp hret⟩
  · rintro ⟨rfl, hlt⟩
    exact ⟨rfl, toCInt_of_lt hlt⟩

theorem fails_returned_iff {out : Bytes} :
    (Extracted.returned out).Fails ↔ 2 ^ 31 ≤ out.length % 2 ^ 32 := by
  rw [Extracted.Fails, ← not_le, Extracted.ret, toCInt_nonneg_iff, Nat.not_lt]

theorem fails_failed (err : Bytes) : (Extracted.failed err).Fails := by
  rw [Extracted.Fails, Extracted.ret]
  omega

namespace Payload

/-- What is copied of a body that was cut off after `m` bytes. -/
def delivered : Payload → Nat → Bytes
  | .plain body, m => body.take m
  | .chunks cs _ _ _, m => deliveredChunks cs m

end Payload

namespace RawResponse

variable {r : RawResponse}

/-- A plain body: the word in the head makes the code look for chunks in it. -/
theorem extractBody_plain (h : r.Ok) {body : Bytes} (hplain : r.payload = .plain body)
    (beyond : Bytes) {cap : Nat} (hcap : body.length < cap) :
    (extractBody beyond r.raw cap).Returns body ↔
      body.length < 2 ^ 31 ∧ (mentionsChunked r.head = true → body = []) := by
  rw [raw, hplain, Payload.bytes, extractBody_behind_head h]
  cases hword : mentionsChunked r.head with
  | false =>
      rw [Bool.not_false, if_pos rfl, if_neg (by omega), returns_returned_iff]
      exact ⟨fun hret => ⟨hret.2, fun hf => absurd hf Bool.false_ne_true⟩, fun hret => ⟨rfl, hret.1⟩⟩
  | true =>
      rw [Bool.not_true, if_neg Bool.false_ne_true]
      constructor
      · intro hret
        obtain ⟨heq, hint⟩ := hret
        rw [heq] at hint
        refine ⟨(toCInt_eq_iff _).mp hint, fun _ => ?_⟩
        by_contra hne
        have hlt := (unchunk_shorter heq).2 hne
        rw [List.length_nil, Nat.zero_add] at hlt
        exact Nat.lt_irrefl _ hlt
      · rintro ⟨-, hnil⟩
        obtain rfl := hnil rfl
        exact ⟨rfl, rfl⟩

variable {cs : List Chunk} {zeros ext trailer : Bytes}

/-- The chunks of a response fit the buffer and a `long`. -/
theorem chunksFit (hchunks : r.payload = .chunks cs zeros ext trailer) {cap : Nat}
    (hcap : r.body.length < cap) (hsize : r.raw.length < 2 ^ 63) : ChunksFit cap [] cs := by
  rw [body, hchunks, Payload.body] at hcap
  refine ⟨by rwa [List.length_nil, Nat.zero_add], fun c hc => ?_⟩
  have hin : c.data <:+: r.raw := by
    obtain ⟨before, after, rfl⟩ := List.append_of_mem hc
    rw [raw, hchunks, Payload.bytes, List.flatMap_append, List.flatMap_cons, Chunk.bytes]
    exact ⟨r.head ++ before.flatMap Chunk.bytes ++ c.sizeLine,
      crlf ++ after.flatMap Chunk.bytes ++ (zeros ++ ext ++ crlf) ++ trailer ++ crlf, by
        simp only [List.append_assoc]⟩
  exact hin.length_le.trans_lt hsize

/-- A chunk takes more than a byte. -/
theorem length_le_flatMap_bytes (cs : List Chunk) : cs.length ≤ (cs.flatMap Chunk.bytes).length := by
  induction cs with
  | nil => exact le_rfl
  | cons c cs ih =>
      have hlen := Chunk.length_bytes c
      rw [List.flatMap_cons, List.length_append, List.length_cons]
      omega

/-- A body in chunks that is complete. -/
theorem extractBody_chunks (h : r.Ok) (hchunks : r.payload = .chunks cs zeros ext trailer)
    (beyond : Bytes) {cap : Nat} (hcap : r.body.length < cap) (hsize : r.raw.length < 2 ^ 63) :
    extractBody beyond r.raw cap = .returned r.body := by
  have hword := mentions_of_chunked (h.framing.mp (by rw [hchunks]; trivial))
  have hfit := chunksFit hchunks hcap hsize
  obtain ⟨hcs, hne, hzeros, hext⟩ : (∀ c ∈ cs, c.Ok) ∧ zeros ≠ [] ∧ (∀ c ∈ zeros, c = 48) ∧
      ChunkExt ext := by
    have hok := h.payload
    rwa [hchunks] at hok
  have hbytes : r.payload.bytes =
      cs.flatMap Chunk.bytes ++ (zeros ++ ext ++ crlf ++ (trailer ++ crlf)) := by
    rw [hchunks, Payload.bytes]
    simp only [List.append_assoc]
  obtain ⟨n, hn⟩ : ∃ n, r.payload.bytes.length = n + cs.length := by
    have hle := length_le_flatMap_bytes cs
    refine ⟨r.payload.bytes.length - cs.length, ?_⟩
    rw [hbytes, List.length_append]
    omega
  rw [raw, extractBody_behind_head h, hword, Bool.not_true, if_neg Bool.false_ne_true, hn, hbytes,
    unchunk_chunks hcs hfit, unchunk_last hne hzeros hext, List.nil_append, body, hchunks]
  rfl

/-- One that was cut off behind the head and in front of the end of its last
    size line. -/
theorem extractBody_cut (h : r.Ok) (hchunks : r.payload = .chunks cs zeros ext trailer)
    (beyond : Bytes) {cap m : Nat} (hcap : r.body.length < cap) (hsize : r.raw.length < 2 ^ 63)
    (hm : m < r.payload.announced.length) :
    extractBody beyond (r.raw.take (r.head.length + m)) cap = .returned (r.payload.delivered m) := by
  have hword := mentions_of_chunked (h.framing.mp (by rw [hchunks]; trivial))
  have hfit := chunksFit hchunks hcap hsize
  obtain ⟨hcs, -, hzeros, hext⟩ : (∀ c ∈ cs, c.Ok) ∧ zeros ≠ [] ∧ (∀ c ∈ zeros, c = 48) ∧
      ChunkExt ext := by
    have hok := h.payload
    rwa [hchunks] at hok
  have hbytes : r.payload.bytes = r.payload.announced ++ (trailer ++ crlf) := by
    rw [hchunks, Payload.bytes, Payload.announced]
    simp only [List.append_assoc]
  rw [raw, List.take_length_add_append, extractBody_behind_head h, hword, Bool.not_true,
    if_neg Bool.false_ne_true, hbytes, List.take_append_of_le_length hm.le]
  rw [hchunks, Payload.announced] at hm
  rw [hchunks, Payload.announced, unchunk_cut hcs hzeros hext hfit ?_ hm, List.nil_append,
    Payload.delivered]
  rw [List.length_take]
  omega

end RawResponse

/-- What `extract_body` makes of the responses with status 200, with room for
    the body: a complete one comes out as its body, unless it is plain, not
    empty, and its head uses the word `chunked`; and of those in chunks that
    were cut off, the ones cut off in their head are reported.  Lengths from
    2^31 on are not, or are negative, as an `int`. -/
theorem extractBody_exact_iff (r : RawResponse) (h : r.Ok) (beyond : Bytes) (cap : Nat)
    (hcap : r.body.length < cap) (hsize : r.raw.length < 2 ^ 63) :
    ((extractBody beyond r.raw cap).Returns r.body ↔ r.body.length < 2 ^ 31 ∧
      (mentionsChunked r.head = true → r.payload.Chunked ∨ r.body = [])) ∧
    (r.payload.Chunked → ∀ n < (r.head ++ r.payload.announced).length,
      ((extractBody beyond (r.raw.take n) cap).Fails ↔ n < r.head.length ∨
        2 ^ 31 ≤ (r.payload.delivered (n - r.head.length)).length % 2 ^ 32)) := by
  cases hpayload : r.payload with
  | plain body =>
      refine ⟨?_, fun hc => hc.elim⟩
      have hbody : r.body = body := by rw [RawResponse.body, hpayload]; rfl
      rw [hbody] at hcap ⊢
      rw [RawResponse.extractBody_plain h hpayload beyond hcap]
      exact and_congr_right fun _ => ⟨fun hnil hword => .inr (hnil hword),
        fun hor hword => (hor hword).resolve_left fun hc => hc⟩
  | chunks cs zeros ext trailer =>
      refine ⟨?_, fun _ n hn => ?_⟩
      · rw [RawResponse.extractBody_chunks h hpayload beyond hcap hsize, returns_returned_iff]
        exact ⟨fun hret => ⟨hret.2, fun _ => .inl trivial⟩, fun hret => ⟨rfl, hret.1⟩⟩
      · by_cases hcut : n < r.head.length
        · obtain ⟨err, herr⟩ := RawResponse.extractBody_in_head h beyond cap hcut
          rw [RawResponse.raw, List.take_append_of_le_length hcut.le, herr]
          exact ⟨fun _ => .inl hcut, fun _ => fails_failed err⟩
        · obtain ⟨m, rfl⟩ := Nat.exists_eq_add_of_le (Nat.not_lt.mp hcut)
          rw [List.length_append] at hn
          rw [RawResponse.extractBody_cut h hpayload beyond hcap hsize
            (by rw [hpayload]; omega), fails_returned_iff, Nat.add_sub_cancel_left, hpayload]
          exact ⟨.inr, fun hor => hor.resolve_left hcut⟩

/-- The response of the code's own test. -/
def wikiResponse : RawResponse where
  minor := 49
  reason := lit " OK"
  fields := [⟨lit "Transfer-Encoding", lit " chunked"⟩]
  payload := .chunks [⟨lit "4", [], lit "Wiki"⟩, ⟨lit "5", [], lit "pedia"⟩] (lit "0") [] []

theorem wikiResponse_ok : wikiResponse.Ok := by
  have hchunk {c : Chunk} (hc : c ∈ [⟨lit "4", [], lit "Wiki"⟩, ⟨lit "5", [], lit "pedia"⟩]) :
      c.Ok := by
    obtain rfl | hc := List.mem_cons.mp hc
    · exact ⟨List.all_eq_true.mp (by decide), by decide, by decide, chunkExt_nil⟩
    · obtain rfl := List.mem_singleton.mp hc
      exact ⟨List.all_eq_true.mp (by decide), by decide, by decide, chunkExt_nil⟩
  refine ⟨?_, fun c hc => (Option.some.inj hc).symm, ⟨fun c hc => hchunk hc, by decide,
    fun c hc => List.mem_singleton.mp hc, chunkExt_nil⟩, ?_⟩
  · intro l hl
    apply noCrlf_of_notMem
    obtain rfl | hl := List.mem_cons.mp hl
    · decide
    · obtain rfl := List.mem_singleton.mp hl
      decide
  · exact ⟨fun _ => ⟨_, List.mem_singleton.mpr rfl, by decide⟩, fun _ => trivial⟩

/-- It comes out whole; cut off behind its first chunk it is not reported. -/
theorem extractBody_exact_iff_wiki :
    (extractBody [] wikiResponse.raw 64).Returns (lit "Wikipedia") ∧
      ¬(extractBody [] (wikiResponse.raw.take 56) 64).Fails := by
  obtain ⟨hbody, hcut⟩ := extractBody_exact_iff wikiResponse wikiResponse_ok [] 64 (by decide)
    (by decide)
  refine ⟨hbody.mpr ⟨by decide, fun _ => .inl trivial⟩, fun hfails => ?_⟩
  obtain hhead | hlong := (hcut trivial 56 (by decide)).mp hfails
  · exact absurd hhead (by decide)
  · exact absurd hlong (by decide)

/-- A plain response with a header that uses the word. -/
def notedResponse : RawResponse where
  minor := 49
  reason := lit " OK"
  fields := [⟨lit "X-Note", lit " not chunked"⟩]
  payload := .plain (lit "hello")

/-- Its body is taken for chunks, and nothing comes out. -/
theorem extractBody_noted :
    ¬(extractBody [] notedResponse.raw 64).Returns notedResponse.body ∧
      notedResponse.raw = lit "HTTP/1.1 200 OK\r\nX-Note: not chunked\r\n\r\nhello" ∧
      extractBody [] notedResponse.raw 64 = .returned [] := by
  decide +kernel

end Naitron
