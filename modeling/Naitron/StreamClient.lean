/-
  Naitron.StreamClient

  A streamed response of the gateway, read by `extract_body`: the head of
  `ntc_http_format_stream_head`, the chunks of `gw_deliver_chunk` and the end
  of `gw_deliver_end`.

  The size lines are aligned whatever the data contains.  The head is not: the
  content type goes into it as it is, and a blank line in it ends the head.
-/

import Naitron.HttpResponse
import Naitron.HttpsClient

namespace Naitron

-- ============================================================================
-- Chunks
-- ============================================================================

/-- What `gw_deliver_chunk` makes of a payload. -/
def streamChunk (w : Bytes) : Chunk := ⟨hex w.length, [], w⟩

theorem streamChunk_bytes (w : Bytes) : (streamChunk w).bytes = chunkBytes false w := by
  rw [Chunk.bytes, Chunk.sizeLine, streamChunk, List.append_nil]
  rfl

theorem hexValue_append_digit (s : Bytes) (d : UInt8) :
    hexValue (s ++ [d]) = hexValue s * 16 + (hexVal d).getD 0 := by
  rw [hexValue, List.foldl_append]
  rfl

/-- A number is printed in digits, and they have its value. -/
theorem hexValue_hex (n : Nat) : hexValue (hex n) = n ∧ ∀ d ∈ hex n, (hexVal d).isSome := by
  induction n using Nat.strongRecOn with
  | ind n ih =>
      by_cases h : n < 16
      · rw [hex_of_lt h, hexValue, List.foldl_cons, hexVal_hexDigit h]
        refine ⟨Nat.zero_add n, fun d hd => ?_⟩
        rw [List.mem_singleton.mp hd, hexVal_hexDigit h]
        rfl
      · have hdigit : n % 16 < 16 := Nat.mod_lt n (by decide)
        obtain ⟨hvalue, hdigits⟩ := ih (n / 16) (by omega)
        rw [hex_of_le (not_lt.mp h), hexValue_append_digit, hvalue, hexVal_hexDigit hdigit]
        refine ⟨Nat.div_add_mod' n 16, fun d hd => ?_⟩
        obtain hd | hd := List.mem_append.mp hd
        · exact hdigits d hd
        · rw [List.mem_singleton.mp hd, hexVal_hexDigit hdigit]
          rfl

theorem streamChunk_ok {w : Bytes} (hw : w ≠ []) : (streamChunk w).Ok :=
  ⟨(hexValue_hex w.length).2, (hexValue_hex w.length).1, hw, chunkExt_nil⟩

/-- Chunks for which there is no room. -/
theorem unchunk_overflow {beyond : Bytes} {cap : Nat} {cs : List Chunk} (hcs : ∀ c ∈ cs, c.Ok)
    (hlong : ∀ c ∈ cs, c.data.length < 2 ^ 63) :
    ∀ {n : Nat} {out : Bytes}, (out.length < cap ∨ cs ≠ []) →
      cap ≤ out.length + (cs.flatMap Chunk.data).length → cs.length ≤ n → ∀ rest : Bytes,
        unchunk beyond cap n out (cs.flatMap Chunk.bytes ++ rest) =
          .failed (lit "body too large") := by
  induction cs with
  | nil =>
      intro n out hout hcap _ _
      rw [List.flatMap_nil, List.length_nil, Nat.add_zero] at hcap
      obtain hout | hne := hout
      · exact absurd hout (Nat.not_lt.mpr hcap)
      · exact absurd rfl hne
  | cons c cs ih =>
      intro n out _ hcap hn rest
      rw [List.length_cons] at hn
      obtain ⟨n, rfl⟩ : ∃ n', n = n' + 1 := ⟨n - 1, by omega⟩
      rw [List.flatMap_cons, List.append_assoc, unchunk_chunk (hcs c List.mem_cons_self)
        (hlong c List.mem_cons_self)]
      by_cases hroom : cap ≤ out.length + c.data.length
      · rw [if_pos hroom]
      · rw [List.flatMap_cons, List.length_append] at hcap
        rw [if_neg hroom]
        refine ih (fun d hd => hcs d (List.mem_cons_of_mem c hd))
          (fun d hd => hlong d (List.mem_cons_of_mem c hd)) (.inl ?_) ?_ (by omega) rest
        · rw [List.length_append]
          omega
        · rw [List.length_append]
          omega

section Body

variable {ws : List Bytes}

theorem streamBody_eq (ws : List Bytes) :
    streamBody false ws = (ws.map streamChunk).flatMap Chunk.bytes ++ (lit "0" ++ [] ++ crlf ++ crlf) := by
  rw [streamBody, List.flatMap_map]
  simp only [streamChunk_bytes]
  rfl

theorem flatMap_data (ws : List Bytes) : (ws.map streamChunk).flatMap Chunk.data = ws.flatten := by
  rw [List.flatMap_map]
  exact List.flatMap_id'

theorem chunks_le_streamBody (ws : List Bytes) : ws.length ≤ (streamBody false ws).length := by
  have hle := RawResponse.length_le_flatMap_bytes (ws.map streamChunk)
  rw [streamBody_eq, List.length_append]
  rw [List.length_map] at hle
  omega

theorem mem_length_le {w : Bytes} (hw : w ∈ ws) : w.length ≤ (streamBody false ws).length := by
  have hbytes : chunkBytes false w <:+: streamBody false ws := by
    obtain ⟨before, after, rfl⟩ := List.append_of_mem hw
    rw [streamBody, List.flatMap_append, List.flatMap_cons]
    exact ⟨before.flatMap (chunkBytes false), after.flatMap (chunkBytes false) ++ streamEnd false, by
      simp only [List.append_assoc]⟩
  have hdata : w <:+: chunkBytes false w := ⟨hex w.length ++ crlf, crlf, rfl⟩
  exact (hdata.trans hbytes).length_le

/-- The loop over a streamed body. -/
theorem unchunk_streamBody (hws : ∀ w ∈ ws, w ≠ []) (hsize : (streamBody false ws).length < 2 ^ 63)
    (beyond : Bytes) (cap : Nat) :
    unchunk beyond cap (streamBody false ws).length [] (streamBody false ws) =
      if ws.flatten.length < cap ∨ ws = [] then .returned ws.flatten
      else .failed (lit "body too large") := by
  have hcs : ∀ c ∈ ws.map streamChunk, c.Ok := by
    intro c hc
    obtain ⟨w, hw, rfl⟩ := List.mem_map.mp hc
    exact streamChunk_ok (hws w hw)
  have hlong : ∀ c ∈ ws.map streamChunk, c.data.length < 2 ^ 63 := by
    intro c hc
    obtain ⟨w, hw, rfl⟩ := List.mem_map.mp hc
    exact (mem_length_le hw).trans_lt hsize
  have hlast (n : Nat) (out : Bytes) :
      unchunk beyond cap n out (lit "0" ++ [] ++ crlf ++ crlf) = .returned out :=
    unchunk_last (by decide) (fun c hc => List.mem_singleton.mp hc) chunkExt_nil n out crlf
  obtain ⟨n, hn⟩ := Nat.exists_eq_add_of_le' (chunks_le_streamBody ws)
  rw [hn, streamBody_eq]
  have hmap : ws.length = (ws.map streamChunk).length := (List.length_map _).symm
  by_cases hfit : ws.flatten.length < cap
  · have hfits : ChunksFit cap [] (ws.map streamChunk) := by
      refine ⟨?_, hlong⟩
      rwa [flatMap_data, List.length_nil, Nat.zero_add]
    rw [if_pos (.inl hfit), hmap, unchunk_chunks hcs hfits, hlast, flatMap_data, List.nil_append]
  by_cases hnil : ws = []
  · subst hnil
    rw [if_pos (.inr rfl)]
    exact hlast _ []
  · rw [if_neg (by rintro (h | h); exacts [hfit h, hnil h])]
    refine unchunk_overflow hcs hlong (.inr ?_) ?_ (by omega) _
    · rwa [Ne, List.map_eq_nil_iff]
    · rw [flatMap_data, List.length_nil]
      omega

end Body

-- ============================================================================
-- The head
-- ============================================================================

/-- A content type that ends the head: a blank line in it, or one that the line
    end behind it completes. -/
def BlankLine (contentType : Bytes) : Prop := crlf ++ crlf <:+: cstr contentType ++ crlf

/-- Complete header lines. -/
def HeaderLines (extra : Bytes) (ls : List Bytes) : Prop :=
  extra = unlines ls ∧ ∀ l ∈ ls, l ≠ [] ∧ NoCrlf l

theorem unlines_append (xs ys : List Bytes) : unlines (xs ++ ys) = unlines xs ++ unlines ys :=
  List.flatMap_append

theorem unlines_cons (l : Bytes) (ls : List Bytes) : unlines (l :: ls) = l ++ crlf ++ unlines ls :=
  List.flatMap_cons

theorem noCrlf_append {a l : Bytes} (ha : chCr ∉ a) (hl : NoCrlf l) : NoCrlf (a ++ l) := by
  induction a with
  | nil => exact hl
  | cons c a ih =>
      intro hin
      rw [List.cons_append, List.infix_cons_iff] at hin
      obtain hhead | hin := hin
      · exact ha (List.mem_cons.mpr (.inl (List.cons_prefix_cons.mp hhead).1))
      · exact ih (fun hmem => ha (List.mem_cons_of_mem c hmem)) hin

/-- The lines of a content type, and none of them but the first is empty. -/
theorem exists_typeLines {contentType : Bytes} (h : ¬BlankLine contentType) :
    ∃ l ls, cstr contentType ++ crlf = unlines (l :: ls) ∧ (∀ x ∈ l :: ls, NoCrlf x) ∧
      ∀ x ∈ ls, x ≠ [] := by
  obtain ⟨l, ls, htext, hlines⟩ := exists_splitsAtCrlf _ (cstr contentType) le_rfl
  have hunlines : cstr contentType ++ crlf = unlines (l :: ls) := by rw [htext, intercalate_crlf]
  refine ⟨l, ls, hunlines, hlines, ?_⟩
  rintro x hx rfl
  obtain ⟨a, b, rfl⟩ := List.append_of_mem hx
  refine h ?_
  -- an empty line is a CRLF right after the line end before it
  obtain ⟨pre, hpre⟩ : ∃ pre, unlines (l :: a) = pre ++ crlf :=
    ⟨crlf.intercalate (l :: a), (intercalate_crlf l a).symm⟩
  refine ⟨pre, unlines b, ?_⟩
  rw [hunlines, ← List.cons_append, unlines_append, hpre, unlines_cons]
  simp only [List.append_assoc, List.nil_append]

/-- The text of the head up to the content type. -/
def streamTop : OkHead := ⟨49, lit " OK", []⟩

theorem streamHead_eq {contentType extra head : Bytes}
    (hhead : ntcHttpFormatStreamHead 200 contentType false extra = some head) :
    head = streamTop.statusLine ++ (crlf ++ (lit "Server: naitron-c/0.0.1\r\nContent-Type: " ++
      (cstr contentType ++ crlf) ++
        (lit "Transfer-Encoding: chunked\r\nConnection: close\r\n" ++ extra ++ crlf))) := by
  simp only [ntcHttpFormatStreamHead, Bool.false_eq_true, if_false] at hhead
  split at hhead
  · exact absurd hhead.symm (Option.some_ne_none head)
  · rw [← Option.some.inj hhead]
    have hstatus : statusLines 200 ++ lit "Content-Type: " = streamTop.statusLine ++
        (crlf ++ lit "Server: naitron-c/0.0.1\r\nContent-Type: ") := by decide
    have hcoding : lit "Transfer-Encoding: chunked\r\n" ++ lit "Connection: close\r\n" =
        lit "Transfer-Encoding: chunked\r\nConnection: close\r\n" := by decide
    rw [hstatus, ← hcoding]
    simp only [List.append_assoc]

theorem mentions_streamHead {contentType extra head : Bytes}
    (hhead : ntcHttpFormatStreamHead 200 contentType false extra = some head) :
    mentionsChunked head = true := by
  refine mentionsChunked_iff.mpr ⟨streamTop.statusLine ++ (crlf ++
    (lit "Server: naitron-c/0.0.1\r\nContent-Type: " ++ (cstr contentType ++ crlf) ++
      lit "Transfer-Encoding: ")), lit "chunked",
    lit "\r\nConnection: close\r\n" ++ extra ++ crlf, ?_, by decide, by decide, by simp [crlf]⟩
  have hcoding : lit "Transfer-Encoding: chunked\r\nConnection: close\r\n" =
      lit "Transfer-Encoding: " ++ (lit "chunked" ++ lit "\r\nConnection: close\r\n") := by decide
  rw [streamHead_eq hhead, hcoding]
  simp only [List.append_assoc]

/-- The lines of the head, when the content type does not end it. -/
def streamOkHead (l : Bytes) (ls extraLines : List Bytes) : OkHead :=
  ⟨49, lit " OK", lit "Server: naitron-c/0.0.1" :: (lit "Content-Type: " ++ l) ::
    (ls ++ (lit "Transfer-Encoding: chunked" :: lit "Connection: close" :: extraLines))⟩

theorem exists_streamOkHead {contentType extra head : Bytes} {extraLines : List Bytes}
    (hextra : HeaderLines extra extraLines) (hblank : ¬BlankLine contentType)
    (hhead : ntcHttpFormatStreamHead 200 contentType false extra = some head) :
    ∃ h : OkHead, h.Ok ∧ head = h.bytes := by
  obtain ⟨l, ls, htype, hno, hne⟩ := exists_typeLines hblank
  obtain ⟨rfl, hlines⟩ := hextra
  have hreason : ∀ c ∈ (lit " OK").head?, c = chSpace := fun c hc => (Option.some.inj hc).symm
  refine ⟨streamOkHead l ls extraLines, ⟨?_, ?_, hreason⟩, ?_⟩
  · intro x hx
    simp only [streamOkHead, OkHead.lines, OkHead.statusLine, List.mem_cons, List.mem_append] at hx
    obtain rfl | rfl | rfl | hx | rfl | rfl | hx := hx
    · exact noCrlf_of_notMem (by decide)
    · exact noCrlf_of_notMem (by decide)
    · exact noCrlf_append (by decide) (hno l List.mem_cons_self)
    · exact hno x (List.mem_cons_of_mem l hx)
    · exact noCrlf_of_notMem (by decide)
    · exact noCrlf_of_notMem (by decide)
    · exact (hlines x hx).2
  · intro x hx
    simp only [streamOkHead, List.mem_cons, List.mem_append] at hx
    obtain rfl | rfl | hx | rfl | rfl | hx := hx
    · decide
    · exact List.append_ne_nil_of_left_ne_nil (by decide) l
    · exact hne x hx
    · decide
    · decide
    · exact (hlines x hx).1
  · have hserver : lit "Server: naitron-c/0.0.1\r\nContent-Type: " =
        lit "Server: naitron-c/0.0.1" ++ (crlf ++ lit "Content-Type: ") := by decide
    have hcoding : lit "Transfer-Encoding: chunked\r\nConnection: close\r\n" =
        lit "Transfer-Encoding: chunked" ++ (crlf ++ (lit "Connection: close" ++ crlf)) := by decide
    rw [streamHead_eq hhead, htype, hserver, hcoding, OkHead.bytes, OkHead.lines]
    simp only [streamOkHead, unlines_cons, unlines_append, List.append_assoc]
    rfl

/-- What `extract_body` makes of a streamed response whose head ends where it
    should. -/
theorem extractBody_stream {contentType extra head : Bytes} {extraLines ws : List Bytes}
    (hextra : HeaderLines extra extraLines) (hblank : ¬BlankLine contentType)
    (hhead : ntcHttpFormatStreamHead 200 contentType false extra = some head)
    (hws : ∀ w ∈ ws, w ≠ []) (hsize : (head ++ streamBody false ws).length < 2 ^ 63)
    (beyond : Bytes) (cap : Nat) :
    extractBody beyond (head ++ streamBody false ws) cap =
      if ws.flatten.length < cap ∨ ws = [] then .returned ws.flatten
      else .failed (lit "body too large") := by
  obtain ⟨h, hok, rfl⟩ := exists_streamOkHead hextra hblank hhead
  rw [List.length_append] at hsize
  rw [hok.extractBody_behind_head, mentions_streamHead hhead, Bool.not_true,
    if_neg Bool.false_ne_true, unchunk_streamBody hws (by omega)]

-- ============================================================================
-- A number in front of the rest of the head
-- ============================================================================

/-- The rest of the head begins with no blank, no sign and no digit: a number
    that is read in front of it ends there. -/
theorem strtolDigits_stop (u v : Bytes) : strtolDigits (u ++ 84 :: v) = strtolDigits (u ++ [84]) := by
  have hprefix : hexPrefix (u ++ 84 :: v) = hexPrefix (u ++ [84]) := by
    rcases u with _ | ⟨a, _ | ⟨b, _ | ⟨c, u⟩⟩⟩
    · rfl
    · simp [hexPrefix]
    · simp [hexPrefix]
    · simp [hexPrefix]
  have hwhile (w : Bytes) : (w ++ 84 :: v).takeWhile (fun c => (hexVal c).isSome) =
      (w ++ [84]).takeWhile fun c => (hexVal c).isSome := by
    have hstop (v : Bytes) : (84 :: v : Bytes).takeWhile (fun c => (hexVal c).isSome) = [] := rfl
    rw [List.takeWhile_append, List.takeWhile_append, hstop, hstop]
  rw [strtolDigits, strtolDigits, hprefix]
  split
  next h =>
    obtain ⟨w, hw⟩ : ∃ w, ∀ v : Bytes, (u ++ 84 :: v).drop 2 = w ++ 84 :: v := by
      rcases u with _ | ⟨a, _ | ⟨b, u⟩⟩
      · exact absurd h (by decide)
      · simp [hexPrefix] at h
      · exact ⟨u, fun v => rfl⟩
    rw [hw, hw, hwhile]
  · rw [hwhile]

theorem strtolHex_stop (u v : Bytes) : strtolHex (u ++ 84 :: v) = strtolHex (u ++ [84]) := by
  have hspace (v : Bytes) : (u ++ 84 :: v).dropWhile isSpace = u.dropWhile isSpace ++ 84 :: v := by
    rw [List.dropWhile_append]
    split
    next h =>
      rw [List.isEmpty_iff.mp h]
      rfl
    · rfl
  have hdigits := strtolDigits_stop
  rw [strtolHex, strtolHex, hspace, hspace]
  generalize u.dropWhile isSpace = w
  cases w with
  | nil => exact congrArg (fun n : Nat => ((min n (2 ^ 63 - 1) : Nat) : Int)) (hdigits [] v)
  | cons c w =>
      rw [List.cons_append, List.cons_append]
      by_cases hminus : c = 45
      · subst hminus
        exact congrArg (fun n : Nat => -((min n (2 ^ 63) : Nat) : Int)) (hdigits w v)
      by_cases hplus : c = 43
      · subst hplus
        exact congrArg (fun n : Nat => ((min n (2 ^ 63 - 1) : Nat) : Int)) (hdigits w v)
      · split
        next h => exact absurd (List.cons.inj h).1 hminus
        next h => exact absurd (List.cons.inj h).1 hplus
        · split
          next h => exact absurd (List.cons.inj h).1 hminus
          next h => exact absurd (List.cons.inj h).1 hplus
          · exact congrArg (fun n : Nat => ((min n (2 ^ 63 - 1) : Nat) : Int)) (hdigits (c :: w) v)

-- ============================================================================
-- The inverse
-- ============================================================================

/-- The concatenation comes out when it is shorter than the capacity, and a
    failure otherwise. -/
def Inverts (beyond head : Bytes) (ws : List Bytes) (cap : Nat) : Prop :=
  (ws.flatten.length < cap →
      (extractBody beyond (head ++ streamBody false ws) cap).Returns ws.flatten) ∧
    (cap ≤ ws.flatten.length → (extractBody beyond (head ++ streamBody false ws) cap).Fails)

instance (beyond head : Bytes) (ws : List Bytes) (cap : Nat) : Decidable (Inverts beyond head ws cap) :=
  inferInstanceAs (Decidable (_ ∧ _))

variable {contentType extra head : Bytes} {extraLines : List Bytes}

theorem inverts_iff (hextra : HeaderLines extra extraLines) (hblank : ¬BlankLine contentType)
    (hhead : ntcHttpFormatStreamHead 200 contentType false extra = some head) (beyond : Bytes)
    {ws : List Bytes} {cap : Nat} (hws : ∀ w ∈ ws, w ≠ [])
    (hsize : (head ++ streamBody false ws).length < 2 ^ 63) :
    Inverts beyond head ws cap ↔
      (ws.flatten.length < cap → ws.flatten.length < 2 ^ 31) ∧ ¬(cap = 0 ∧ ws = []) := by
  rw [Inverts, extractBody_stream hextra hblank hhead hws hsize]
  by_cases hfit : ws.flatten.length < cap
  · have hcap : ¬(cap = 0 ∧ ws = []) := by
      rintro ⟨rfl, -⟩
      exact Nat.not_lt_zero _ hfit
    rw [if_pos (.inl hfit), returns_returned_iff]
    exact ⟨fun h => ⟨fun _ => (h.1 hfit).2, hcap⟩,
      fun h => ⟨fun _ => ⟨rfl, h.1 hfit⟩, fun hle => absurd hfit (Nat.not_lt.mpr hle)⟩⟩
  have hle := Nat.not_lt.mp hfit
  by_cases hnil : ws = []
  · subst hnil
    obtain rfl : cap = 0 := Nat.le_zero.mp hle
    rw [if_pos (.inr rfl)]
    refine ⟨fun h => ?_, fun h => absurd ⟨rfl, rfl⟩ h.2⟩
    have hfails := fails_returned_iff.mp (h.2 hle)
    rw [List.flatten_nil, List.length_nil] at hfails
    omega
  · rw [if_neg (by rintro (h | h); exacts [hfit h, hnil h])]
    exact ⟨fun _ => ⟨fun h => absurd h hfit, fun h => hnil h.2⟩,
      fun _ => ⟨fun h => absurd h hfit, fun _ => fails_failed _⟩⟩

/-- The end of a head in front of anything. -/
theorem findEoh_front {a : Bytes} {i : Nat} (h : findEoh a = some i) (rest : Bytes) :
    findEoh (a ++ rest) = some i ∧ i + 4 ≤ a.length := by
  obtain ⟨hat, hfirst⟩ := findEoh_iff.mp h
  have hlen : i + 4 ≤ a.length := by
    have hle := hat.length_le
    rw [List.length_drop, show (crlf ++ crlf).length = 4 from rfl] at hle
    omega
  have hdrop {j : Nat} (hj : j ≤ i) : (a ++ rest).drop j = a.drop j ++ rest :=
    List.drop_append_of_le_length (by omega)
  refine ⟨findEoh_iff.mpr ⟨?_, fun j hj hin => hfirst j hj ?_⟩, hlen⟩
  · rw [hdrop le_rfl]
    exact hat.trans (List.prefix_append _ _)
  · rw [hdrop hj.le] at hin
    refine List.prefix_of_prefix_length_le hin (List.prefix_append _ _) ?_
    rw [List.length_drop, show (crlf ++ crlf).length = 4 from rfl]
    omega

/-- What follows the content type, up to its first line end, and the rest. -/
def codingLine : Bytes := lit "Transfer-Encoding: chunked\r\n"

def codingRest (extra : Bytes) (ws : List Bytes) : Bytes :=
  lit "Connection: close\r\n" ++ extra ++ crlf ++ streamBody false ws

/-- Behind a blank line in the content type, the rest of the head is taken for
    the body. -/
theorem extractBody_blank (hblank : BlankLine contentType)
    (hhead : ntcHttpFormatStreamHead 200 contentType false extra = some head) :
    ∃ u : Bytes, ∃ word : Bool, ∀ (beyond : Bytes) (ws : List Bytes) (cap : Nat),
      extractBody beyond (head ++ streamBody false ws) cap =
        if !word then
          if cap ≤ (u ++ codingLine ++ codingRest extra ws).length then .failed (lit "body too large")
          else .returned (u ++ codingLine ++ codingRest extra ws)
        else unchunk beyond cap (u ++ codingLine ++ codingRest extra ws).length []
          (u ++ codingLine ++ codingRest extra ws) := by
  let a := streamTop.statusLine ++ (crlf ++ (lit "Server: naitron-c/0.0.1\r\nContent-Type: " ++
    (cstr contentType ++ crlf)))
  obtain ⟨i, hi⟩ : ∃ i, findEoh a = some i := by
    refine Option.ne_none_iff_exists'.mp fun hnone => findEoh_none_iff.mp hnone ?_
    refine hblank.trans ?_
    exact ⟨streamTop.statusLine ++ (crlf ++ lit "Server: naitron-c/0.0.1\r\nContent-Type: "), [], by
      simp only [a, List.append_assoc, List.append_nil]⟩
  refine ⟨a.drop (i + 4), mentionsChunked (a.take (i + 4)), fun beyond ws cap => ?_⟩
  have hall : head ++ streamBody false ws = a ++ (codingLine ++ codingRest extra ws) := by
    have hcoding : lit "Transfer-Encoding: chunked\r\nConnection: close\r\n" =
        codingLine ++ lit "Connection: close\r\n" := by decide
    rw [streamHead_eq hhead, hcoding, codingRest]
    simp only [a, List.append_assoc]
  obtain ⟨hend, hlen⟩ := findEoh_front hi (codingLine ++ codingRest extra ws)
  have htake : (a ++ (codingLine ++ codingRest extra ws)).take (i + 4) = a.take (i + 4) :=
    List.take_append_of_le_length hlen
  have hdrop : (a ++ (codingLine ++ codingRest extra ws)).drop (i + 4) =
      a.drop (i + 4) ++ codingLine ++ codingRest extra ws := by
    rw [List.drop_append_of_le_length hlen, List.append_assoc]
  have hsplit : a ++ (codingLine ++ codingRest extra ws) = streamTop.statusLine ++ (crlf ++
      (lit "Server: naitron-c/0.0.1\r\nContent-Type: " ++ (cstr contentType ++ crlf) ++
        (codingLine ++ codingRest extra ws))) := by
    simp only [a, List.append_assoc]
  rw [hsplit] at hend
  rw [hall, ← htake, ← hdrop, hsplit]
  exact OkHead.extractBody_status (h := streamTop) (fun c hc => (Option.some.inj hc).symm) hend
    beyond cap

/-- The first size line of such a body, which no payload changes: its number,
    and at least one byte behind it. -/
theorem unchunk_blank (u extra beyond : Bytes) :
    ∃ sz : Int, ∀ ws : List Bytes, ∃ p : Bytes, p ≠ [] ∧ ∀ cap : Nat, ∃ next,
      unchunk beyond cap (u ++ codingLine ++ codingRest extra ws).length []
          (u ++ codingLine ++ codingRest extra ws) =
        if sz ≤ 0 then .returned [] else if (p.length : Int) < sz then .returned []
        else if cap ≤ sz.toNat then .failed (lit "body too large") else next := by
  obtain ⟨eol, hfind⟩ : ∃ eol, memchr (u ++ codingLine) chLf = some eol := by
    refine Option.ne_none_iff_exists'.mp fun hnone => ?_
    rw [memchr, List.findIdx?_eq_none_iff] at hnone
    exact absurd (hnone chLf (List.mem_append.mpr (.inr (by decide)))) (by decide)
  have hlt : eol < (u ++ codingLine).length := (List.findIdx?_eq_some_iff_getElem.mp hfind).1
  refine ⟨strtolHex (u ++ [84]), fun ws =>
    ⟨(u ++ codingLine).drop (eol + 1) ++ codingRest extra ws, ?_, fun cap => ?_⟩⟩
  · exact List.append_ne_nil_of_right_ne_nil _ (by simp [codingRest, crlf])
  obtain ⟨n, hn⟩ : ∃ n, (u ++ codingLine ++ codingRest extra ws).length = n + 1 := by
    refine ⟨(u ++ codingLine ++ codingRest extra ws).length - 1, ?_⟩
    rw [List.length_append]
    omega
  have hall : memchr (u ++ codingLine ++ codingRest extra ws) chLf = some eol := by
    rw [memchr, List.findIdx?_append, ← memchr, hfind]
    rfl
  have hnumber : strtolHex (u ++ codingLine ++ codingRest extra ws ++ beyond) =
      strtolHex (u ++ [84]) := by
    have hword : codingLine = 84 :: codingLine.drop 1 := by decide
    rw [hword, List.append_assoc, List.append_assoc, List.cons_append]
    exact strtolHex_stop u _
  rw [hn, unchunk, hall]
  dsimp only
  rw [hnumber, List.drop_append_of_le_length hlt, List.length_nil, Nat.zero_add]
  exact ⟨_, rfl⟩

/-- A content type with a blank line breaks the empty body, or that of one
    byte. -/
theorem exists_not_inverts (hblank : BlankLine contentType)
    (hhead : ntcHttpFormatStreamHead 200 contentType false extra = some head) (beyond : Bytes) :
    ¬Inverts beyond head [] 1 ∨ ¬Inverts beyond head [lit "x"] 2 := by
  obtain ⟨u, word, hextract⟩ := extractBody_blank hblank hhead
  have hnone (h : Inverts beyond head [] 1) :
      extractBody beyond (head ++ streamBody false []) 1 = .returned [] := (h.1 (by decide)).1
  have hone (h : Inverts beyond head [lit "x"] 2) :
      extractBody beyond (head ++ streamBody false [lit "x"]) 2 = .returned (lit "x") :=
    (h.1 (by decide)).1
  rw [hextract] at hnone hone
  cases word with
  | false =>
      refine .inl fun h => ?_
      have hfailed := hnone h
      rw [Bool.not_false, if_pos rfl, if_pos] at hfailed
      · exact Extracted.noConfusion hfailed
      · have hline : codingLine.length = 28 := by decide
        rw [List.length_append, List.length_append, hline]
        omega
  | true =>
      rw [Bool.not_true, if_neg Bool.false_ne_true] at hnone hone
      obtain ⟨sz, hsz⟩ := unchunk_blank u extra beyond
      obtain ⟨p, hp, hcap⟩ := hsz []
      obtain ⟨q, -, hcap'⟩ := hsz [lit "x"]
      obtain ⟨next, hfirst⟩ := hcap 1
      obtain ⟨next', hsecond⟩ := hcap' 2
      rw [hfirst] at hnone
      rw [hsecond] at hone
      have hpos := List.length_pos_of_ne_nil hp
      have hother : (Extracted.returned [] : Extracted) ≠ .returned (lit "x") := by decide
      by_cases hzero : sz ≤ 0
      · rw [if_pos hzero] at hone
        exact .inr fun h => hother (hone h)
      by_cases hshort : (p.length : Int) < sz
      · refine .inr fun h => ?_
        have hret := hone h
        rw [if_neg hzero] at hret
        split at hret
        · exact hother hret
        · rw [if_pos (by omega)] at hret
          exact Extracted.noConfusion hret
      · rw [if_neg hzero, if_neg hshort, if_pos (by omega)] at hnone
        exact .inl fun h => Extracted.noConfusion (hnone h)

/-- The decoder is the inverse of the encoder, for the content types that do
    not end the head, up to the lengths an `int` holds. -/
theorem extractBody_inverts_stream (hextra : HeaderLines extra extraLines)
    (hhead : ntcHttpFormatStreamHead 200 contentType false extra = some head) (beyond : Bytes) :
    (¬BlankLine contentType → ∀ ws cap, (∀ w ∈ ws, w ≠ []) →
      (head ++ streamBody false ws).length < 2 ^ 63 →
        (Inverts beyond head ws cap ↔ (ws.flatten.length < cap → ws.flatten.length < 2 ^ 31) ∧
          ¬(cap = 0 ∧ ws = []))) ∧
    (BlankLine contentType → ∃ ws cap, (∀ w ∈ ws, w ≠ []) ∧ ws.flatten.length < cap ∧ cap ≤ 2 ∧
      ¬Inverts beyond head ws cap) := by
  refine ⟨fun hblank ws cap hws hsize => inverts_iff hextra hblank hhead beyond hws hsize,
    fun hblank => ?_⟩
  obtain hnone | hone := exists_not_inverts hblank hhead beyond
  · exact ⟨[], 1, fun w hw => absurd hw List.not_mem_nil, by decide, by decide, hnone⟩
  · refine ⟨[lit "x"], 2, fun w hw => ?_, by decide, by decide, hone⟩
    rw [List.mem_singleton.mp hw]
    decide

/-- The head of a stream with one header line besides the code's own. -/
def plainHead : Bytes :=
  (ntcHttpFormatStreamHead 200 (lit "text/plain") false (lit "X-A: 1\r\n")).getD []

/-- Data that looks like chunks. -/
theorem extractBody_inverts_stream_plain :
    Inverts [] plainHead [lit "a\r\n", lit "0\r\n\r\n"] 64 ∧
      Inverts [] plainHead [lit "a\r\n", lit "0\r\n\r\n"] 8 := by
  have hextra : HeaderLines (lit "X-A: 1\r\n") [lit "X-A: 1"] := by
    refine ⟨by decide, fun l hl => ?_⟩
    obtain rfl := List.mem_singleton.mp hl
    exact ⟨by decide, noCrlf_of_notMem (by decide)⟩
  have hhead : ntcHttpFormatStreamHead 200 (lit "text/plain") false (lit "X-A: 1\r\n") =
      some plainHead := by decide +kernel
  have hblank : ¬BlankLine (lit "text/plain") := by
    rw [BlankLine]
    decide +kernel
  have hws : ∀ w ∈ [lit "a\r\n", lit "0\r\n\r\n"], w ≠ [] := by
    rw [List.forall_mem_cons, List.forall_mem_singleton]
    decide
  have hsize : (plainHead ++ streamBody false [lit "a\r\n", lit "0\r\n\r\n"]).length < 2 ^ 63 := by
    decide +kernel
  obtain ⟨hinverts, -⟩ := extractBody_inverts_stream hextra hhead []
  exact ⟨(hinverts hblank _ 64 hws hsize).mpr (by decide),
    (hinverts hblank _ 8 hws hsize).mpr (by decide)⟩

/-- The head of a stream whose content type has a blank line. -/
def brokenHead : Bytes :=
  (ntcHttpFormatStreamHead 200 (lit "a\r\n\r\nb") false []).getD []

/-- The rest of the head and the framing come out in front of the payload. -/
theorem inverts_broken :
    ntcHttpFormatStreamHead 200 (lit "a\r\n\r\nb") false [] = some brokenHead ∧
      ¬Inverts [] brokenHead [lit "hello"] 512 ∧
      extractBody [] (brokenHead ++ streamBody false [lit "hello"]) 512 =
        .returned (lit "b\r\nTransfer-Encoding: chunked\r\nConnection: close\r\n\r\n" ++
          lit "5\r\nhello\r\n0\r\n\r\n") := by
  decide +kernel

end Naitron
